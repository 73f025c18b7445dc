import MailserverUi.Core.Prog

/-!
# Programs whose commands may fail

A command that fails raises out of the program, without an effect of its own: one
that has acted before it fails is not covered. `stop` is the state that is left
behind when the command after the first `n` fails, `Raises` says that the caller
gets an error, from that command or from the program itself.

* `Reads n p q`: the first `n` commands of `p` leave the state alone, and `q` is
  what is left to do.
* `unchanged_iff_stops`: a program that reads, then writes, and never returns to a
  state that counts as unchanged leaves an error without a trace exactly when it stops
  before it writes, or does not raise at all.
* `unchanged_of_last`, `kept_of_last`: a program whose only write, or whose only write
  that counts, is its last command.
* `Issues.always`: what each command keeps is kept all the way.
* `Settles n p`: the one write of `p`, if there is any, is the command after the
  first `n`, and the program does not raise after it. Such a program leaves an
  error without a trace unless a command fails after the write
  (`Settles.stop_eq`).
-/
namespace MailserverUi.Prog

variable {C : Type} {R : C → Type} {ε α β σ : Type} (M : Machine C R σ)

/-- The state a program leaves behind, cut short or not. -/
def stop (p : Prog C R ε α) (fails : Option Nat) (s : σ) : σ :=
  match fails with
  | none => (p.run M s).2
  | some n => p.cut M n s

/-- The program itself ends with an error. -/
def Errs (p : Prog C R ε α) (s : σ) : Prop := ∃ e, (p.run M s).1 = .error e

/-- A command fails, or the program ends with an error. -/
def Raises (p : Prog C R ε α) (fails : Option Nat) (s : σ) : Prop :=
  (∃ n, fails = some n ∧ n < p.steps M s) ∨ p.Errs M s

/-- No command fails, and the program ends without an error. -/
def returns (p : Prog C R ε α) (fails : Option Nat) (s : σ) : Bool :=
  fails.isNone && (p.run M s).1.toOption.isSome

/-- The first commands of a program, none of which changes the state. -/
inductive Reads (s : σ) : Nat → Prog C R ε α → Prog C R ε α → Prop where
  | here (p : Prog C R ε α) : Reads s 0 p p
  | call {c : C} {k : R c → Prog C R ε α} {n : Nat} {q : Prog C R ε α} (h : (M.exec c s).2 = s)
      (hq : Reads s n (k (M.exec c s).1) q) : Reads s (n + 1) (.call c k) q

/-- Nothing is written, or the command after the first `n` is the first to
write, and no error comes after it. -/
def Settles (n : Nat) (p : Prog C R ε α) (s : σ) : Prop :=
  p.Always M (· = s) s ∨
    ∃ c k, Reads M s n p (.call c k) ∧ ¬ (k (M.exec c s).1).Errs M (M.exec c s).2

/-- The program without its result. -/
def void (p : Prog C R ε α) : Prog C R ε Unit := p >>= fun _ => .pure ()

variable {M}

theorem raiseIf_bind_pos {b : Prop} [Decidable b] (h : b) (e : ε)
    (f : Unit → Prog C R ε α) : (raiseIf b e >>= f) = .raise e := by
  rw [raiseIf, if_pos h]
  rfl

theorem raiseIf_bind_neg {b : Prop} [Decidable b] (h : ¬ b) (e : ε)
    (f : Unit → Prog C R ε α) : (raiseIf b e >>= f) = f () := by
  rw [raiseIf, if_neg h]
  rfl

theorem steps_bind {p : Prog C R ε α} {f : α → Prog C R ε β} {a : α} {s s' : σ}
    (h : p.run M s = (.ok a, s')) : (p >>= f).steps M s = p.steps M s + (f a).steps M s' := by
  induction p generalizing s with
  | pure b =>
    cases h
    exact (Nat.zero_add _).symm
  | raise e => cases h
  | call c k ih =>
    have := ih _ h
    simp only [call_bind, steps] at this ⊢
    omega

namespace Reads

section
variable {s : σ} {n : Nat} {p q : Prog C R ε α}

theorem bind (h : Reads M s n p q) (f : α → Prog C R ε β) : Reads M s n (p >>= f) (q >>= f) := by
  induction h with
  | here p => exact .here _
  | call hc _ ih => exact .call hc ih

theorem trans {m : Nat} {r : Prog C R ε α} (h : Reads M s n p q) (hq : Reads M s m q r) :
    Reads M s (n + m) p r := by
  induction h with
  | here p => rwa [Nat.zero_add]
  | call hc _ ih =>
    rw [Nat.add_right_comm]
    exact .call hc (ih hq)

theorem cut_le (h : Reads M s n p q) {m : Nat} (hm : m ≤ n) : p.cut M m s = s := by
  induction h generalizing m with
  | here p => rw [Nat.le_zero.mp hm, cut_zero]
  | call hc _ ih =>
    cases m with
    | zero => rfl
    | succ m =>
      rw [cut, hc]
      exact ih (Nat.le_of_succ_le_succ hm)

theorem cut_add (h : Reads M s n p q) (m : Nat) : p.cut M (n + m) s = q.cut M m s := by
  induction h with
  | here p => rw [Nat.zero_add]
  | call hc _ ih => rw [Nat.add_right_comm, cut, hc, ih]

theorem steps_eq (h : Reads M s n p q) : p.steps M s = n + q.steps M s := by
  induction h with
  | here p => rw [Nat.zero_add]
  | call hc _ ih => rw [steps, hc, ih, Nat.add_right_comm]

theorem run_eq (h : Reads M s n p q) : p.run M s = q.run M s := by
  induction h with
  | here p => rfl
  | call hc _ ih => rw [run, hc, ih]

end

end Reads

section
variable {s : σ} {p : Prog C R ε α} {fails : Option Nat}

theorem Always.mono {I J : σ → Prop} (h : p.Always M I s) (hij : ∀ t, I t → J t) :
    p.Always M J s := by
  induction p generalizing s with
  | pure a => exact hij s h
  | raise e => exact hij s h
  | call c k ih => exact ⟨hij s h.1, ih _ h.2⟩

theorem raises_of_returns (h : p.returns M fails s = false)
    (hf : ∀ n, fails = some n → n < p.steps M s) : p.Raises M fails s := by
  cases fails with
  | some n => exact .inl ⟨n, rfl, hf n rfl⟩
  | none =>
    cases hr : (p.run M s).1 with
    | error e => exact .inr ⟨e, hr⟩
    | ok a =>
      rw [returns, hr] at h
      cases h

theorem Issues.always {P : C → Prop} {I : σ → Prop} (h : p.Issues P)
    (hI : ∀ c t, P c → I t → I (M.exec c t).2) (hs : I s) : p.Always M I s := by
  induction p generalizing s with
  | pure a => exact hs
  | raise e => exact hs
  | call c k ih => exact ⟨hs, ih _ (h.2 _) (hI c s h.1 hs)⟩

theorem run_void (s : σ) : p.void.run M s = ((p.run M s).1.map fun _ => (), (p.run M s).2) := by
  rw [void, run_bind]
  rcases p.run M s with ⟨_ | _, _⟩ <;> rfl

theorem stop_void (fails : Option Nat) (s : σ) : p.void.stop M fails s = p.stop M fails s := by
  cases fails with
  | none => exact congrArg Prod.snd (run_void s)
  | some n =>
    unfold stop
    induction p generalizing n s with
    | pure a => cases n <;> rfl
    | raise e => cases n <;> rfl
    | call c k ih =>
      cases n with
      | zero => rfl
      | succ n => exact ih _ _ _

theorem returns_void (s : σ) : p.void.returns M fails s = p.returns M fails s := by
  rw [returns, returns, run_void]
  cases (p.run M s).1 <;> rfl

/-- A program without commands. -/
theorem Issues.pure_or_raise (h : p.Issues fun _ => False) :
    (∃ a, p = .pure a) ∨ ∃ e, p = .raise e := by
  cases p with
  | pure a => exact .inl ⟨a, rfl⟩
  | raise e => exact .inr ⟨e, rfl⟩
  | call c k => exact absurd h.1 id

theorem Issues.void {P : C → Prop} (h : p.Issues P) : p.void.Issues P :=
  issues_bind h fun _ => trivial

theorem Always.stop {I : σ → Prop} (h : p.Always M I s) (fails : Option Nat) :
    I (p.stop M fails s) := by
  cases fails with
  | none => exact h.run
  | some n => exact h.cut n

theorem Reads.always {n : Nat} {q : Prog C R ε α} {I : σ → Prop} (h : Reads M s n p q)
    (hq : q.Always M I s) : p.Always M I s := by
  induction h with
  | here p => exact hq
  | call hc _ ih =>
    refine ⟨hq.here, ?_⟩
    rw [hc]
    exact ih hq

variable {n : Nat} {c : C} {k : R c → Prog C R ε α} {K : σ → Prop}

theorem Reads.cut_gt (h : Reads M s n p (.call c k))
    (hk : (k (M.exec c s).1).Always M (fun t => ¬ K t) (M.exec c s).2) {m : Nat} (hm : n < m) :
    ¬ K (p.cut M m s) := by
  obtain ⟨j, rfl⟩ : ∃ j, m = n + (j + 1) := ⟨m - n - 1, by omega⟩
  rw [h.cut_add, cut]
  exact hk.cut j

/-- The caller of a program that writes after `n` commands finds the state unchanged,
as `K` has it, after an error exactly when the program does not get to the write, or
there is no error. -/
theorem unchanged_iff_stops (h : Reads M s n p (.call c k)) (hs : K s)
    (hk : (k (M.exec c s).1).Always M (fun t => ¬ K t) (M.exec c s).2) :
    (p.Raises M fails s → K (p.stop M fails s)) ↔
      match fails with
      | some m => m ≤ n ∨ p.steps M s ≤ m ∧ ¬ p.Errs M s
      | none => ¬ p.Errs M s := by
  cases fails with
  | none =>
    have hrun : ¬ K (p.run M s).2 := by
      rw [h.run_eq, run]
      exact hk.run
    constructor
    · intro hr he
      exact hrun (hr (.inr he))
    · rintro he (⟨m, hm, -⟩ | hr)
      · cases hm
      · exact absurd hr he
  | some m =>
    constructor
    · intro hr
      by_cases hm : m ≤ n
      · exact .inl hm
      · have hne := h.cut_gt hk (Nat.lt_of_not_le hm)
        refine .inr ⟨?_, fun he => hne (hr (.inr he))⟩
        by_contra hlt
        exact hne (hr (.inl ⟨m, rfl, Nat.lt_of_not_le hlt⟩))
    · rintro (hm | ⟨hm, he⟩) hr
      · rw [stop, h.cut_le hm]
        exact hs
      · rcases hr with ⟨j, hj, hlt⟩ | hr
        · cases hj
          exact absurd hlt (Nat.not_lt_of_le hm)
        · exact absurd hr he

/-- A program whose only write is its last command has written when no command
fails, and only then. -/
theorem stop_of_last {a : α} (h : Reads M s n p (.call c k)) (hk : k (M.exec c s).1 = .pure a)
    (hf : ∀ m, fails = some m → m < p.steps M s) :
    p.stop M fails s = if fails = none then (M.exec c s).2 else s := by
  cases fails with
  | none =>
    show (p.run M s).2 = _
    rw [h.run_eq, run, hk, if_pos rfl]
    rfl
  | some m =>
    have hm := hf m rfl
    rw [h.steps_eq, steps, hk] at hm
    rw [if_neg (Option.some_ne_none m)]
    exact h.cut_le (Nat.le_of_lt_succ hm)

/-- A program whose second part is one command at most, cut before its last
command. -/
theorem cut_bind_of_lt_steps {β : Type} {f : α → Prog C R ε β}
    (hf : ∀ a t, (f a).steps M t ≤ 1) {m : Nat} (hm : m < (p >>= f).steps M s) :
    (p >>= f).cut M m s = p.cut M m s := by
  induction p generalizing s m with
  | pure a =>
    have h0 : m = 0 := by
      have := hf a s
      have hm : m < (f a).steps M s := hm
      omega
    rw [h0, cut_zero, cut_zero]
  | raise e => exact absurd hm (Nat.not_lt_zero _)
  | call c k ih =>
    cases m with
    | zero => rfl
    | succ m => exact ih _ (Nat.lt_of_succ_lt_succ hm)

/-- A program whose only write is its last command, and which does not raise
after it. -/
theorem unchanged_of_last {a : α} (h : Reads M s n p (.call c k))
    (hk : k (M.exec c s).1 = .pure a) (hr : p.Raises M fails s) : p.stop M fails s = s := by
  rcases hr with ⟨m, rfl, hm⟩ | ⟨e, he⟩
  · have hsteps : p.steps M s = n + 1 := by
      rw [h.steps_eq, steps, hk]
      rfl
    exact h.cut_le (by omega)
  · rw [h.run_eq, run, hk] at he
    cases he

/-- A program with one more write before its last command, which leaves a state that
counts as unchanged. -/
theorem kept_of_last {a : α} {m : Nat} {d : C} {l : R d → Prog C R ε α}
    (h : Reads M s n p (.call c k)) (hs : K s)
    (hl : Reads M (M.exec c s).2 m (k (M.exec c s).1) (.call d l)) (hm : K (M.exec c s).2)
    (hp : l (M.exec d (M.exec c s).2).1 = .pure a) (hr : p.Raises M fails s) :
    K (p.stop M fails s) := by
  rcases hr with ⟨j, rfl, hj⟩ | ⟨e, he⟩
  · have hsteps : p.steps M s = n + (m + 1 + 1) := by
      rw [h.steps_eq, steps, hl.steps_eq, steps, hp]
      rfl
    show K (p.cut M j s)
    by_cases hn : j ≤ n
    · rw [h.cut_le hn]
      exact hs
    · obtain ⟨i, rfl⟩ : ∃ i, j = n + (i + 1) := ⟨j - n - 1, by omega⟩
      rw [h.cut_add, cut, hl.cut_le (by omega)]
      exact hm
  · rw [h.run_eq, run, hl.run_eq, run, hp] at he
    cases he

end

namespace Settles

section
variable {s : σ} {n : Nat} {p q : Prog C R ε α} {fails : Option Nat}

theorem raise (e : ε) : (.raise e : Prog C R ε α).Settles M n s := .inl rfl

theorem of_reads {m : Nat} (h : Reads M s m p q) (hq : q.Settles M n s) :
    p.Settles M (m + n) s := by
  rcases hq with hq | ⟨c, k, hr, hk⟩
  · exact .inl (h.always hq)
  · exact .inr ⟨c, k, h.trans hr, hk⟩

theorem raiseIf_bind {b : Prop} [Decidable b] {e : ε} {f : Unit → Prog C R ε α}
    (h : ¬ b → (f ()).Settles M n s) : (Prog.raiseIf b e >>= f).Settles M n s := by
  by_cases hb : b
  · rw [raiseIf_bind_pos hb]
    exact raise e
  · rw [raiseIf_bind_neg hb]
    exact h hb

theorem write {c : C} {k : R c → Prog C R ε α}
    (h : ¬ (k (M.exec c s).1).Errs M (M.exec c s).2) : (Prog.call c k).Settles M 0 s :=
  .inr ⟨c, k, .here _, h⟩

/-- An error of such a program, or of a command up to its write, leaves no
trace. -/
theorem stop_eq (h : p.Settles M n s) (hr : p.Raises M fails s)
    (hf : ∀ m, fails = some m → m ≤ n) : p.stop M fails s = s := by
  rcases h with h | ⟨c, k, h, hk⟩
  · exact h.stop fails
  · cases fails with
    | some m => exact h.cut_le (hf m rfl)
    | none =>
      rcases hr with ⟨m, hm, -⟩ | ⟨e, he⟩
      · cases hm
      · rw [h.run_eq, run] at he
        exact absurd ⟨e, he⟩ hk

theorem errs_bind_pure {β : Type} {f : α → β} :
    (p >>= fun a => .pure (f a) : Prog C R ε β).Errs M s ↔ p.Errs M s := by
  unfold Errs
  rw [run_bind]
  rcases p.run M s with ⟨_ | _, _⟩ <;> simp [run]

theorem void (h : p.Settles M n s) : p.void.Settles M n s := by
  rcases h with h | ⟨c, k, h, hk⟩
  · refine .inl (always_bind h fun _ s' e => ?_)
    have := h.run
    rw [e] at this
    exact this
  · exact .inr ⟨c, _, h.bind _, mt errs_bind_pure.mp hk⟩

end

end Settles

end MailserverUi.Prog
