import Mathlib
import MailserverUi.Core.LTS
import MailserverUi.Core.Prog

/-!
# Two programs side by side, and conflict-serialisable interleavings

`Pair` runs two programs over one machine, one atomic command of either side at
a time, and records who issued what. A relation `conf` on commands is `Sound`
when commands it does not relate commute: either order gives the same replies
and the same state.

`serial`: an interleaving in which no command of side `w` comes after a
conflicting command of the other side ends in the state, and leaves both
programs where, running side `w` alone first and the other side alone after it
would. `outcome` reads this off `Prog.run` once both programs are over.
-/
namespace MailserverUi.Serial

variable {C : Type} {R : C → Type} {ε α σ : Type}

structure Pair (C : Type) (R : C → Type) (ε α σ : Type) where
  st : σ
  prog : Bool → Prog C R ε α
  /-- ghost: who issued which command, the latest first -/
  trace : List (Bool × C)

variable (M : Machine C R σ)

def step (s : Pair C R ε α σ) (w : Bool) : Option (Pair C R ε α σ) :=
  match s.prog w with
  | .call c k => some { st := (M.exec c s.st).2,
                        prog := Function.update s.prog w (k (M.exec c s.st).1),
                        trace := (w, c) :: s.trace }
  | _ => none

/-- Both programs from one store. -/
def start (st : σ) (prog : Bool → Prog C R ε α) : Pair C R ε α σ := ⟨st, prog, []⟩

def lts (st : σ) (prog : Bool → Prog C R ε α) : LTS (Pair C R ε α σ) Bool :=
  LTS.ofFn (· = start st prog) (step M)

variable {M}

theorem step_cases {s s' : Pair C R ε α σ} {w : Bool} (h : step M s w = some s') :
    ∃ c k, s.prog w = .call c k ∧ s'.st = (M.exec c s.st).2 ∧
      s'.prog = Function.update s.prog w (k (M.exec c s.st).1) ∧ s'.trace = (w, c) :: s.trace := by
  unfold step at h
  split at h
  · rename_i c k hp
    simp only [Option.some.injEq] at h; subst h
    exact ⟨c, k, hp, rfl, rfl, rfl⟩
  · cases h

/-- A schedule that can be run to its end reaches a state as computed. -/
theorem reachable_of_schedule (M : Machine C R σ) (st : σ) (prog : Bool → Prog C R ε α)
    (ws : List Bool) (P : Pair C R ε α σ → Bool)
    (h : (LTS.exec (step M) (start st prog) ws).any P = true) :
    ∃ s, (lts M st prog).Reachable s ∧ P s = true := by
  refine LTS.reachable_of_exec ?_ ws P h
  rfl

/-- Commands that `conf` does not relate commute. -/
def Sound (M : Machine C R σ) (conf : C → C → Bool) : Prop :=
  ∀ c d s, conf c d = false →
    (M.exec c (M.exec d s).2).1 = (M.exec c s).1 ∧ (M.exec d (M.exec c s).2).1 = (M.exec d s).1 ∧
      (M.exec c (M.exec d s).2).2 = (M.exec d (M.exec c s).2).2

/-- Some command of side `w` came after a conflicting command of the other
side. -/
def Follows (conf : C → C → Bool) (w : Bool) : List (Bool × C) → Prop
  | [] => False
  | (v, c) :: tr => (v = w ∧ ∃ d, (!w, d) ∈ tr ∧ conf c d = true) ∨ Follows conf w tr

instance decidableFollows (conf : C → C → Bool) (w : Bool) :
    (tr : List (Bool × C)) → Decidable (Follows conf w tr)
  | [] => isFalse id
  | (v, c) :: tr =>
    have := decidableFollows conf w tr
    decidable_of_iff ((v = w ∧ tr.any (fun e => e.1 = !w && conf c e.2) = true) ∨ Follows conf w tr)
      (by cases w <;> simp [Follows])

/-- The conflicts between the two sides all point the same way. -/
def OneWay (conf : C → C → Bool) (tr : List (Bool × C)) : Prop :=
  ¬ Follows conf true tr ∨ ¬ Follows conf false tr

instance (conf : C → C → Bool) (tr : List (Bool × C)) : Decidable (OneWay conf tr) :=
  inferInstanceAs (Decidable (_ ∨ _))

/-- `p` alone from `s`, issuing `cs`. -/
inductive Alone (M : Machine C R σ) (p : Prog C R ε α) (s : σ) :
    List C → Prog C R ε α → σ → Prop
  | nil : Alone M p s [] p s
  | snoc {p' : Prog C R ε α} {s' : σ} {cs : List C} {c : C} {k : R c → Prog C R ε α}
      (h : Alone M p s cs p' s') (hp : p' = .call c k) :
      Alone M p s (cs ++ [c]) (k (M.exec c s').1) (M.exec c s').2

/-- A command that conflicts with none of `cs` may as well be executed first. -/
theorem Alone.commute {conf : C → C → Bool} (hM : Sound M conf) {p p' : Prog C R ε α} {s s' : σ}
    {cs : List C} (h : Alone M p s cs p' s') (c : C) (hc : ∀ d ∈ cs, conf c d = false) :
    (M.exec c s').1 = (M.exec c s).1 ∧ Alone M p (M.exec c s).2 cs p' (M.exec c s').2 := by
  induction h with
  | nil => exact ⟨rfl, .nil⟩
  | @snoc p' s' cs d k h hp ih =>
    obtain ⟨h₁, h₂⟩ := ih fun d hd => hc d (List.mem_append_left _ hd)
    obtain ⟨e₁, e₂, e₃⟩ := hM c d s' (hc d (by simp))
    refine ⟨e₁.trans h₁, ?_⟩
    have := Alone.snoc h₂ hp
    rw [e₂] at this
    rw [e₃]; exact this

theorem Alone.run {p p' : Prog C R ε α} {s s' : σ} {cs : List C} (h : Alone M p s cs p' s') :
    p.run M s = p'.run M s' := by
  induction h with
  | nil => rfl
  | snoc h hp ih => rw [ih, hp]; rfl

/-- The commands of side `w`, in the order they were issued. -/
def issued (w : Bool) (tr : List (Bool × C)) : List C :=
  ((tr.filter fun e => e.1 == w).map Prod.snd).reverse

theorem issued_same (w : Bool) (c : C) (tr : List (Bool × C)) :
    issued w ((w, c) :: tr) = issued w tr ++ [c] := by
  simp [issued]

theorem issued_other {w v : Bool} (h : v ≠ w) (c : C) (tr : List (Bool × C)) :
    issued w ((v, c) :: tr) = issued w tr := by
  simp [issued, h]

theorem mem_issued {w : Bool} {d : C} {tr : List (Bool × C)} : d ∈ issued w tr ↔ (w, d) ∈ tr := by
  simp only [issued, List.mem_reverse, List.mem_map, List.mem_filter, beq_iff_eq, Prod.exists,
    and_comm, exists_eq_left]

/-- Side `w` first, the other side after it. -/
def InOrder (M : Machine C R σ) (st : σ) (prog : Bool → Prog C R ε α) (w : Bool)
    (s : Pair C R ε α σ) : Prop :=
  ∃ mid, Alone M (prog w) st (issued w s.trace) (s.prog w) mid ∧
    Alone M (prog (!w)) mid (issued (!w) s.trace) (s.prog (!w)) s.st

theorem inOrder_step {conf : C → C → Bool} (hM : Sound M conf) {st : σ}
    {prog : Bool → Prog C R ε α} {w v : Bool} {s s' : Pair C R ε α σ}
    (h : InOrder M st prog w s) (hs : step M s v = some s') (hf : ¬ Follows conf w s'.trace) :
    InOrder M st prog w s' := by
  obtain ⟨mid, hw, ho⟩ := h
  obtain ⟨c, k, hp, hst, hprog, htr⟩ := step_cases hs
  rw [htr, Follows, not_or] at hf
  have hwo : (!w) ≠ w := by cases w <;> decide
  by_cases hv : v = w
  · subst hv
    have hc : ∀ d ∈ issued (!v) s.trace, conf c d = false := by
      intro d hd
      rw [Bool.eq_false_iff]
      exact fun e => hf.1 ⟨rfl, d, mem_issued.mp hd, e⟩
    obtain ⟨hr, ho'⟩ := ho.commute hM c hc
    refine ⟨(M.exec c mid).2, ?_, ?_⟩
    · rw [htr, issued_same, hprog, Function.update_self, hr]
      exact .snoc hw hp
    · rw [htr, issued_other hwo.symm, hprog, Function.update_of_ne hwo, hst]
      exact ho'
  · obtain rfl : v = !w := by cases v <;> cases w <;> simp_all
    refine ⟨mid, ?_, ?_⟩
    · rw [htr, issued_other hwo, hprog, Function.update_of_ne hwo.symm]
      exact hw
    · rw [htr, issued_same, hprog, Function.update_self, hst]
      exact .snoc ho hp

theorem not_follows_of_step {conf : C → C → Bool} {w v : Bool} {s s' : Pair C R ε α σ}
    (hs : step M s v = some s') (hf : ¬ Follows conf w s'.trace) : ¬ Follows conf w s.trace := by
  obtain ⟨c, k, -, -, -, htr⟩ := step_cases hs
  rw [htr, Follows, not_or] at hf
  exact hf.2

/-- **Serialisability.** An interleaving whose conflicts never put side `w`
second ends as side `w` followed by the other side. -/
theorem serial {conf : C → C → Bool} (hM : Sound M conf) {st : σ} {prog : Bool → Prog C R ε α}
    {w : Bool} {s : Pair C R ε α σ} (hr : (lts M st prog).Reachable s)
    (hf : ¬ Follows conf w s.trace) : InOrder M st prog w s := by
  have hI : (lts M st prog).Inductive fun s => ¬ Follows conf w s.trace → InOrder M st prog w s := by
    refine ⟨?_, ?_⟩
    · rintro s rfl _
      exact ⟨st, .nil, .nil⟩
    · intro s v s' ih hs hf'
      exact inOrder_step hM (ih (not_follows_of_step hs hf')) hs hf'
  exact hI.reachable s hr hf

/-- The state and the two results of running side `w` alone, then the other. -/
def serialRun (M : Machine C R σ) (st : σ) (prog : Bool → Prog C R ε α) (w : Bool) :
    Except ε α × Except ε α × σ :=
  let first := (prog w).run M st
  let second := (prog (!w)).run M first.2
  (first.1, second.1, second.2)

/-- The result of a program that is over. -/
def result : Prog C R ε α → Option (Except ε α)
  | .pure a => some (.ok a)
  | .raise e => some (.error e)
  | .call _ _ => none

theorem run_of_result {p : Prog C R ε α} {r : Except ε α} (h : result p = some r) (s : σ) :
    p.run M s = (r, s) := by
  cases p with
  | pure a => cases h; rfl
  | raise e => cases h; rfl
  | call c k => cases h

/-- Two programs that are over, with no conflict that puts side `w` second:
results and state are those of the serial run with `w` first. -/
theorem outcome {conf : C → C → Bool} (hM : Sound M conf) {st : σ} {prog : Bool → Prog C R ε α}
    {w : Bool} {s : Pair C R ε α σ} (hr : (lts M st prog).Reachable s)
    (hf : ¬ Follows conf w s.trace) {a b : Except ε α} (ha : result (s.prog w) = some a)
    (hb : result (s.prog (!w)) = some b) : serialRun M st prog w = (a, b, s.st) := by
  obtain ⟨mid, h₁, h₂⟩ := serial hM hr hf
  have e₁ := h₁.run.trans (run_of_result ha mid)
  have e₂ := h₂.run.trans (run_of_result hb s.st)
  simp only [serialRun, e₁, e₂]

end MailserverUi.Serial
