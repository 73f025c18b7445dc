import MailserverUi.Core.Resume
import MailserverUi.Core.Transaction

/-!
# What a session answers

`Prog.Yields I p Q` is the triple for a session that runs alone: from where the
committed store and the copy meet `I` it ends where they do, whether it returns
or raises, and what it returns meets `Q`. There is one rule for each way a program
is put together; `Prog.Issues.yields` covers a program by the commands it issues.

`Prog.attempt` is a `try`: the error of a program, or what it returns.
-/
namespace MailserverUi

variable {C : Type} {R : C → Type} {ε α β σ : Type}

/-- `try ... except`. -/
def Prog.attempt : Prog C R ε α → Prog C R ε (Except ε α)
  | .pure a => .pure (.ok a)
  | .raise e => .pure (.error e)
  | .call c k => .call c fun r => (k r).attempt

theorem Prog.run_attempt {M : Machine C R σ} (p : Prog C R ε α) (s : σ) :
    p.attempt.run M s = (.ok (p.run M s).1, (p.run M s).2) := by
  induction p generalizing s with
  | pure a => rfl
  | raise e => rfl
  | call c k ih => exact ih _ _

theorem Prog.Points.attempt {M : Machine C R σ} {J : σ → Option C → Prop} {p : Prog C R ε α}
    {s : σ} (h : p.Points M J s) : p.attempt.Points M J s := by
  induction p generalizing s with
  | pure a => exact h
  | raise e => exact h
  | call c k ih => exact ⟨h.1, ih _ h.2⟩

theorem Prog.steps_attempt {M : Machine C R σ} (p : Prog C R ε α) (s : σ) :
    p.attempt.steps M s = p.steps M s := by
  induction p generalizing s with
  | pure a => rfl
  | raise e => rfl
  | call c k ih => exact congrArg (· + 1) (ih _ _)

theorem Prog.nextAt_attempt {M : Machine C R σ} (p : Prog C R ε α) (n : Nat) (s : σ) :
    p.attempt.nextAt M n s = p.nextAt M n s := by
  induction p generalizing s n with
  | pure a => cases n <;> rfl
  | raise e => cases n <;> rfl
  | call c k ih =>
    cases n with
    | zero => rfl
    | succ n => exact ih _ n _

/-- What is committed and what the session sees meet `I`. -/
def Tx.Meets (I : σ → Prop) (t : Tx σ) : Prop := I t.committed ∧ I t.view

theorem Tx.meets_start {I : σ → Prop} {v : σ} (h : I v) : Tx.Meets I ⟨v, none⟩ := ⟨h, h⟩

namespace Prog

section
variable (M : Machine C R σ) (kind : C → Kind) (I : σ → Prop)

def Yields (p : Prog C R ε α) (Q : α → Prop) : Prop :=
  ∀ t : Tx σ, t.Meets I → (p.run (M.inTx kind) t).2.Meets I ∧
    ∀ a, (p.run (M.inTx kind) t).1 = .ok a → Q a

end

variable {M : Machine C R σ} {kind : C → Kind} {I : σ → Prop}

theorem yields_pure {a : α} {Q : α → Prop} (h : Q a) :
    (Prog.pure a : Prog C R ε α).Yields M kind I Q := by
  intro t ht
  refine ⟨ht, fun b hb => ?_⟩
  cases hb
  exact h

theorem yields_raise {e : ε} {Q : α → Prop} :
    (Prog.raise e : Prog C R ε α).Yields M kind I Q :=
  fun t ht => ⟨ht, fun b hb => by cases hb⟩

theorem yields_mono {p : Prog C R ε α} {Q Q' : α → Prop} (h : p.Yields M kind I Q)
    (hQ : ∀ a, Q a → Q' a) : p.Yields M kind I Q' :=
  fun t ht => ⟨(h t ht).1, fun a ha => hQ a ((h t ht).2 a ha)⟩

theorem yields_bind {p : Prog C R ε α} {f : α → Prog C R ε β} {P : α → Prop} {Q : β → Prop}
    (hp : p.Yields M kind I P) (hf : ∀ a, P a → (f a).Yields M kind I Q) :
    (p >>= f).Yields M kind I Q := by
  intro t ht
  obtain ⟨hm, ha⟩ := hp t ht
  rw [run_bind]
  generalize p.run (M.inTx kind) t = r at hm ha
  obtain ⟨r, t'⟩ := r
  cases r with
  | error e => exact ⟨hm, fun b hb => by cases hb⟩
  | ok a => exact hf a (ha a rfl) t' hm

theorem yields_raiseIf {b : Prop} [Decidable b] {e : ε} :
    (raiseIf b e : Prog C R ε Unit).Yields M kind I fun _ => ¬ b := by
  unfold raiseIf
  split
  · exact yields_raise
  · exact yields_pure ‹_›

theorem yields_ofOption {e : ε} {o : Option α} :
    (ofOption e o : Prog C R ε α).Yields M kind I fun a => o = some a := by
  cases o with
  | none => exact yields_raise
  | some a => exact yields_pure rfl

/-- A command keeps the invariant, and its reply is as it is wherever that holds. -/
theorem yields_call {c : C} {k : R c → Prog C R ε α} {P : R c → Prop} {Q : α → Prop}
    (hc : ∀ v, I v → I (M.exec c v).2 ∧ P (M.exec c v).1)
    (hk : ∀ r, P r → (k r).Yields M kind I Q) : (Prog.call c k).Yields M kind I Q := by
  intro t ht
  obtain ⟨hI, hP⟩ := hc t.view ht.2
  have hm : ((M.inTx kind).exec c t).2.Meets I := by
    cases h : kind c with
    | read =>
      rw [Machine.inTx_read h]
      exact ht
    | write =>
      rw [Machine.inTx_write h]
      exact ⟨ht.1, hI⟩
    | commit =>
      rw [Machine.inTx_commit h]
      exact ⟨ht.2, ht.2⟩
  exact hk _ hP _ hm

theorem yields_request {c : C} {P : R c → Prop}
    (hc : ∀ v, I v → I (M.exec c v).2 ∧ P (M.exec c v).1) :
    (request c : Prog C R ε (R c)).Yields M kind I P :=
  yields_call hc fun _ h => yields_pure h

/-- A program all of whose commands keep the invariant. -/
theorem Issues.yields {P : C → Prop} {p : Prog C R ε α} (h : p.Issues P)
    (hP : ∀ c v, P c → I v → I (M.exec c v).2) : p.Yields M kind I fun _ => True := by
  induction p with
  | pure a => exact yields_pure trivial
  | raise e => exact yields_raise
  | call c k ih =>
    exact yields_call (P := fun _ => True) (fun v hv => ⟨hP c v h.1 hv, trivial⟩)
      fun r _ => ih r (h.2 r)

theorem yields_attempt {p : Prog C R ε α} {Q : α → Prop} (h : p.Yields M kind I Q) :
    p.attempt.Yields M kind I fun r => ∀ a, r = .ok a → Q a := by
  intro t ht
  rw [run_attempt]
  refine ⟨(h t ht).1, fun r hr => ?_⟩
  cases hr
  exact (h t ht).2

end Prog

end MailserverUi
