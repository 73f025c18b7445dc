import Mathlib
import MailserverUi.Core.Prog

/-!
# Services and their refinement

A service answers each operation and goes on in a new state. `Refines` says that
one service does on its states what another one does on what they stand for:
the same answer, and states that stand for each other again. It may rest on an
invariant of the first one and on a condition on the operations, and may see
less than the whole of an operation.

Results:
* `Refines.answers_eq`: then every sequence of operations has the same answers.
* `Refines.after_eq`: and ends in states that stand for each other.

`Prog.Agrees` is one operation of such a service, given as a program: it ends as
the operation of the other service does. There are rules for the guards at its
beginning.
-/
namespace MailserverUi

/-- The answer to an operation and the state after it. -/
structure Service (S O R : Type) where
  serve : S → O → R × S

namespace Service

variable {S T O P R : Type}

/-- The answers to the operations in order. -/
def answers (M : Service S O R) : S → List O → List R
  | _, [] => []
  | s, o :: os => (M.serve s o).1 :: answers M (M.serve s o).2 os

def after (M : Service S O R) (s : S) (os : List O) : S :=
  os.foldl (fun s o => (M.serve s o).2) s

/-- `C` is `A` on what its states and operations stand for. -/
structure Refines (C : Service S O R) (A : Service T P R) (I : S → Prop) (good : O → Prop)
    (view : S → T) (seen : O → P) : Prop where
  keeps : ∀ s o, I s → good o → I (C.serve s o).2
  answer : ∀ s o, I s → good o → (C.serve s o).1 = (A.serve (view s) (seen o)).1
  next : ∀ s o, I s → good o → view (C.serve s o).2 = (A.serve (view s) (seen o)).2

variable {C : Service S O R} {A : Service T P R} {I : S → Prop} {good : O → Prop} {view : S → T}
  {seen : O → P}

theorem Refines.answers_eq (h : Refines C A I good view seen) {os : List O}
    (ho : ∀ o ∈ os, good o) {s : S} (hs : I s) :
    C.answers s os = A.answers (view s) (os.map seen) := by
  induction os generalizing s with
  | nil => rfl
  | cons o os ih =>
    have hg := ho o List.mem_cons_self
    have hrest := ih (fun p hp => ho p (List.mem_cons_of_mem _ hp)) (h.keeps s o hs hg)
    rw [answers, List.map_cons, answers, h.answer s o hs hg, hrest, h.next s o hs hg]

theorem Refines.after_eq (h : Refines C A I good view seen) {os : List O}
    (ho : ∀ o ∈ os, good o) {s : S} (hs : I s) :
    view (C.after s os) = A.after (view s) (os.map seen) := by
  induction os generalizing s with
  | nil => rfl
  | cons o os ih =>
    have hg := ho o List.mem_cons_self
    have hrest := ih (fun p hp => ho p (List.mem_cons_of_mem _ hp)) (h.keeps s o hs hg)
    unfold after at hrest ⊢
    rw [List.foldl_cons, List.map_cons, List.foldl_cons, hrest, h.next s o hs hg]

end Service

/-! ## Operations that are programs -/

namespace Prog

variable {C : Type} {R : C → Type} {ε α ρ σ τ : Type}

/-- From `s`, `p` returns what `d` says and ends in a state that stands for that
of `d`. -/
def Agrees (M : Machine C R σ) (view : σ → τ) (g : α → ρ) (p : Prog C R ε α) (s : σ)
    (d : Except ε ρ × τ) : Prop :=
  (p.run M s).1.map g = d.1 ∧ view (p.run M s).2 = d.2

variable {M : Machine C R σ} {view : σ → τ} {g : α → ρ} {p : Prog C R ε α} {s : σ}
  {d : Except ε ρ × τ}

/-- What `p` returns, as an answer. -/
theorem Agrees.returned (h : p.Agrees M view g s d) :
    ((p >>= fun x => Pure.pure (g x)).run M s).1 = d.1 ∧
      view ((p >>= fun x => Pure.pure (g x)).run M s).2 = d.2 := by
  have e : (p >>= fun x => Pure.pure (g x)).run M s =
      ((p.run M s).1.map g, (p.run M s).2) := by
    rw [run_bind]
    rcases p.run M s with ⟨_ | _, _⟩ <;> rfl
  rw [e]
  exact h

/-- Both are rejected, or both go on. -/
theorem agrees_raiseIf_bind {P Q : Prop} [Decidable P] [Decidable Q] {e : ε}
    {k : Unit → Prog C R ε α} (h : P ↔ Q) (hk : ¬ Q → (k ()).Agrees M view g s d) :
    (raiseIf P e >>= k).Agrees M view g s (if Q then (.error e, view s) else d) := by
  rw [Agrees, run_raiseIf_bind]
  by_cases hq : Q
  · rw [if_pos (h.mpr hq), if_pos hq]
    exact ⟨rfl, rfl⟩
  · rw [if_neg (fun hp => hq (h.mp hp)), if_neg hq]
    exact hk hq

end Prog

end MailserverUi
