import Mathlib

/-!
# Programs over atomic commands

`Prog C R ε α` is a program that issues commands `c : C`, receives a reply of
type `R c` to each, and returns an `α` or raises an `ε`. A `Machine` executes
one command atomically on a state.

* `run` executes a program alone. `run_bind` composes two programs.
* `cut n` is the state after at most `n` commands: what is left behind when the
  command after them fails, which is taken to have had no effect. `Always I p` says that every state a run of `p`
  passes through meets `I`, so that it also bounds what a cut run leaves
  (`Always.cut`, `Always.run`).
* `Issues P p` says that `p` issues no command outside `P`.
* `hoist f p` replaces each command of `p` by the program `f` gives for it, on
  another machine. `run_hoist`: when those programs do on the larger state what
  the commands do on a view of it, so does the whole program.
-/
namespace MailserverUi

inductive Prog (C : Type) (R : C → Type) (ε α : Type) where
  | pure (a : α)
  | raise (e : ε)
  | call (c : C) (k : R c → Prog C R ε α)

/-- One atomic command: its reply and the state after it. -/
structure Machine (C : Type) (R : C → Type) (σ : Type) where
  exec : (c : C) → σ → R c × σ

theorem eq_ok_of_toOption {ε α : Type} {r : Except ε α} {a : α} (h : r.toOption = some a) :
    r = .ok a := by
  cases r with
  | error e => cases h
  | ok b => exact congrArg _ (Option.some.inj h)

theorem exists_ok {ε α : Type} {r : Except ε α} (h : r.toOption.isSome = true) :
    ∃ a, r = .ok a := by
  obtain ⟨a, ha⟩ := Option.isSome_iff_exists.mp h
  exact ⟨a, eq_ok_of_toOption ha⟩

namespace Prog

variable {C : Type} {R : C → Type} {ε α β σ : Type}

def bind : Prog C R ε α → (α → Prog C R ε β) → Prog C R ε β
  | .pure a, f => f a
  | .raise e, _ => .raise e
  | .call c k, f => .call c fun r => (k r).bind f

instance : Monad (Prog C R ε) where
  pure := .pure
  bind := bind

@[simp] theorem pure_bind (a : α) (f : α → Prog C R ε β) : (Prog.pure a >>= f) = f a := rfl

@[simp] theorem pure_bind' (a : α) (f : α → Prog C R ε β) :
    ((Pure.pure a : Prog C R ε α) >>= f) = f a := rfl

@[simp] theorem raise_bind (e : ε) (f : α → Prog C R ε β) :
    ((.raise e : Prog C R ε α) >>= f) = .raise e := rfl

@[simp] theorem call_bind (c : C) (k : R c → Prog C R ε α) (f : α → Prog C R ε β) :
    (Prog.call c k >>= f) = .call c fun r => k r >>= f := rfl

theorem bind_assoc {γ : Type} (p : Prog C R ε α) (f : α → Prog C R ε β) (g : β → Prog C R ε γ) :
    (p >>= f) >>= g = p >>= fun a => f a >>= g := by
  induction p with
  | pure a => rfl
  | raise e => rfl
  | call c k ih => exact congrArg (Prog.call c) (funext ih)

/-- One command, returning its reply. -/
def request (c : C) : Prog C R ε (R c) := .call c .pure

/-- `if b: raise e`. -/
def raiseIf (b : Prop) [Decidable b] (e : ε) : Prog C R ε Unit := if b then .raise e else .pure ()

/-- A pure computation that may raise. -/
def ofOption (e : ε) : Option α → Prog C R ε α
  | some a => .pure a
  | none => .raise e

def isOver : Prog C R ε α → Bool
  | .call _ _ => false
  | _ => true

/-- Every command the program may issue, whatever the replies, is one of `P`. -/
def Issues (P : C → Prop) : Prog C R ε α → Prop
  | .call c k => P c ∧ ∀ r, (k r).Issues P
  | _ => True

theorem issues_bind {P : C → Prop} {p : Prog C R ε α} {f : α → Prog C R ε β} (hp : p.Issues P)
    (hf : ∀ a, (f a).Issues P) : (p >>= f).Issues P := by
  induction p with
  | pure a => exact hf a
  | raise e => trivial
  | call c k ih => exact ⟨hp.1, fun r => ih r (hp.2 r)⟩

theorem Issues.mono {P Q : C → Prop} {p : Prog C R ε α} (h : p.Issues P)
    (hPQ : ∀ c, P c → Q c) : p.Issues Q := by
  induction p with
  | pure a => trivial
  | raise e => trivial
  | call c k ih => exact ⟨hPQ c h.1, fun r => ih r (h.2 r)⟩

theorem issues_request {P : C → Prop} {c : C} (h : P c) :
    (request c : Prog C R ε (R c)).Issues P := ⟨h, fun _ => trivial⟩

theorem issues_raiseIf {P : C → Prop} {b : Prop} [Decidable b] {e : ε} :
    (raiseIf b e : Prog C R ε Unit).Issues P := by
  unfold raiseIf; split <;> trivial

theorem issues_ofOption {P : C → Prop} {e : ε} {o : Option α} :
    (ofOption e o : Prog C R ε α).Issues P := by
  cases o <;> trivial

/-- Every exception the program may raise itself, whatever the replies, is one
of `P`. -/
def RaisesIn (P : ε → Prop) : Prog C R ε α → Prop
  | .pure _ => True
  | .raise e => P e
  | .call _ k => ∀ r, (k r).RaisesIn P

theorem raisesIn_bind {P : ε → Prop} {p : Prog C R ε α} {f : α → Prog C R ε β}
    (hp : p.RaisesIn P) (hf : ∀ a, (f a).RaisesIn P) : (p >>= f).RaisesIn P := by
  induction p with
  | pure a => exact hf a
  | raise e => exact hp
  | call c k ih => exact fun r => ih r (hp r)

theorem raisesIn_raiseIf {P : ε → Prop} {b : Prop} [Decidable b] {e : ε} (h : P e) :
    (raiseIf b e : Prog C R ε Unit).RaisesIn P := by
  unfold raiseIf
  split
  · exact h
  · trivial

variable (M : Machine C R σ)

/-- The program alone, to its end. -/
def run : Prog C R ε α → σ → Except ε α × σ
  | .pure a, s => (.ok a, s)
  | .raise e, s => (.error e, s)
  | .call c k, s => (k (M.exec c s).1).run (M.exec c s).2

/-- The state after at most `n` commands. -/
def cut : Nat → Prog C R ε α → σ → σ
  | n + 1, .call c k, s => cut n (k (M.exec c s).1) (M.exec c s).2
  | _, _, s => s

/-- The number of commands of a run. -/
def steps : Prog C R ε α → σ → Nat
  | .call c k, s => (k (M.exec c s).1).steps (M.exec c s).2 + 1
  | _, _ => 0

theorem run_bind (p : Prog C R ε α) (f : α → Prog C R ε β) (s : σ) :
    (p >>= f).run M s = match p.run M s with
      | (.ok a, s') => (f a).run M s'
      | (.error e, s') => (.error e, s') := by
  induction p generalizing s with
  | pure a => rfl
  | raise e => rfl
  | call c k ih => exact ih _ _

/-- `if b: raise e`, then the rest. -/
theorem RaisesIn.run {P : ε → Prop} {p : Prog C R ε α} (h : p.RaisesIn P) {s : σ} {e : ε}
    (he : (p.run M s).1 = .error e) : P e := by
  induction p generalizing s with
  | pure a => cases he
  | raise e' =>
    cases he
    exact h
  | call c k ih => exact ih _ (h _) he

theorem run_raiseIf_bind (b : Prop) [Decidable b] (e : ε) (f : Unit → Prog C R ε α) (s : σ) :
    (raiseIf b e >>= f).run M s = if b then (.error e, s) else (f ()).run M s := by
  unfold raiseIf; split <;> rfl

theorem run_ofOption {e : ε} {o : Option α} {a : α} {s s' : σ} :
    (ofOption e o : Prog C R ε α).run M s = (.ok a, s') ↔ o = some a ∧ s' = s := by
  constructor
  · intro h
    cases o with
    | none => cases h
    | some b =>
      cases h
      exact ⟨rfl, rfl⟩
  · rintro ⟨rfl, rfl⟩
    rfl

/-- Every state a run from `s` passes through, both ends included, meets `I`. -/
def Always (I : σ → Prop) : Prog C R ε α → σ → Prop
  | .pure _, s => I s
  | .raise _, s => I s
  | .call c k, s => I s ∧ Always I (k (M.exec c s).1) (M.exec c s).2

variable {M}

@[simp] theorem cut_zero (p : Prog C R ε α) (s : σ) : p.cut M 0 s = s := by
  cases p <;> rfl

/-- A run that is cut after its last command has been to its end. -/
theorem cut_of_steps_le {p : Prog C R ε α} {s : σ} {n : Nat} (h : p.steps M s ≤ n) :
    p.cut M n s = (p.run M s).2 := by
  induction p generalizing s n with
  | pure a => cases n <;> rfl
  | raise e => cases n <;> rfl
  | call c k ih =>
    cases n with
    | zero => exact absurd h (Nat.not_succ_le_zero _)
    | succ n => exact ih _ (Nat.le_of_succ_le_succ h)

/-- A run of two programs, cut in the first. -/
theorem cut_bind_of_le {p : Prog C R ε α} {f : α → Prog C R ε β} {s : σ} {n : Nat}
    (h : n ≤ p.steps M s) : (p >>= f).cut M n s = p.cut M n s := by
  induction p generalizing s n with
  | pure a =>
    rw [Nat.le_zero.mp h, cut_zero, cut_zero]
  | raise e => cases n <;> rfl
  | call c k ih =>
    cases n with
    | zero => rfl
    | succ n => exact ih _ (Nat.le_of_succ_le_succ h)

/-- A run of two programs, cut in the second. -/
theorem cut_bind_of_ge {p : Prog C R ε α} {f : α → Prog C R ε β} {a : α} {s s' : σ} {n : Nat}
    (hr : p.run M s = (.ok a, s')) (h : p.steps M s ≤ n) :
    (p >>= f).cut M n s = (f a).cut M (n - p.steps M s) s' := by
  induction p generalizing s n with
  | pure b =>
    cases hr
    rfl
  | raise e => cases hr
  | call c k ih =>
    cases n with
    | zero => exact absurd h (Nat.not_succ_le_zero _)
    | succ n =>
      have := ih _ hr (Nat.le_of_succ_le_succ h)
      rw [call_bind, steps, Nat.add_sub_add_right]
      exact this

/-- An error of the first program ends the second before it starts. -/
theorem cut_bind_of_error {p : Prog C R ε α} {f : α → Prog C R ε β} {e : ε} {s : σ} (n : Nat)
    (h : (p.run M s).1 = .error e) : (p >>= f).cut M n s = p.cut M n s := by
  induction p generalizing s n with
  | pure a => cases h
  | raise e' => cases n <;> rfl
  | call c k ih =>
    cases n with
    | zero => rfl
    | succ n => exact ih _ n h

theorem run_bind_of_error {p : Prog C R ε α} {f : α → Prog C R ε β} {e : ε} {s : σ}
    (h : (p.run M s).1 = .error e) : (p >>= f).run M s = (.error e, (p.run M s).2) := by
  have hr : p.run M s = (.error e, (p.run M s).2) := Prod.ext h rfl
  rw [run_bind, hr]

theorem cut_raiseIf_bind (b : Prop) [Decidable b] (e : ε) (f : Unit → Prog C R ε α) (n : Nat)
    (s : σ) : (raiseIf b e >>= f).cut M n s = if b then s else (f ()).cut M n s := by
  unfold raiseIf
  split
  · cases n <;> rfl
  · rfl

theorem Always.here {I : σ → Prop} {p : Prog C R ε α} {s : σ} (h : p.Always M I s) : I s := by
  cases p with
  | pure a => exact h
  | raise e => exact h
  | call c k => exact h.1

theorem Always.run {I : σ → Prop} {p : Prog C R ε α} {s : σ} (h : p.Always M I s) :
    I (p.run M s).2 := by
  induction p generalizing s with
  | pure a => exact h
  | raise e => exact h
  | call c k ih => exact ih _ h.2

theorem Always.cut {I : σ → Prop} {p : Prog C R ε α} {s : σ} (h : p.Always M I s) (n : Nat) :
    I (p.cut M n s) := by
  induction p generalizing s n with
  | pure a => cases n <;> exact h
  | raise e => cases n <;> exact h
  | call c k ih =>
    cases n with
    | zero => exact h.1
    | succ n => exact ih _ h.2 n

theorem always_bind {I : σ → Prop} {p : Prog C R ε α} {f : α → Prog C R ε β} {s : σ}
    (hp : p.Always M I s) (hf : ∀ a s', p.run M s = (.ok a, s') → (f a).Always M I s') :
    (p >>= f).Always M I s := by
  induction p generalizing s with
  | pure a => exact hf a s rfl
  | raise e => exact hp
  | call c k ih => exact ⟨hp.1, ih _ hp.2 fun a s' h => hf a s' h⟩

theorem always_raiseIf_bind {I : σ → Prop} {b : Prop} [Decidable b] {e : ε}
    {f : Unit → Prog C R ε α} {s : σ} :
    (raiseIf b e >>= f).Always M I s ↔ (b → I s) ∧ (¬ b → (f ()).Always M I s) := by
  unfold raiseIf
  by_cases hb : b
  · simp only [hb, if_true, raise_bind, Always, not_true, false_implies, and_true, true_implies]
  · simp only [hb, if_false, pure_bind, not_false_iff, false_implies, true_and, true_implies]

/-! ## One machine inside another -/

section
variable {C' : Type} {R' : C' → Type} {σ' : Type}

/-- The program with each command carried out by another machine. -/
def hoist (f : (c : C) → Prog C' R' ε (R c)) : Prog C R ε α → Prog C' R' ε α
  | .pure a => .pure a
  | .raise e => .raise e
  | .call c k => f c >>= fun r => (k r).hoist f

/-- Each command is carried out as `M` does it on the view `g`. -/
def Carries (M : Machine C R σ) (M' : Machine C' R' σ') (g : σ' → σ)
    (f : (c : C) → Prog C' R' ε (R c)) : Prop :=
  ∀ c t, ((f c).run M' t).1 = .ok (M.exec c (g t)).1 ∧ g ((f c).run M' t).2 = (M.exec c (g t)).2

theorem run_hoist {M' : Machine C' R' σ'} {g : σ' → σ} {f : (c : C) → Prog C' R' ε (R c)}
    (h : Carries M M' g f) (p : Prog C R ε α) (t : σ') :
    ((p.hoist f).run M' t).1 = (p.run M (g t)).1 ∧
      g ((p.hoist f).run M' t).2 = (p.run M (g t)).2 := by
  induction p generalizing t with
  | pure a => exact ⟨rfl, rfl⟩
  | raise e => exact ⟨rfl, rfl⟩
  | call c k ih =>
    obtain ⟨hr, hs⟩ := h c t
    have e : (f c).run M' t = (.ok (M.exec c (g t)).1, ((f c).run M' t).2) := Prod.ext hr rfl
    rw [hoist, run_bind, e, run, ← hs]
    exact ih _ _

end

end Prog

end MailserverUi
