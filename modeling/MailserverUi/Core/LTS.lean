import Mathlib

/-!
# Labelled transition systems, their runs and their inductive invariants

A system is a set of initial states and a labelled step relation. `Run` chains
steps, `Reachable` starts them in an initial state, and `Inductive` is the
usual pair of proof obligations (holds initially, kept by one step) from which
`Inductive.reachable` draws the statement about whole runs.

`LTS.guard` keeps the runs in which every step meets a condition on the state
it starts from and on its label. A result that needs the condition is a result
about the guarded system; `guard_run` says that it only has fewer runs.
-/
namespace MailserverUi

structure LTS (S L : Type) where
  init : S → Prop
  step : S → L → S → Prop

namespace LTS

variable {S L : Type}

/-- The system whose step is a partial function. -/
def ofFn (init : S → Prop) (f : S → L → Option S) : LTS S L where
  init := init
  step s l s' := f s l = some s'

inductive Run (M : LTS S L) : S → List L → S → Prop
  | nil (s : S) : Run M s [] s
  | cons {s s' s'' : S} {l : L} {ls : List L} (h : M.step s l s') (t : Run M s' ls s'') :
      Run M s (l :: ls) s''

def Reachable (M : LTS S L) (s : S) : Prop := ∃ s₀ ls, M.init s₀ ∧ M.Run s₀ ls s

structure Inductive (M : LTS S L) (I : S → Prop) : Prop where
  init : ∀ s, M.init s → I s
  step : ∀ s l s', I s → M.step s l s' → I s'

theorem Inductive.run {M : LTS S L} {I : S → Prop} (h : M.Inductive I) {s s' : S} {ls : List L}
    (hr : M.Run s ls s') (hs : I s) : I s' := by
  induction hr with
  | nil => exact hs
  | cons hst _ ih => exact ih (h.step _ _ _ hs hst)

theorem Inductive.reachable {M : LTS S L} {I : S → Prop} (h : M.Inductive I) (s : S)
    (hr : M.Reachable s) : I s := by
  obtain ⟨s₀, ls, h₀, hrun⟩ := hr
  exact h.run hrun (h.init s₀ h₀)

theorem Run.append {M : LTS S L} {a b c : S} {l₁ l₂ : List L} (h₁ : M.Run a l₁ b)
    (h₂ : M.Run b l₂ c) : M.Run a (l₁ ++ l₂) c := by
  induction h₁ with
  | nil => exact h₂
  | cons hs _ ih => exact .cons hs (ih h₂)

theorem Reachable.next {M : LTS S L} {s s' : S} {l : L} (h : M.Reachable s) (hs : M.step s l s') :
    M.Reachable s' := by
  obtain ⟨s₀, ls, h₀, hr⟩ := h
  exact ⟨s₀, ls ++ [l], h₀, hr.append (.cons hs (.nil s'))⟩

/-- The runs of `M` in which every step meets `G` where it is taken. -/
def guard (M : LTS S L) (G : S → L → Prop) : LTS S L where
  init := M.init
  step s l s' := G s l ∧ M.step s l s'

theorem guard_run {M : LTS S L} {G : S → L → Prop} {s s' : S} {ls : List L}
    (h : (M.guard G).Run s ls s') : M.Run s ls s' := by
  induction h with
  | nil s => exact .nil s
  | cons hs _ ih => exact .cons hs.2 ih

/-- A run whose labels meet the condition wherever they are taken. -/
theorem Run.guard {M : LTS S L} {G : S → L → Prop} {s s' : S} {ls : List L} (h : M.Run s ls s')
    (hg : ∀ l ∈ ls, ∀ t, G t l) : (M.guard G).Run s ls s' := by
  induction h with
  | nil s => exact .nil s
  | cons hs _ ih =>
    exact .cons ⟨hg _ List.mem_cons_self _, hs⟩ (ih fun l hl => hg l (List.mem_cons_of_mem _ hl))

/-- The state a partial step function reaches along a list of labels. -/
def exec (f : S → L → Option S) : S → List L → Option S
  | s, [] => some s
  | s, l :: ls => (f s l).bind fun s' => exec f s' ls

theorem run_of_exec {I : S → Prop} {f : S → L → Option S} :
    ∀ {ls : List L} {s s' : S}, exec f s ls = some s' → (ofFn I f).Run s ls s'
  | [], s, s', h => by
    simp only [exec, Option.some.injEq] at h
    subst h; exact .nil s
  | l :: ls, s, s', h => by
    simp only [exec, Option.bind_eq_some_iff] at h
    obtain ⟨s₁, h₁, h₂⟩ := h
    exact .cons h₁ (run_of_exec h₂)

/-- A concrete run of a partial step function ends in a state as computed. -/
theorem exists_run_of_exec {I : S → Prop} {f : S → L → Option S} {s : S} (ls : List L)
    (P : S → Bool) (h : (exec f s ls).any P = true) :
    ∃ s', (ofFn I f).Run s ls s' ∧ P s' = true := by
  rw [Option.any_eq_true_iff_get] at h
  obtain ⟨hs, hp⟩ := h
  exact ⟨_, run_of_exec (Option.some_get hs).symm, hp⟩

theorem reachable_of_exec {I : S → Prop} {f : S → L → Option S} {s : S}
    (hi : I s) (ls : List L) (P : S → Bool) (h : (exec f s ls).any P = true) :
    ∃ s', (ofFn I f).Reachable s' ∧ P s' = true := by
  obtain ⟨s', hr, hp⟩ := exists_run_of_exec (I := I) ls P h
  exact ⟨s', ⟨s, ls, hi, hr⟩, hp⟩

/-- The guarded partial step function. -/
def guardFn (f : S → L → Option S) (G : S → L → Prop) [∀ s l, Decidable (G s l)] (s : S) (l : L) :
    Option S :=
  if G s l then f s l else none

theorem guard_ofFn {I : S → Prop} {f : S → L → Option S} {G : S → L → Prop}
    [∀ s l, Decidable (G s l)] : (ofFn I f).guard G = ofFn I (guardFn f G) := by
  unfold guard ofFn guardFn
  simp only [LTS.mk.injEq, true_and]
  funext s l s'
  exact propext Option.ite_none_right_eq_some.symm

theorem guard_reachable_of_exec {I : S → Prop} {f : S → L → Option S} {G : S → L → Prop}
    [∀ s l, Decidable (G s l)] {s : S} (hi : I s) (ls : List L) (P : S → Bool)
    (h : (exec (guardFn f G) s ls).any P = true) :
    ∃ s', ((ofFn I f).guard G).Reachable s' ∧ P s' = true := by
  rw [guard_ofFn]
  exact reachable_of_exec hi ls P h

end LTS

end MailserverUi
