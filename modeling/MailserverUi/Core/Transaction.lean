import Mathlib
import MailserverUi.Core.LTS
import MailserverUi.Core.Prog

/-!
# Transactions, and sessions that share a store

A command reads, writes or commits. The writes of a session go to a copy of the
store, which its commit makes the committed store and which is lost when it ends
without (`Tx`, `Machine.inTx`).

`Shared` is any number of sessions on one store, one atomic command of one
session at a time. The first write of a transaction takes the one write lock,
which is held until the commit or the end; the writes of other sessions wait,
their reads see the committed store. A session may fail anywhere.

* `run_alone`: a session that nobody interrupts runs as its program does.
* `Prog.Guarantees`: what a session commits, whatever other sessions committed
  before. `Prog.Keeps` is the part of a session that starts and ends sound, with
  `Prog.Keeps.bind` and `Prog.Issues.keeps` to derive it.
* `kept_inductive`: an invariant that all sessions guarantee, where their commands
  meet a condition on the store they find, holds of the committed store.
-/
namespace MailserverUi

inductive Kind where
  | read
  | write
  | commit
  deriving DecidableEq, Repr

variable {C : Type} {R : C → Type} {ι ε α σ : Type}

/-! ## One session -/

/-- The committed store, and the copy of a session that has written. -/
structure Tx (σ : Type) where
  committed : σ
  working : Option σ

/-- What the session sees. -/
def Tx.view (t : Tx σ) : σ := t.working.getD t.committed

/-- The commands of one session. -/
def Machine.inTx (M : Machine C R σ) (kind : C → Kind) : Machine C R (Tx σ) where
  exec c t :=
    ((M.exec c t.view).1,
      match kind c with
      | .read => t
      | .write => ⟨t.committed, some (M.exec c t.view).2⟩
      | .commit => ⟨t.view, none⟩)

theorem Machine.inTx_read {M : Machine C R σ} {kind : C → Kind} {c : C} {t : Tx σ}
    (h : kind c = .read) : ((M.inTx kind).exec c t).2 = t := by
  simp only [inTx, h]

theorem Machine.inTx_write {M : Machine C R σ} {kind : C → Kind} {c : C} {t : Tx σ}
    (h : kind c = .write) :
    ((M.inTx kind).exec c t).2 = ⟨t.committed, some (M.exec c t.view).2⟩ := by
  simp only [inTx, h]

theorem Machine.inTx_commit {M : Machine C R σ} {kind : C → Kind} {c : C} {t : Tx σ}
    (h : kind c = .commit) : ((M.inTx kind).exec c t).2 = ⟨t.view, none⟩ := by
  simp only [inTx, h]

/-- What is committed changes only where the session commits its copy. -/
theorem Machine.inTx_committed (M : Machine C R σ) (kind : C → Kind) (c : C) (t : Tx σ) :
    ((M.inTx kind).exec c t).2.committed = t.committed ∨
      kind c = .commit ∧ t.working = some ((M.inTx kind).exec c t).2.committed := by
  cases hk : kind c with
  | read => exact .inl (by rw [inTx_read hk])
  | write => exact .inl (by rw [inTx_write hk])
  | commit =>
    rw [inTx_commit hk]
    cases hw : t.working with
    | none => exact .inl (by simp only [Tx.view, hw]; rfl)
    | some x => exact .inr ⟨rfl, by simp only [Tx.view, hw]; rfl⟩

/-! ## What a session guarantees -/

/-- The store that a session may find, given the copy that it has written. -/
def Sees (I : σ → Prop) (w : Option σ) (v : σ) : Prop :=
  match w with
  | none => I v
  | some x => v = x

section
variable (M : Machine C R σ) (kind : C → Kind) (I : σ → Prop) (G A : C → σ → Prop)

/-- The copy of a session after a command. -/
def copyAfter (w : Option σ) (c : C) (v : σ) : Option σ :=
  match kind c with
  | .read => w
  | .write => some (M.exec c v).2
  | .commit => none

/-- The session commits stores that meet `I` only, if the committed store meets
`I` whenever it looks, and each command meets `G` where it is executed. Where a
command is executed, `A` holds, and at the end `Q` of what is returned and of the
copy. -/
def Prog.Guarantees (Q : α → Option σ → Prop) : Prog C R ε α → Option σ → Prop
  | .pure a, w => Q a w
  | .raise _, _ => True
  | .call c k, w => ∀ v, Sees I w v → G c v → A c v ∧ (kind c = .commit → I v) ∧
      (k (M.exec c v).1).Guarantees Q (copyAfter M kind w c v)

variable {M kind I G A}

theorem Prog.guarantees_bind {β : Type} {p : Prog C R ε α} {f : α → Prog C R ε β}
    {Q : β → Option σ → Prop} {w : Option σ}
    (h : p.Guarantees M kind I G A (fun a w => (f a).Guarantees M kind I G A Q w) w) :
    (p >>= f).Guarantees M kind I G A Q w := by
  induction p generalizing w with
  | pure a => exact h
  | raise e => trivial
  | call c k ih =>
    intro v hv hg
    obtain ⟨ha, hc, hk⟩ := h v hv hg
    exact ⟨ha, hc, ih _ hk⟩

theorem Prog.guarantees_mono {p : Prog C R ε α} {Q Q' : α → Option σ → Prop} {w : Option σ}
    (h : p.Guarantees M kind I G A Q w) (hQ : ∀ a w, Q a w → Q' a w) :
    p.Guarantees M kind I G A Q' w := by
  induction p generalizing w with
  | pure a => exact hQ a w h
  | raise e => trivial
  | call c k ih =>
    intro v hv hg
    obtain ⟨ha, hc, hk⟩ := h v hv hg
    exact ⟨ha, hc, ih _ hk⟩

/-- The copy of a session, if it has one, meets `I`. -/
def SoundCopy (I : σ → Prop) (w : Option σ) : Prop := ∀ x, w = some x → I x

theorem SoundCopy.of_sees {w : Option σ} {v : σ} (hw : SoundCopy I w) (hv : Sees I w v) : I v := by
  cases w with
  | none => exact hv
  | some x => exact (show v = x from hv) ▸ hw x rfl

variable (M kind I G A) in
/-- A part of a session that starts and ends where the copy meets `I`. -/
def Prog.Keeps (p : Prog C R ε α) : Prop :=
  ∀ w, SoundCopy I w → p.Guarantees M kind I G A (fun _ w => SoundCopy I w) w

theorem Prog.Keeps.bind {β : Type} {p : Prog C R ε α} {f : α → Prog C R ε β}
    (hp : p.Keeps M kind I G A) (hf : ∀ a, (f a).Keeps M kind I G A) :
    (p >>= f).Keeps M kind I G A := fun w hw =>
  Prog.guarantees_bind (Prog.guarantees_mono (hp w hw) fun a w hw => hf a w hw)

/-- Commands that keep `I` wherever they are executed. -/
theorem Prog.Issues.keeps {P : C → Prop} {p : Prog C R ε α} (h : p.Issues P)
    (hP : ∀ c v, P c → I v → G c v → A c v ∧ I (M.exec c v).2) : p.Keeps M kind I G A := by
  induction p with
  | pure a => exact fun w hw => hw
  | raise e => exact fun w hw => trivial
  | call c k ih =>
    intro w hw v hv hg
    have hI := hw.of_sees hv
    obtain ⟨ha, hexec⟩ := hP c v h.1 hI hg
    refine ⟨ha, fun _ => hI, ih _ (h.2 _) _ ?_⟩
    unfold copyAfter
    split
    · exact hw
    · intro x hx
      cases hx
      exact hexec
    · exact fun x hx => by cases hx

end

/-! ## Many sessions -/

/-- `writer` is the session that holds the write lock, and its copy. -/
structure Shared (ι C : Type) (R : C → Type) (ε α σ : Type) where
  committed : σ
  writer : Option (ι × σ)
  prog : ι → Prog C R ε α

inductive Turn (ι ε : Type) where
  | exec (i : ι)
  | fail (i : ι) (e : ε)

namespace Shared

variable [DecidableEq ι]

def tx (s : Shared ι C R ε α σ) (i : ι) : Tx σ :=
  ⟨s.committed, (s.writer.filter fun w => w.1 = i).map Prod.snd⟩

/-- Another session holds the lock. -/
def Waits (s : Shared ι C R ε α σ) (i : ι) : Prop := ∃ w ∈ s.writer, w.1 ≠ i

instance (s : Shared ι C R ε α σ) (i : ι) : Decidable (s.Waits i) :=
  inferInstanceAs (Decidable (∃ w ∈ s.writer, w.1 ≠ i))

/-- Session `i` goes on as `p`. The lock is its own while it has a copy that it
may still commit. -/
def goOn (s : Shared ι C R ε α σ) (i : ι) (p : Prog C R ε α) (t : Tx σ) : Shared ι C R ε α σ where
  committed := t.committed
  writer :=
    match if p.isOver then none else t.working with
    | some w => some (i, w)
    | none => s.writer.filter fun w => w.1 ≠ i
  prog := Function.update s.prog i p

variable (M : Machine C R σ) (kind : C → Kind)

def step (s : Shared ι C R ε α σ) : Turn ι ε → Option (Shared ι C R ε α σ)
  | .exec i =>
    match s.prog i with
    | .call c k =>
      if kind c = .write ∧ s.Waits i then none
      else
        let out := (M.inTx kind).exec c (s.tx i)
        some (s.goOn i (k out.1) out.2)
    | _ => none
  | .fail i e => if (s.prog i).isOver then none else some (s.goOn i (.raise e) ⟨s.committed, none⟩)

def lts (init : Shared ι C R ε α σ → Prop) : LTS (Shared ι C R ε α σ) (Turn ι ε) :=
  LTS.ofFn init (step M kind)

variable {M kind}

theorem step_exec {s s' : Shared ι C R ε α σ} {i : ι} (h : step M kind s (.exec i) = some s') :
    ∃ c k, s.prog i = .call c k ∧ (kind c = .write → ¬ s.Waits i) ∧
      s' = s.goOn i (k ((M.inTx kind).exec c (s.tx i)).1) ((M.inTx kind).exec c (s.tx i)).2 := by
  simp only [step] at h
  split at h
  · rename_i c k hp
    by_cases hw : kind c = .write ∧ s.Waits i
    · rw [if_pos hw] at h
      cases h
    · rw [if_neg hw, Option.some.injEq] at h
      exact ⟨c, k, hp, fun hk hwait => hw ⟨hk, hwait⟩, h.symm⟩
  · cases h

theorem step_fail {s s' : Shared ι C R ε α σ} {i : ι} {e : ε}
    (h : step M kind s (.fail i e) = some s') :
    s' = s.goOn i (.raise e) ⟨s.committed, none⟩ := by
  simp only [step] at h
  by_cases ho : (s.prog i).isOver = true
  · rw [if_pos ho] at h
    cases h
  · rw [if_neg ho, Option.some.injEq] at h
    exact h.symm

/-! ### A session that nobody interrupts -/

theorem not_waits_goOn {s : Shared ι C R ε α σ} {i : ι} (h : ¬ s.Waits i) (p : Prog C R ε α)
    (t : Tx σ) : ¬ (s.goOn i p t).Waits i := by
  rintro ⟨w, hw, hne⟩
  unfold goOn at hw
  simp only at hw
  split at hw
  · cases hw
    exact hne rfl
  · obtain ⟨hw, -⟩ := Option.mem_filter_iff.mp hw
    exact h ⟨w, hw, hne⟩

theorem tx_goOn (s : Shared ι C R ε α σ) (i : ι) {p : Prog C R ε α} (hp : p.isOver = false)
    (t : Tx σ) : (s.goOn i p t).tx i = t := by
  obtain ⟨committed, working⟩ := t
  simp only [tx, goOn, hp, Bool.false_eq_true, if_false, Tx.mk.injEq, true_and]
  cases working with
  | some w => simp
  | none => simp [Option.filter_filter]

/-- A session that is over has no copy. -/
theorem tx_goOn_over {s : Shared ι C R ε α σ} {i : ι} {p : Prog C R ε α} {t : Tx σ}
    (hp : p.isOver = true) : (s.goOn i p t).tx i = ⟨t.committed, none⟩ := by
  simp only [tx, goOn, hp, if_true, Option.filter_filter]
  congr 1
  cases s.writer with
  | none => rfl
  | some w => by_cases hw : w.1 = i <;> simp [Option.filter, hw]

theorem run_alone_of {init : Shared ι C R ε α σ → Prop} (i : ι) (p : Prog C R ε α) :
    ∀ (s : Shared ι C R ε α σ) (t : Tx σ), s.prog i = p → ¬ s.Waits i →
      s.committed = t.committed → (p.isOver = false → s.tx i = t) →
      ∃ n s', (lts M kind init).Run s (List.replicate n (.exec i)) s' ∧
        (s'.prog i).isOver = true ∧ s'.committed = (p.run (M.inTx kind) t).2.committed := by
  induction p with
  | pure a => exact fun s t hp _ hc _ => ⟨0, s, .nil s, by rw [hp]; rfl, hc⟩
  | raise e => exact fun s t hp _ hc _ => ⟨0, s, .nil s, by rw [hp]; rfl, hc⟩
  | call c k ih =>
    intro s t hp hw hc ht
    have htx := ht rfl
    have hstep : step M kind s (.exec i) =
        some (s.goOn i (k ((M.inTx kind).exec c t).1) ((M.inTx kind).exec c t).2) := by
      simp only [step, hp]
      rw [if_neg fun h => hw h.2, htx]
    obtain ⟨n, s', hrun, hover, hcom⟩ := ih _ (s.goOn i _ _) ((M.inTx kind).exec c t).2
      (Function.update_self ..) (not_waits_goOn hw _ _) rfl fun hp => tx_goOn s i hp _
    exact ⟨n + 1, s', .cons hstep hrun, hover, hcom⟩

/-- Alone, a session runs as its program does. -/
theorem run_alone {init : Shared ι C R ε α σ → Prop} (s : Shared ι C R ε α σ) {i : ι}
    (hw : ¬ s.Waits i) :
    ∃ n s', (lts M kind init).Run s (List.replicate n (.exec i)) s' ∧
      (s'.prog i).isOver = true ∧
      s'.committed = ((s.prog i).run (M.inTx kind) (s.tx i)).2.committed :=
  run_alone_of i (s.prog i) s (s.tx i) rfl hw rfl fun _ => rfl

/-! ### Invariants -/

/-- The command that a turn executes meets `G` in the store it finds. -/
def Meets (G : C → σ → Prop) (s : Shared ι C R ε α σ) : Turn ι ε → Prop
  | .exec i =>
    match s.prog i with
    | .call c _ => G c (s.tx i).view
    | _ => True
  | .fail _ _ => True

instance (G : C → σ → Prop) [∀ c v, Decidable (G c v)] (s : Shared ι C R ε α σ) (t : Turn ι ε) :
    Decidable (s.Meets G t) :=
  match t with
  | .exec i =>
    match h : s.prog i with
    | .call c _ => decidable_of_iff (G c (s.tx i).view) (by simp only [Meets, h])
    | .pure _ | .raise _ => isTrue (by simp only [Meets, h])
  | .fail _ _ => isTrue trivial

theorem meets_of {G : C → σ → Prop} {s : Shared ι C R ε α σ} {i : ι} {c : C}
    {k : R c → Prog C R ε α} (hp : s.prog i = .call c k) :
    s.Meets G (.exec i) ↔ G c (s.tx i).view := by
  simp only [Meets, hp]

/-- The committed store meets `I`, and each session guarantees that it only
commits such stores. -/
structure Kept (M : Machine C R σ) (kind : C → Kind) (I : σ → Prop) (G A : C → σ → Prop)
    (s : Shared ι C R ε α σ) : Prop where
  committed : I s.committed
  progs : ∀ i, (s.prog i).Guarantees M kind I G A (fun _ _ => True) (s.tx i).working

/-- All sessions at their start. -/
theorem kept_start {I : σ → Prop} {G A : C → σ → Prop} {v : σ} {prog : ι → Prog C R ε α}
    (hv : I v) (hp : ∀ i, (prog i).Keeps M kind I G A) :
    Kept M kind I G A ⟨v, none, prog⟩ :=
  ⟨hv, fun i => Prog.guarantees_mono (hp i none fun x hx => by cases hx) fun _ _ _ => trivial⟩

theorem sees_view {I : σ → Prop} {s : Shared ι C R ε α σ} (h : I s.committed) (i : ι) :
    Sees I (s.tx i).working (s.tx i).view := by
  unfold Tx.view
  cases hw : (s.tx i).working with
  | none => exact h
  | some w => exact rfl

/-- The copies of the other sessions are not touched. -/
theorem working_goOn_other {s : Shared ι C R ε α σ} {i j : ι} (hj : j ≠ i) {p : Prog C R ε α}
    {t : Tx σ} (ht : ∀ x, t.working = some x → (s.tx j).working = none) :
    ((s.goOn i p t).tx j).working = (s.tx j).working := by
  have hkeep : (Option.filter (fun w => w.1 = j) (s.writer.filter fun w => w.1 ≠ i)) =
      s.writer.filter fun w => w.1 = j := by
    rw [Option.filter_filter]
    congr 1
    funext w
    by_cases hw : w.1 = j <;> simp [hw, hj]
  unfold goOn tx
  simp only
  split
  · rename_i x hx
    split at hx
    · cases hx
    · refine Eq.trans ?_ (ht x hx).symm
      simp [Option.filter, Ne.symm hj]
  · rw [hkeep]

/-- Nobody else holds a copy where a session writes, or has one. -/
theorem working_other {s : Shared ι C R ε α σ} {i j : ι} (hj : j ≠ i) (hw : ¬ s.Waits i) :
    (s.tx j).working = none := by
  unfold tx
  cases hs : s.writer with
  | none => rfl
  | some w =>
    have hi : w.1 = i := by
      by_contra hne
      exact hw ⟨w, hs, hne⟩
    simp [Option.filter, hi, Ne.symm hj]

theorem not_waits_of_working {s : Shared ι C R ε α σ} {i : ι} {x : σ}
    (h : (s.tx i).working = some x) : ¬ s.Waits i := by
  rintro ⟨w, hw, hne⟩
  obtain ⟨w', hw', -⟩ := Option.map_eq_some_iff.mp h
  obtain ⟨hm, he⟩ := Option.filter_eq_some_iff.mp hw'
  cases hw.symm.trans hm
  exact hne (of_decide_eq_true he)

/-- A session that holds a copy after a command of its own did not wait for it. -/
theorem not_waits_exec {s : Shared ι C R ε α σ} {i : ι} {c : C} {x : σ}
    (hw : kind c = .write → ¬ s.Waits i)
    (hx : ((M.inTx kind).exec c (s.tx i)).2.working = some x) : ¬ s.Waits i := by
  cases hk : kind c with
  | read =>
    rw [Machine.inTx_read hk] at hx
    exact not_waits_of_working hx
  | write => exact hw hk
  | commit =>
    rw [Machine.inTx_commit hk] at hx
    cases hx

theorem Kept.goOn {I : σ → Prop} {G A : C → σ → Prop} {s : Shared ι C R ε α σ}
    (h : Kept M kind I G A s) {i : ι} {p : Prog C R ε α} {t : Tx σ} (hc : I t.committed)
    (hp : p.Guarantees M kind I G A (fun _ _ => True) t.working)
    (ht : ∀ x, t.working = some x → ¬ s.Waits i) : Kept M kind I G A (s.goOn i p t) := by
  refine ⟨hc, fun j => ?_⟩
  by_cases hj : j = i
  · subst hj
    have hprog : (s.goOn j p t).prog j = p := Function.update_self ..
    rw [hprog]
    cases hover : p.isOver with
    | false =>
      rw [tx_goOn s j hover]
      exact hp
    | true =>
      cases p with
      | call c k => cases hover
      | pure a => trivial
      | raise e => trivial
  · have hprog : (s.goOn i p t).prog j = s.prog j := Function.update_of_ne hj ..
    rw [hprog, working_goOn_other hj fun x hx => working_other hj (ht x hx)]
    exact h.progs j

/-- Runs whose commands meet `G` where they are executed keep the invariant. -/
theorem kept_inductive {I : σ → Prop} {G A : C → σ → Prop} {init : Shared ι C R ε α σ → Prop}
    (hinit : ∀ s, init s → Kept M kind I G A s) :
    ((lts M kind init).guard (Meets G)).Inductive (Kept M kind I G A) where
  init := hinit
  step s t s' h hs := by
    obtain ⟨hg, hs⟩ := hs
    cases t with
    | fail i e =>
      rw [step_fail hs]
      exact h.goOn h.committed (p := .raise e) trivial fun x hx => by cases hx
    | exec i =>
      obtain ⟨c, k, hp, hw, rfl⟩ := step_exec hs
      have hprog := h.progs i
      rw [hp] at hprog
      obtain ⟨-, hcommit, hrest⟩ := hprog _ (sees_view h.committed i) ((meets_of hp).mp hg)
      cases hk : kind c with
      | read =>
        rw [Machine.inTx_read hk]
        rw [copyAfter, hk] at hrest
        exact h.goOn h.committed hrest fun x hx => not_waits_of_working hx
      | write =>
        rw [Machine.inTx_write hk]
        rw [copyAfter, hk] at hrest
        exact h.goOn h.committed hrest fun _ _ => hw hk
      | commit =>
        rw [Machine.inTx_commit hk]
        rw [copyAfter, hk] at hrest
        exact h.goOn (hcommit hk) hrest fun x hx => by cases hx

/-- In such runs the next command of a session finds what `A` says. -/
theorem Kept.meets {I : σ → Prop} {G A : C → σ → Prop} {s : Shared ι C R ε α σ}
    (h : Kept M kind I G A s) {t : Turn ι ε} (hg : s.Meets G t) : s.Meets A t := by
  cases t with
  | fail i e => trivial
  | exec i =>
    cases hp : s.prog i with
    | pure a => simp only [Meets, hp]
    | raise e => simp only [Meets, hp]
    | call c k =>
      have hprog := h.progs i
      rw [hp] at hprog
      exact (meets_of hp).mpr (hprog _ (sees_view h.committed i) ((meets_of hp).mp hg)).1

end Shared

end MailserverUi
