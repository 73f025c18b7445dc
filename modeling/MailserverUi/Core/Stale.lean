import MailserverUi.Core.Transaction

/-!
# Checks that go stale

A session reads, decides, and writes some commands later; in between, another
session may commit what makes the decision wrong. `Marked` is `Shared` with a
`Watch` for each session: whether it has begun its check, whether another session
has committed a harmful command since then, and whether its own open transaction
holds one. `Fresh` is the condition on the order of the turns: a command that
rests on the check is not executed by a session whose check is stale.

Results:
* `Prog.Checks`: where only mild things happen to the committed store between the
  commands of a session, each command that rests on the check finds what it needs.
  `checks_bind` and `checks_of_issues` derive it.
* `meets_of_fresh`: where every turn is fresh, every command finds what it needs.
-/
namespace MailserverUi

variable {C : Type} {R : C → Type} {ι ε α β σ : Type}

/-! ## What is watched -/

/-- The commands that begin the check of a session, those that rest on it, and
those that make the checks of the other sessions stale once they are committed. -/
structure Roles (ι C : Type) where
  begins : ι → C → Bool
  rests : C → Bool
  harms : C → Bool

structure Watch where
  begun : Bool := false
  stale : Bool := false
  /-- the open transaction holds a harmful command -/
  wrote : Bool := false
  deriving DecidableEq, Repr

structure Marked (ι C : Type) (R : C → Type) (ε α σ : Type) where
  shared : Shared ι C R ε α σ
  mark : ι → Watch

namespace Marked

section
variable [DecidableEq ι] (M : Machine C R σ) (kind : C → Kind) (roles : Roles ι C)

/-- The marks after session `i` has executed `c`. -/
def marked (m : ι → Watch) (i : ι) (c : C) (j : ι) : Watch :=
  if j = i then
    { m i with begun := (m i).begun || roles.begins i c
               wrote := decide (kind c ≠ .commit) && ((m i).wrote || roles.harms c) }
  else { m j with stale := (m j).stale || (m j).begun && (m i).wrote && decide (kind c = .commit) }

def after (s : Marked ι C R ε α σ) : Turn ι ε → ι → Watch
  | .exec i =>
    match s.shared.prog i with
    | .call c _ => marked kind roles s.mark i c
    | _ => s.mark
  | .fail _ _ => s.mark

/-- A turn of the sessions. The marks stand in no one's way. -/
def step (s : Marked ι C R ε α σ) (t : Turn ι ε) : Option (Marked ι C R ε α σ) :=
  (s.shared.step M kind t).map fun s' => ⟨s', s.after kind roles t⟩

/-- Nothing has been executed yet. -/
def unmarked (s : Shared ι C R ε α σ) : Marked ι C R ε α σ := ⟨s, fun _ => {}⟩

def Begins (init : Shared ι C R ε α σ → Prop) (s : Marked ι C R ε α σ) : Prop :=
  ∃ s₀, init s₀ ∧ s = unmarked s₀

def lts (init : Shared ι C R ε α σ → Prop) : LTS (Marked ι C R ε α σ) (Turn ι ε) :=
  LTS.ofFn (Begins init) (step M kind roles)

/-- A command that rests on a check is executed by a session whose check is not
stale. -/
def Fresh (s : Marked ι C R ε α σ) : Turn ι ε → Prop
  | .exec i =>
    match s.shared.prog i with
    | .call c _ => roles.rests c = true → (s.mark i).stale = false
    | _ => True
  | .fail _ _ => True

instance (s : Marked ι C R ε α σ) (t : Turn ι ε) : Decidable (s.Fresh roles t) :=
  match t with
  | .exec i =>
    match h : s.shared.prog i with
    | .call c _ => decidable_of_iff (roles.rests c = true → (s.mark i).stale = false)
        (by simp only [Fresh, h])
    | .pure _ | .raise _ => isTrue (by simp only [Fresh, h])
  | .fail _ _ => isTrue trivial

variable {M kind roles}

omit [DecidableEq ι] in
theorem fresh_of {s : Marked ι C R ε α σ} {i : ι} {c : C} {k : R c → Prog C R ε α}
    (hp : s.shared.prog i = .call c k) :
    s.Fresh roles (.exec i) ↔ (roles.rests c = true → (s.mark i).stale = false) := by
  simp only [Fresh, hp]

theorem after_of {s : Marked ι C R ε α σ} {i : ι} {c : C} {k : R c → Prog C R ε α}
    (hp : s.shared.prog i = .call c k) :
    s.after kind roles (.exec i) = marked kind roles s.mark i c := by
  simp only [after, hp]

end

end Marked

/-! ## What a session finds -/

section
variable (M : Machine C R σ) (kind : C → Kind) (I : σ → Prop) (mild : σ → σ → Prop)
  (G : C → σ → Prop) (begins rests : C → Bool)

/-- What the session sees right after a command. -/
def storedBy (c : C) (v : σ) : σ :=
  match kind c with
  | .write => (M.exec c v).2
  | _ => v

/-- The store that the session saw last, once it has begun its check. -/
def lastSeen (o : Option σ) (c : C) (v : σ) : Option σ :=
  if o.isSome || begins c then some (storedBy M kind c v) else none

/-- Each command that rests on the check finds what it needs, where the committed
store meets `I` whenever the session looks, and since its last look changed in a
mild way only. At the end `Q` holds of what is returned, of the copy and of the
store seen last. -/
def Prog.Checks (Q : α → Option σ → Option σ → Prop) :
    Prog C R ε α → Option σ → Option σ → Prop
  | .pure a, w, o => Q a w o
  | .raise _, _, _ => True
  | .call c k, w, o => ∀ v, Sees I w v → (∀ u, o = some u → mild u v) →
      (rests c = true → G c v) ∧
      (k (M.exec c v).1).Checks Q (copyAfter M kind w c v) (lastSeen M kind begins o c v)

variable {M kind I mild G begins rests}

theorem Prog.checks_bind {p : Prog C R ε α} {f : α → Prog C R ε β}
    {Q : β → Option σ → Option σ → Prop} {w o : Option σ}
    (h : p.Checks M kind I mild G begins rests
      (fun a w o => (f a).Checks M kind I mild G begins rests Q w o) w o) :
    (p >>= f).Checks M kind I mild G begins rests Q w o := by
  induction p generalizing w o with
  | pure a => exact h
  | raise e => trivial
  | call c k ih => exact fun v hv hm => ⟨(h v hv hm).1, ih _ (h v hv hm).2⟩

theorem Prog.checks_mono {p : Prog C R ε α} {Q Q' : α → Option σ → Option σ → Prop}
    {w o : Option σ} (h : p.Checks M kind I mild G begins rests Q w o)
    (hQ : ∀ a w o, Q a w o → Q' a w o) : p.Checks M kind I mild G begins rests Q' w o := by
  induction p generalizing w o with
  | pure a => exact hQ a w o h
  | raise e => trivial
  | call c k ih => exact fun v hv hm => ⟨(h v hv hm).1, ih _ (h v hv hm).2⟩

theorem Prog.checks_raiseIf_bind {b : Prop} [Decidable b] {e : ε} {f : Unit → Prog C R ε β}
    {Q : β → Option σ → Option σ → Prop} {w o : Option σ}
    (h : ¬ b → (f ()).Checks M kind I mild G begins rests Q w o) :
    (raiseIf b e >>= f).Checks M kind I mild G begins rests Q w o := by
  unfold raiseIf
  split
  · trivial
  · exact h ‹_›

theorem Prog.checks_ofOption_bind {e : ε} {x : Option α} {f : α → Prog C R ε β}
    {Q : β → Option σ → Option σ → Prop} {w o : Option σ}
    (h : ∀ a, x = some a → (f a).Checks M kind I mild G begins rests Q w o) :
    (ofOption e x >>= f).Checks M kind I mild G begins rests Q w o := by
  cases x with
  | none => trivial
  | some a => exact h a rfl

/-- Nothing in the program rests on a check. -/
theorem Prog.checks_of_free {p : Prog C R ε α} (h : p.Issues fun c => rests c = false)
    (w o : Option σ) : p.Checks M kind I mild G begins rests (fun _ _ _ => True) w o := by
  induction p generalizing w o with
  | pure a => trivial
  | raise e => trivial
  | call c k ih =>
    refine fun v _ _ => ⟨fun hr => ?_, ih _ (h.2 _) _ _⟩
    rw [h.1] at hr
    cases hr

theorem SoundCopy.copyAfter {w : Option σ} (hw : SoundCopy I w) {c : C} {v : σ}
    (hc : I (M.exec c v).2) : SoundCopy I (copyAfter M kind w c v) := by
  unfold MailserverUi.copyAfter
  split
  · exact hw
  · intro x hx
    cases hx
    exact hc
  · exact fun x hx => by cases hx

/-- A part of a session that keeps `I`, rests on no check, and keeps what is known
of the store seen last. -/
theorem Prog.checks_of_issues {P : C → Prop} {K : Option σ → Prop} {p : Prog C R ε α}
    (h : p.Issues P) (hP : ∀ c v, P c → rests c = false ∧ (I v → I (M.exec c v).2))
    (hK : ∀ o c v, P c → K o → (∀ u, o = some u → mild u v) →
      K (lastSeen M kind begins o c v))
    {w o : Option σ} (hw : SoundCopy I w) (ho : K o) :
    p.Checks M kind I mild G begins rests (fun _ w o => SoundCopy I w ∧ K o) w o := by
  induction p generalizing w o with
  | pure a => exact ⟨hw, ho⟩
  | raise e => trivial
  | call c k ih =>
    intro v hv hm
    obtain ⟨hr, hI⟩ := hP c v h.1
    refine ⟨fun h => ?_, ih _ (h.2 _) (hw.copyAfter (hI (hw.of_sees hv))) (hK o c v h.1 ho hm)⟩
    rw [hr] at h
    cases h

/-- The store seen last meets `K`. -/
def Known (K : σ → Prop) (o : Option σ) : Prop := ∃ u, o = some u ∧ K u

theorem known_lastSeen {K : σ → Prop} {o : Option σ} {c : C} {v : σ}
    (hb : o.isSome = true ∨ begins c = true) (hK : K (storedBy M kind c v)) :
    Known K (lastSeen M kind begins o c v) := by
  refine ⟨_, if_pos ?_, hK⟩
  rw [Bool.or_eq_true]
  exact hb

theorem Known.isSome {K : σ → Prop} {o : Option σ} (h : Known K o) : o.isSome = true := by
  obtain ⟨u, rfl, -⟩ := h
  rfl

theorem Known.mono {K K' : σ → Prop} {o : Option σ} (h : Known K o) (hK : ∀ u, K u → K' u) :
    Known K' o := by
  obtain ⟨u, hu, hk⟩ := h
  exact ⟨u, hu, hK u hk⟩

/-- What is known of a store still holds of one that it became in a mild way. -/
theorem Known.now {K : σ → Prop} {o : Option σ} (h : Known K o) {v : σ}
    (hm : ∀ u, o = some u → mild u v) (hK : ∀ u v, K u → mild u v → K v) : K v := by
  obtain ⟨u, hu, hk⟩ := h
  exact hK u v hk (hm u hu)

end

/-! ## Runs -/

namespace Marked

section
variable [DecidableEq ι] {M : Machine C R σ} {kind : C → Kind} {roles : Roles ι C}
  {I : σ → Prop} {mild : σ → σ → Prop} {G A : C → σ → Prop} {P : C → Prop}

/-- What the commands and the changes that are called mild must be. -/
structure Setting (M : Machine C R σ) (roles : Roles ι C) (mild : σ → σ → Prop)
    (G : C → σ → Prop) (P : C → Prop) : Prop where
  refl : ∀ v, mild v v
  trans : ∀ {u v w}, mild u v → mild v w → mild u w
  mild_exec : ∀ c v, P c → roles.harms c = false → mild v (M.exec c v).2
  needs : ∀ c v, roles.rests c = false → G c v

/-- The invariant of the sessions, with what they know while their checks are not
stale. -/
structure Attentive (M : Machine C R σ) (kind : C → Kind) (roles : Roles ι C) (I : σ → Prop)
    (mild : σ → σ → Prop) (G A : C → σ → Prop) (P : C → Prop) (s : Marked ι C R ε α σ) :
    Prop where
  kept : Shared.Kept M kind I G A s.shared
  issues : ∀ i, (s.shared.prog i).Issues P
  copy : ∀ i x, (s.shared.tx i).working = some x → (s.mark i).wrote = false →
    mild s.shared.committed x
  checks : ∀ i, (s.shared.prog i).isOver = false → (s.mark i).stale = false →
    ∃ o, o.isSome = (s.mark i).begun ∧ (∀ u, o = some u → mild u (s.shared.tx i).view) ∧
      (s.shared.prog i).Checks M kind I mild G (roles.begins i) roles.rests
        (fun _ _ _ => True) (s.shared.tx i).working o

/-- All sessions at their start. -/
theorem attentive_start {v : σ} {prog : ι → Prog C R ε α} (hv : I v)
    (hk : ∀ i, (prog i).Keeps M kind I G A) (hi : ∀ i, (prog i).Issues P)
    (hc : ∀ i, (prog i).Checks M kind I mild G (roles.begins i) roles.rests
      (fun _ _ _ => True) none none) :
    Attentive M kind roles I mild G A P (unmarked ⟨v, none, prog⟩) where
  kept := Shared.kept_start hv hk
  issues := hi
  copy _ _ hx := by cases hx
  checks i _ _ := ⟨none, rfl, fun u hu => (by cases hu), hc i⟩

variable {s : Marked ι C R ε α σ}

/-- The command of a fresh turn finds what it needs. -/
theorem Attentive.meets (hset : Setting M roles mild G P)
    (h : Attentive M kind roles I mild G A P s) {t : Turn ι ε} (hf : s.Fresh roles t) :
    s.shared.Meets G t := by
  cases t with
  | fail i e => trivial
  | exec i =>
    cases hp : s.shared.prog i with
    | pure a => simp only [Shared.Meets, hp]
    | raise e => simp only [Shared.Meets, hp]
    | call c k =>
      refine (Shared.meets_of hp).mpr ?_
      cases hr : roles.rests c with
      | false => exact hset.needs c _ hr
      | true =>
        have hover : (s.shared.prog i).isOver = false := by rw [hp]; rfl
        obtain ⟨o, -, hm, hc⟩ := h.checks i hover ((fresh_of hp).mp hf hr)
        rw [hp] at hc
        exact (hc _ (Shared.sees_view h.kept.committed i) hm).1 hr

/-- What another session sees after a turn. -/
theorem tx_goOn_other {s : Shared ι C R ε α σ} {i j : ι} (hj : j ≠ i) {p : Prog C R ε α} {t : Tx σ}
    (ht : ∀ x, t.working = some x → ¬ s.Waits i) :
    (s.goOn i p t).tx j = ⟨t.committed, (s.tx j).working⟩ := by
  have hw := Shared.working_goOn_other (s := s) hj (p := p) fun x hx =>
    Shared.working_other hj (ht x hx)
  exact congrArg (Tx.mk t.committed) hw

/-- A turn that commits nothing leaves the other sessions as they were. -/
theorem Attentive.checks_other (h : Attentive M kind roles I mild G A P s) {i j : ι} (hj : j ≠ i)
    {p : Prog C R ε α} {t : Tx σ} (ht : ∀ x, t.working = some x → ¬ s.shared.Waits i)
    (hstale : (s.mark j).stale = false) (hover : (s.shared.prog j).isOver = false)
    (hm : (s.mark j).begun = true → (s.shared.tx j).working = none →
      mild s.shared.committed t.committed) (hset : Setting M roles mild G P) :
    ∃ o, o.isSome = (s.mark j).begun ∧
      (∀ u, o = some u → mild u ((s.shared.goOn i p t).tx j).view) ∧
      (s.shared.prog j).Checks M kind I mild G (roles.begins j) roles.rests
        (fun _ _ _ => True) ((s.shared.goOn i p t).tx j).working o := by
  obtain ⟨o, ho, hmild, hc⟩ := h.checks j hover hstale
  rw [tx_goOn_other hj ht]
  refine ⟨o, ho, fun u hu => ?_, hc⟩
  have hu' := hmild u hu
  unfold Tx.view at hu' ⊢
  dsimp only
  cases hw : (s.shared.tx j).working with
  | some x =>
    rw [hw] at hu'
    exact hu'
  | none =>
    rw [hw] at hu'
    refine hset.trans hu' (hm ?_ hw)
    rw [← ho, hu]
    rfl

/-- The copy that a session has after a command of its own. -/
theorem Attentive.copy_exec (hset : Setting M roles mild G P)
    (h : Attentive M kind roles I mild G A P s) {i : ι} {c : C} (hc : P c)
    (hw : (marked kind roles s.mark i c i).wrote = false) {x : σ}
    (hx : ((M.inTx kind).exec c (s.shared.tx i)).2.working = some x) :
    mild ((M.inTx kind).exec c (s.shared.tx i)).2.committed x := by
  have hview (hw : (s.mark i).wrote = false) : mild s.shared.committed (s.shared.tx i).view := by
    unfold Tx.view
    cases hworking : (s.shared.tx i).working with
    | none => exact hset.refl _
    | some y => exact h.copy i y hworking hw
  rw [marked, if_pos rfl] at hw
  cases hk : kind c with
  | commit =>
    rw [Machine.inTx_commit hk] at hx
    cases hx
  | read =>
    rw [Machine.inTx_read hk] at hx ⊢
    rw [hk] at hw
    exact h.copy i x hx (by simp_all)
  | write =>
    rw [Machine.inTx_write hk] at hx ⊢
    cases hx
    rw [hk] at hw
    obtain ⟨hwrote, hharm⟩ : (s.mark i).wrote = false ∧ roles.harms c = false := by simp_all
    exact hset.trans (hview hwrote) (hset.mild_exec c _ hc hharm)

/-- What a session sees right after a command of its own. -/
theorem view_exec (c : C) (t : Tx σ) :
    ((M.inTx kind).exec c t).2.view = storedBy M kind c t.view ∧
      ((M.inTx kind).exec c t).2.working = copyAfter M kind t.working c t.view := by
  unfold storedBy copyAfter
  cases hk : kind c with
  | commit =>
    rw [Machine.inTx_commit hk]
    exact ⟨rfl, rfl⟩
  | read =>
    rw [Machine.inTx_read hk]
    exact ⟨rfl, rfl⟩
  | write =>
    rw [Machine.inTx_write hk]
    exact ⟨rfl, rfl⟩

/-- A session that goes on after a command of its own. -/
theorem Attentive.checks_own (hset : Setting M roles mild G P)
    (h : Attentive M kind roles I mild G A P s) {i : ι} {c : C} {k : R c → Prog C R ε α}
    (hp : s.shared.prog i = .call c k) (hstale : (s.mark i).stale = false) :
    ∃ o, o.isSome = ((s.mark i).begun || roles.begins i c) ∧
      (∀ u, o = some u → mild u ((M.inTx kind).exec c (s.shared.tx i)).2.view) ∧
      (k (M.exec c (s.shared.tx i).view).1).Checks M kind I mild G (roles.begins i) roles.rests
        (fun _ _ _ => True) ((M.inTx kind).exec c (s.shared.tx i)).2.working o := by
  obtain ⟨o, ho, hm, hc⟩ := h.checks i (by rw [hp]; rfl) hstale
  rw [hp] at hc
  obtain ⟨hview, hworking⟩ : ((M.inTx kind).exec c (s.shared.tx i)).2.view =
      storedBy M kind c (s.shared.tx i).view ∧ ((M.inTx kind).exec c (s.shared.tx i)).2.working =
        copyAfter M kind (s.shared.tx i).working c (s.shared.tx i).view := view_exec c _
  refine ⟨_, ?_, fun u hu => ?_, hworking ▸ (hc _ (Shared.sees_view h.kept.committed i) hm).2⟩
  · unfold lastSeen
    rw [← ho]
    split <;> simp_all
  · unfold lastSeen at hu
    split at hu
    · cases hu
      rw [hview]
      exact hset.refl _
    · cases hu

/-- Session `i` goes on, and the marks of the others change at most from fresh to
stale, and must where the committed store does not change in a mild way. -/
theorem Attentive.goOn (hset : Setting M roles mild G P)
    (h : Attentive M kind roles I mild G A P s) {i : ι} {p : Prog C R ε α} {t : Tx σ} {m : ι → Watch}
    (hkept : Shared.Kept M kind I G A (s.shared.goOn i p t)) (hp : p.Issues P)
    (ht : ∀ x, t.working = some x → ¬ s.shared.Waits i)
    (hcopy : ∀ x, t.working = some x → (m i).wrote = false → mild t.committed x)
    (hown : p.isOver = false → (m i).stale = false → ∃ o, o.isSome = (m i).begun ∧
      (∀ u, o = some u → mild u t.view) ∧
      p.Checks M kind I mild G (roles.begins i) roles.rests (fun _ _ _ => True) t.working o)
    (hmark : ∀ j, j ≠ i → (m j).wrote = (s.mark j).wrote ∧ (m j).begun = (s.mark j).begun ∧
      ((m j).stale = false → (s.mark j).stale = false ∧ ((s.mark j).begun = true →
        (s.shared.tx j).working = none → mild s.shared.committed t.committed)))
    (hcommit : ∀ j x, j ≠ i → (s.shared.tx j).working = some x →
      t.committed = s.shared.committed) :
    Attentive M kind roles I mild G A P ⟨s.shared.goOn i p t, m⟩ := by
  have hself : (s.shared.goOn i p t).prog i = p := Function.update_self ..
  have hother {j : ι} (hj : j ≠ i) : (s.shared.goOn i p t).prog j = s.shared.prog j :=
    Function.update_of_ne hj ..
  refine ⟨hkept, fun j => ?_, fun j x hx hw => ?_, fun j hover hstale => ?_⟩
  · show ((s.shared.goOn i p t).prog j).Issues P
    by_cases hj : j = i
    · rw [hj, hself]
      exact hp
    · rw [hother hj]
      exact h.issues j
  · show mild t.committed x
    by_cases hj : j = i
    · subst hj
      cases hover : p.isOver with
      | true =>
        rw [Shared.tx_goOn_over hover] at hx
        cases hx
      | false =>
        have htx : (s.shared.goOn j p t).tx j = t := Shared.tx_goOn s.shared j hover t
        exact hcopy x (htx ▸ hx) hw
    · have hx : (s.shared.tx j).working = some x := by
        rw [tx_goOn_other hj ht] at hx
        exact hx
      rw [hcommit j x hj hx]
      exact h.copy j x hx ((hmark j hj).1 ▸ hw)
  · by_cases hj : j = i
    · subst hj
      have hover : p.isOver = false := hself ▸ hover
      have htx : (s.shared.goOn j p t).tx j = t := Shared.tx_goOn s.shared j hover t
      show ∃ o, _ ∧ (∀ u, _ → mild u ((s.shared.goOn j p t).tx j).view) ∧
        ((s.shared.goOn j p t).prog j).Checks M kind I mild G (roles.begins j) roles.rests
          (fun _ _ _ => True) ((s.shared.goOn j p t).tx j).working _
      rw [htx, hself]
      exact hown hover hstale
    · have hover : (s.shared.prog j).isOver = false := hother hj ▸ hover
      obtain ⟨-, hbegun, hst⟩ := hmark j hj
      obtain ⟨hstale, hmild⟩ := hst hstale
      show ∃ o, o.isSome = (m j).begun ∧ _ ∧
        ((s.shared.goOn i p t).prog j).Checks M kind I mild G (roles.begins j) roles.rests
          (fun _ _ _ => True) ((s.shared.goOn i p t).tx j).working o
      rw [hbegun, hother hj]
      exact h.checks_other hj ht hstale hover hmild hset

/-- One turn, which leaves a committed store that is kept. -/
theorem Attentive.next (hset : Setting M roles mild G P)
    (h : Attentive M kind roles I mild G A P s) {t : Turn ι ε} {s' : Marked ι C R ε α σ}
    (hs : s.step M kind roles t = some s') (hkept : Shared.Kept M kind I G A s'.shared) :
    Attentive M kind roles I mild G A P s' := by
  obtain ⟨s₁, hs₁, rfl⟩ := Option.map_eq_some_iff.mp hs
  cases t with
  | fail i e =>
    obtain rfl := Shared.step_fail hs₁
    exact h.goOn hset hkept trivial (fun x hx => by cases hx) (fun x hx => by cases hx)
      (fun hover => by cases hover)
      (fun j _ => ⟨rfl, rfl, fun hstale => ⟨hstale, fun _ _ => hset.refl _⟩⟩) fun _ _ _ _ => rfl
  | exec i =>
    obtain ⟨c, k, hp, hw, rfl⟩ := Shared.step_exec hs₁
    have hissues := h.issues i
    rw [hp] at hissues
    have hmarks : s.after kind roles (.exec i : Turn ι ε) = marked kind roles s.mark i c :=
      after_of hp
    rw [hmarks]
    have hcommitted : ((M.inTx kind).exec c (s.shared.tx i)).2.committed = s.shared.committed ∨
        kind c = .commit ∧ (s.shared.tx i).working =
          some ((M.inTx kind).exec c (s.shared.tx i)).2.committed :=
      Machine.inTx_committed M kind c _
    refine h.goOn hset hkept (hissues.2 _) (fun x hx => Shared.not_waits_exec hw hx)
      (fun x hx hwrote => ?_) (fun _ hstale => ?_) (fun j hj => ?_) fun j x hj hx => ?_
    · exact h.copy_exec hset hissues.1 hwrote hx
    · rw [show marked kind roles s.mark i c i = _ from if_pos rfl] at hstale ⊢
      exact h.checks_own hset hp hstale
    · rw [show marked kind roles s.mark i c j = _ from if_neg hj]
      refine ⟨rfl, rfl, fun hstale => ?_⟩
      obtain ⟨hstale, hharm⟩ := Bool.or_eq_false_iff.mp hstale
      refine ⟨hstale, fun hbegun _ => ?_⟩
      rcases hcommitted with e | ⟨hk, hcopy⟩
      · rw [e]
        exact hset.refl _
      · -- what session `i` commits is mild, as none of its commands has done harm
        refine h.copy i _ hcopy ?_
        rw [hbegun, hk] at hharm
        simpa using hharm
    · rcases hcommitted with e | ⟨-, hy⟩
      · exact e
      · have hnone := Shared.working_other hj (Shared.not_waits_of_working hy)
        rw [hx] at hnone
        cases hnone

/-- A run whose turns are fresh is one whose commands find what they need. -/
theorem meets_of_fresh (hset : Setting M roles mild G P) {init : Shared ι C R ε α σ → Prop}
    (hinit : ∀ s, init s → Attentive M kind roles I mild G A P (unmarked s))
    {s : Marked ι C R ε α σ} (h : ((lts M kind roles init).guard (Fresh roles)).Reachable s) :
    ((Shared.lts M kind init).guard (Shared.Meets G)).Reachable s.shared := by
  have hkept : ((Shared.lts M kind init).guard (Shared.Meets G)).Inductive
      (Shared.Kept M kind I G A) := Shared.kept_inductive fun s hs => (hinit s hs).kept
  have hind : ((lts M kind roles init).guard (Fresh roles)).Inductive fun s =>
      Attentive M kind roles I mild G A P s ∧
        ((Shared.lts M kind init).guard (Shared.Meets G)).Reachable s.shared := by
    refine ⟨?_, ?_⟩
    · rintro _ ⟨s, hs, rfl⟩
      exact ⟨hinit s hs, s, [], hs, .nil s⟩
    · rintro s t s' ⟨ha, hr⟩ ⟨hf, hs⟩
      obtain ⟨s₁, hs₁, e⟩ := Option.map_eq_some_iff.mp hs
      have hr' := hr.next ⟨ha.meets hset hf, hs₁⟩
      subst e
      exact ⟨ha.next hset hs (hkept.reachable _ hr'), hr'⟩
  exact (hind.reachable s h).2

end

end Marked

end MailserverUi
