import MailserverUi.Core.Transaction

/-!
# Sessions that move a store upwards

`le` says which way the committed store may move. A session is `Stable` if it
commits upwards only, and ends as it should (`Q`, or `E` where it raises), provided
that the other sessions commit upwards too and that its own commands meet `G` where
they are executed.

Results:
* `Stable.mono`: others may commit in between.
* `Stable.bind`: a session goes on.
* `Stable.copy`: once a session has written, only its own copy counts.
* `Copes.stable`: a session that finds nothing left to do.
* `Copes.solo`: a session that is right when it runs alone from `b` is stable at `b`, if
  nothing is left to do where another one is faster.
* `Shared.step_stable`: stable sessions side by side.
-/
namespace MailserverUi

variable {C : Type} {R : C → Type} {ι ε α β σ : Type}

/-- Others have committed; they cannot once the session has a copy. -/
structure Tx.Evolves (le : σ → σ → Prop) (t u : Tx σ) : Prop where
  working : u.working = t.working
  committed : le t.committed u.committed
  locked : t.working ≠ none → u.committed = t.committed

section
variable (M : Machine C R σ) (kind : C → Kind) (le : σ → σ → Prop) (G : C → σ → Prop)

def Prog.Stable (Q : α → Tx σ → Prop) (E : ε → Tx σ → Prop) : Prog C R ε α → Tx σ → Prop
  | .pure a, t => Q a t
  | .raise e, t => E e t
  | .call c k, t => ∀ u, t.Evolves le u → G c u.view →
      le u.committed ((M.inTx kind).exec c u).2.committed ∧
        (k ((M.inTx kind).exec c u).1).Stable Q E ((M.inTx kind).exec c u).2

/-- What others commit does not matter to it. -/
def Closed (Q : α → Tx σ → Prop) : Prop := ∀ a t u, t.Evolves le u → Q a t → Q a u

end

variable {M : Machine C R σ} {kind : C → Kind} {le : σ → σ → Prop} {G : C → σ → Prop}

theorem Tx.Evolves.refl (hrefl : ∀ v, le v v) (t : Tx σ) : t.Evolves le t :=
  ⟨rfl, hrefl _, fun _ => rfl⟩

theorem Tx.Evolves.trans (htrans : ∀ x y z, le x y → le y z → le x z) {t u v : Tx σ}
    (h : t.Evolves le u) (h' : u.Evolves le v) : t.Evolves le v where
  working := h'.working.trans h.working
  committed := htrans _ _ _ h.committed h'.committed
  locked hw := (h'.locked (h.working ▸ hw)).trans (h.locked hw)

namespace Prog

section
variable {p : Prog C R ε α} {Q : α → Tx σ → Prop} {E : ε → Tx σ → Prop} {t u : Tx σ}

theorem Stable.mono (htrans : ∀ x y z, le x y → le y z → le x z) (hQ : Closed le Q)
    (hE : Closed le E) (h : p.Stable M kind le G Q E t) (hu : t.Evolves le u) :
    p.Stable M kind le G Q E u := by
  cases p with
  | pure a => exact hQ a t u hu h
  | raise e => exact hE e t u hu h
  | call c k => exact fun v hv => h v (hu.trans htrans hv)

theorem Stable.bind {f : α → Prog C R ε β} {Q : β → Tx σ → Prop}
    (h : p.Stable M kind le G (fun a t => (f a).Stable M kind le G Q E t) E t) :
    (p >>= f).Stable M kind le G Q E t := by
  induction p generalizing t with
  | pure a => exact h
  | raise e => exact h
  | call c k ih => exact fun u hu hg => ⟨(h u hu hg).1, ih _ (h u hu hg).2⟩

/-- A session with a copy runs as it does alone. -/
theorem Stable.copy (hrefl : ∀ v, le v v) (hread : ∀ c v, kind c = .read → (M.exec c v).2 = v)
    (hp : p.Issues fun c => kind c ≠ .commit) {a : α} {v x y : σ}
    (hr : p.run M x = (.ok a, y)) (hQ : Q a ⟨v, some y⟩) :
    p.Stable M kind le G Q E ⟨v, some x⟩ := by
  induction p generalizing x with
  | pure b =>
    cases hr
    exact hQ
  | raise e => cases hr
  | call c k ih =>
    rintro ⟨v', w⟩ ⟨hw, -, hl⟩ -
    obtain rfl : w = some x := hw
    obtain rfl : v' = v := hl (Option.some_ne_none x)
    obtain ⟨hc, hk⟩ := hp
    cases hkind : kind c with
    | read =>
      rw [Machine.inTx_read hkind]
      refine ⟨hrefl _, ih _ (hk _) ?_⟩
      have := hread c x hkind
      rwa [run, this] at hr
    | write =>
      rw [Machine.inTx_write hkind]
      exact ⟨hrefl _, ih _ (hk _) hr⟩
    | commit => exact absurd hkind hc

end

end Prog

/-! ## Programs that cope with their replies -/

/-- The program issues commands of `P` and raises errors of `Err` only, as long as
its replies are of `Rep`. -/
def Prog.Copes (P : C → Prop) (Rep : (c : C) → R c → Prop) (Err : ε → Prop) :
    Prog C R ε α → Prop
  | .pure _ => True
  | .raise e => Err e
  | .call c k => P c ∧ ∀ r, Rep c r → (k r).Copes P Rep Err

/-- Commands of `P` leave a store of `Later` as it is, and get replies of `Rep`. -/
structure Settled (M : Machine C R σ) (kind : C → Kind) (le : σ → σ → Prop)
    (G : C → σ → Prop) (P : C → Prop) (Rep : (c : C) → R c → Prop) (Later : σ → Prop) :
    Prop where
  up : ∀ v v', Later v → le v v' → Later v'
  commit : ∀ c, P c → kind c ≠ .commit
  same : ∀ c v, P c → Later v → G c v → (M.exec c v).2 = v
  reply : ∀ c v, P c → Later v → G c v → Rep c (M.exec c v).1

namespace Prog

section
variable {P : C → Prop} {Rep : (c : C) → R c → Prop} {Err : ε → Prop} {ρ : Type} {l : List ρ}

theorem Copes.issues {p : Prog C R ε α} (h : p.Copes P (fun _ _ => True) Err) : p.Issues P := by
  induction p with
  | pure a => trivial
  | raise e => trivial
  | call c k ih => exact ⟨h.1, fun r => ih r (h.2 r trivial)⟩

theorem copes_bind {p : Prog C R ε α} {f : α → Prog C R ε β} (hp : p.Copes P Rep Err)
    (hf : ∀ a, (f a).Copes P Rep Err) : (p >>= f).Copes P Rep Err := by
  induction p with
  | pure a => exact hf a
  | raise e => exact hp
  | call c k ih => exact ⟨hp.1, fun r hr => ih r (hp.2 r hr)⟩

theorem copes_foldlM {step : α → ρ → Prog C R ε α}
    (h : ∀ r ∈ l, ∀ a, (step a r).Copes P Rep Err) (a : α) :
    (l.foldlM step a).Copes P Rep Err := by
  induction l generalizing a with
  | nil => trivial
  | cons r l ih =>
    rw [List.foldlM_cons]
    exact copes_bind (h r List.mem_cons_self a) fun b =>
      ih (fun x hx => h x (List.mem_cons_of_mem r hx)) b

theorem copes_forM {g : ρ → Prog C R ε PUnit} (h : ∀ r ∈ l, (g r).Copes P Rep Err) :
    (l.forM g).Copes P Rep Err := by
  induction l with
  | nil => trivial
  | cons r l ih =>
    exact copes_bind (h r List.mem_cons_self) fun _ =>
      ih fun x hx => h x (List.mem_cons_of_mem r hx)

variable {p : Prog C R ε α} {Q : α → Tx σ → Prop} {E : ε → Tx σ → Prop} {Later : σ → Prop}

/-- Where there is nothing left to do, a session ends without a change. -/
theorem Copes.stable (hp : p.Copes P Rep Err) (hs : Settled M kind le G P Rep Later)
    (hrefl : ∀ v, le v v) (hQ : ∀ a t, t.view = t.committed → Later t.committed → Q a t)
    (hE : ∀ e t, Err e → Later t.committed → E e t) {t : Tx σ} (ht : t.view = t.committed)
    (hv : Later t.committed) : p.Stable M kind le G Q E t := by
  induction p generalizing t with
  | pure a => exact hQ a t ht hv
  | raise e => exact hE e t hp hv
  | call c k ih =>
    intro u hu hg
    have hv' := hs.up _ _ hv hu.committed
    have hu' : u.view = u.committed := by
      rw [Tx.view, hu.working]
      cases hw : t.working with
      | none => rfl
      | some x =>
        rw [hu.locked (hw ▸ Option.some_ne_none x), ← ht, Tx.view, hw]
        rfl
    have hview : Later u.view := hu' ▸ hv'
    have hk := hp.2 _ (hs.reply c _ hp.1 hview hg)
    cases hkind : kind c with
    | read =>
      rw [Machine.inTx_read hkind]
      exact ⟨hrefl _, ih _ hk hu' hv'⟩
    | write =>
      rw [Machine.inTx_write hkind]
      exact ⟨hrefl _, ih _ hk ((hs.same c _ hp.1 hview hg).trans hu') hv'⟩
    | commit => exact absurd hkind (hs.commit c hp.1)

/-- Alone from `b`, unless another session is faster. -/
theorem Copes.solo (hp : p.Copes P Rep Err) (hs : Settled M kind le G P Rep Later)
    (hrefl : ∀ v, le v v) (hread : ∀ c v, kind c = .read → (M.exec c v).2 = v)
    (hQ : ∀ a t, t.view = t.committed → Later t.committed → Q a t)
    (hE : ∀ e t, Err e → Later t.committed → E e t) {a : α} {b y : σ}
    (hb : ∀ c, P c → kind c = .read → G c b → Rep c (M.exec c b).1)
    (hle : ∀ v, le b v → v = b ∨ Later v) (hi : p.Issues fun c => kind c ≠ .commit)
    (hr : p.run M b = (.ok a, y)) (hend : Q a ⟨b, some y⟩) (hend' : y = b → Q a ⟨b, none⟩) :
    p.Stable M kind le G Q E ⟨b, none⟩ := by
  induction p with
  | pure c =>
    cases hr
    exact hend' rfl
  | raise e => cases hr
  | call c k ih =>
    rintro ⟨v, w⟩ ⟨hw, hv, -⟩ hg
    obtain rfl : w = none := hw
    rcases hle v hv with rfl | hl
    · cases hkind : kind c with
      | read =>
        rw [Machine.inTx_read hkind]
        refine ⟨hrefl _, ih _ (hp.2 _ (hb c hp.1 hkind hg)) (hi.2 _) ?_⟩
        have := hread c v hkind
        rwa [run, this] at hr
      | write =>
        rw [Machine.inTx_write hkind]
        exact ⟨hrefl _, .copy hrefl hread (hi.2 _) hr hend⟩
      | commit => exact absurd hkind hi.1
    · exact Copes.stable hp hs hrefl hQ hE rfl hl _ (.refl hrefl _) hg

end

/-- What is left of a program after a command. -/
inductive Rest : Prog C R ε α → Prog C R ε α → Prop where
  | call (c : C) (k : R c → Prog C R ε α) (r : R c) : Rest (k r) (.call c k)

theorem wellFounded_rest : WellFounded (Rest (C := C) (R := R) (ε := ε) (α := α)) := by
  refine ⟨fun p => ?_⟩
  induction p with
  | pure a => exact ⟨_, fun q hq => by cases hq⟩
  | raise e => exact ⟨_, fun q hq => by cases hq⟩
  | call c k ih =>
    refine ⟨_, fun q hq => ?_⟩
    cases hq with
    | call c k r => exact ih r

end Prog

/-! ## Sessions side by side -/

namespace Shared

variable [DecidableEq ι] {s s' : Shared ι C R ε α σ} {i j : ι} {p : Prog C R ε α} {t : Tx σ}
  {Q : α → Tx σ → Prop} {E : ε → Tx σ → Prop}

/-- What a turn of one session means to another. -/
theorem evolves_goOn {c : C} (hj : j ≠ i) (hw : kind c = .write → ¬ s.Waits i)
    (hle : le s.committed ((M.inTx kind).exec c (s.tx i)).2.committed) :
    (s.tx j).Evolves le ((s.goOn i p ((M.inTx kind).exec c (s.tx i)).2).tx j) := by
  refine ⟨working_goOn_other hj fun x hx => working_other hj (not_waits_exec hw hx), hle,
    fun hne => ?_⟩
  rcases Machine.inTx_committed M kind c (s.tx i) with e | ⟨-, hcopy⟩
  · exact e
  · -- the other session has the lock, so this one has no copy to commit
    exact absurd (working_other hj (not_waits_of_working hcopy)) hne

/-- Who holds the lock is not over. -/
def Held (s : Shared ι C R ε α σ) : Prop :=
  ∀ w ∈ s.writer, (s.prog w.1).isOver = false

theorem Held.working (h : Held s) (hi : (s.prog i).isOver = true) : (s.tx i).working = none := by
  by_contra hne
  obtain ⟨x, hx⟩ := Option.ne_none_iff_exists'.mp hne
  obtain ⟨w, hw, -⟩ := Option.map_eq_some_iff.mp hx
  obtain ⟨hm, he⟩ := Option.filter_eq_some_iff.mp hw
  obtain rfl : w.1 = i := of_decide_eq_true he
  cases (h w hm).symm.trans hi

theorem Held.goOn (h : Held s) : Held (s.goOn i p t) := by
  intro w hw
  simp only [Shared.goOn] at hw ⊢
  split at hw
  · rename_i x hx
    cases hw
    split at hx
    · cases hx
    · rename_i hp
      rw [Function.update_self]
      exact Bool.eq_false_iff.mpr hp
  · obtain ⟨hw, hne⟩ := Option.mem_filter_iff.mp hw
    rw [Function.update_of_ne (of_decide_eq_true hne)]
    exact h w hw

/-- One turn of a stable session. -/
theorem step_stable (hrefl : ∀ v, le v v)
    (hQ : ∀ a (t : Tx σ), Q a t → Q a ⟨t.committed, none⟩)
    (hE : ∀ e (t : Tx σ), E e t → E e ⟨t.committed, none⟩)
    (h : (s.prog i).Stable M kind le G Q E (s.tx i)) (hg : s.Meets G (.exec i))
    (hs : step M kind s (.exec i) = some s') :
    le s.committed s'.committed ∧ (s'.prog i).Stable M kind le G Q E (s'.tx i) ∧
      ∀ j, j ≠ i → s'.prog j = s.prog j ∧ (s.tx j).Evolves le (s'.tx j) := by
  obtain ⟨c, k, hp, hw, rfl⟩ := step_exec hs
  rw [meets_of hp] at hg
  rw [hp] at h
  obtain ⟨hle, hk⟩ := h _ (.refl hrefl _) hg
  refine ⟨hle, ?_, fun j hj => ⟨Function.update_of_ne hj .., evolves_goOn hj hw hle⟩⟩
  have hprog : (s.goOn i (k ((M.inTx kind).exec c (s.tx i)).1)
      ((M.inTx kind).exec c (s.tx i)).2).prog i = k ((M.inTx kind).exec c (s.tx i)).1 :=
    Function.update_self ..
  rw [hprog]
  generalize k ((M.inTx kind).exec c (s.tx i)).1 = q at hk ⊢
  cases q with
  | call c' k' =>
    rw [tx_goOn s i rfl]
    exact hk
  | pure a =>
    rw [tx_goOn_over rfl]
    exact hQ a _ hk
  | raise e =>
    rw [tx_goOn_over rfl]
    exact hE e _ hk

end Shared

end MailserverUi
