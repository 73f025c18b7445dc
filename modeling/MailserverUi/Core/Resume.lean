import MailserverUi.Core.Interrupt

/-!
# Programs that can be resumed

A program that looks at the state and does what is left to do has a normal form:
`f s` is the state that it reaches from `s`. When it is cut short anywhere, another
run finishes the work, if `f` takes every state on the way to the same end.

`Mends M I A B p f`: started in a state that meets `I` and of which it knows `A`,
`p` ends in `f s`, knows `B` then, and passes through such states only. `Spares`
says that a program does not undo what `g` has done.

`nextAt n` is the command after the first `n`, and `Points J` says what holds of each
state of a run together with the command that comes next.

Results:
* `Mends.onWay`: the state it ends in is one that another run leaves alone.
* `Mends.bind`, `mends_foldlM`: a sequence of repairs, each of which spares those
  before it, is a repair.
* `Points.here`: where a run is cut.
-/
namespace MailserverUi.Prog

variable {C : Type} {R : C → Type} {ε α β γ κ σ : Type}

section
variable (M : Machine C R σ) (I : σ → Prop)

/-- `f` takes `t` to where it takes `s`, and `t` is a state to start in. -/
def OnWay (f : σ → σ) (s t : σ) : Prop := I t ∧ f t = f s

structure Mends (A : α → σ → Prop) (B : β → σ → Prop) (p : α → Prog C R ε β) (f : σ → σ) :
    Prop where
  run : ∀ a s, I s → A a s → ∃ b, (p a).run M s = (.ok b, f s) ∧ B b (f s)
  always : ∀ a s, I s → A a s → (p a).Always M (OnWay I f s) s

/-- Where `g` has nothing to do, it has nothing to do all the way. -/
def Spares (A : α → σ → Prop) (p : α → Prog C R ε β) (g : σ → σ) : Prop :=
  ∀ a s, I s → A a s → g s = s → (p a).Always M (fun t => g t = t) s

end

variable {M : Machine C R σ} {I : σ → Prop} {A : α → σ → Prop} {B : β → σ → Prop}
  {Q : γ → σ → Prop} {p : α → Prog C R ε β} {q : β → Prog C R ε γ} {f g h : σ → σ}

theorem Always.and {J K : σ → Prop} {p : Prog C R ε β} {s : σ} (hj : p.Always M J s)
    (hk : p.Always M K s) : p.Always M (fun t => J t ∧ K t) s := by
  induction p generalizing s with
  | pure a => exact ⟨hj, hk⟩
  | raise e => exact ⟨hj, hk⟩
  | call c k ih => exact ⟨⟨hj.1, hk.1⟩, ih _ hj.2 hk.2⟩

theorem always_forall {ι : Type} {P : ι → Prop} {J : ι → σ → Prop} {p : Prog C R ε β} {s : σ}
    (h : ∀ i, P i → p.Always M (J i) s) : p.Always M (fun t => ∀ i, P i → J i t) s := by
  induction p generalizing s with
  | pure a => exact h
  | raise e => exact h
  | call c k ih => exact ⟨fun i hi => (h i hi).1, ih _ fun i hi => (h i hi).2⟩

theorem Mends.onWay (hp : Mends M I A B p f) {a : α} {s : σ} (hs : I s) (ha : A a s) :
    OnWay I f s (f s) := by
  obtain ⟨b, hr, -⟩ := hp.run a s hs ha
  have := (hp.always a s hs ha).run
  rwa [hr] at this

/-! ## Sequences -/

theorem Mends.bind (hp : Mends M I A B p f) (hq : Mends M I B Q q g) (hs : Spares M I B q f) :
    Mends M I A Q (fun a => p a >>= q) fun s => g (f s) where
  run a s hI ha := by
    obtain ⟨b, hr, hb⟩ := hp.run a s hI ha
    obtain ⟨c, hr', hc⟩ := hq.run b _ (hp.onWay hI ha).1 hb
    exact ⟨c, by rw [run_bind, hr]; exact hr', hc⟩
  always a s hI ha := by
    refine always_bind ((hp.always a s hI ha).mono fun t ht => ⟨ht.1, congrArg g ht.2⟩) ?_
    intro b s' hr
    obtain ⟨b', hr', hb⟩ := hp.run a s hI ha
    cases hr.symm.trans hr'
    obtain ⟨hI', hfix⟩ := hp.onWay hI ha
    refine ((hq.always b _ hI' hb).and (hs b _ hI' hb hfix)).mono ?_
    rintro t ⟨⟨hIt, hg⟩, hf⟩
    exact ⟨hIt, (congrArg g hf).trans hg⟩

theorem Spares.bind (hp : Mends M I A B p f) (hsp : Spares M I A p h) (hsq : Spares M I B q h) :
    Spares M I A (fun a => p a >>= q) h := by
  intro a s hI ha hfix
  refine always_bind (hsp a s hI ha hfix) fun b s' hr => ?_
  obtain ⟨b', hr', hb⟩ := hp.run a s hI ha
  cases hr.symm.trans hr'
  have hend := (hsp a s hI ha hfix).run
  rw [hr] at hend
  exact hsq b _ (hp.onWay hI ha).1 hb hend

section
variable {ρ : Type} {A : κ → σ → Prop} {step : ρ → κ → Prog C R ε κ} {fix : ρ → σ → σ}

/-- A program without commands. -/
theorem mends_pure : Mends M I A A (.pure : κ → Prog C R ε κ) id where
  run k _ _ hk := ⟨k, rfl, hk⟩
  always _ _ hI _ := ⟨hI, rfl⟩

theorem spares_pure : Spares M I A (.pure : κ → Prog C R ε κ) h := fun _ _ _ _ hfix => hfix

theorem spares_foldlM {l : List ρ} (hm : ∀ r ∈ l, Mends M I A A (step r) (fix r))
    (hs : ∀ r ∈ l, Spares M I A (step r) h) :
    Spares M I A (fun k => l.foldlM (fun k r => step r k) k) h := by
  induction l with
  | nil => exact spares_pure
  | cons r l ih =>
    have ih := ih (fun x hx => hm x (List.mem_cons_of_mem _ hx))
      fun x hx => hs x (List.mem_cons_of_mem _ hx)
    exact .bind (hm r List.mem_cons_self) (hs r List.mem_cons_self) ih

/-- A loop of repairs, none of which undoes an earlier one. -/
theorem mends_foldlM {l : List ρ} (hm : ∀ r ∈ l, Mends M I A A (step r) (fix r))
    (hs : l.Pairwise fun r r' => Spares M I A (step r') (fix r)) :
    Mends M I A A (fun k => l.foldlM (fun k r => step r k) k)
      fun s => l.foldl (fun s r => fix r s) s := by
  induction l with
  | nil => exact mends_pure
  | cons r l ih =>
    obtain ⟨hr, hl⟩ := List.pairwise_cons.mp hs
    have hml := fun x hx => hm x (List.mem_cons_of_mem r hx)
    exact .bind (hm r List.mem_cons_self) (ih hml hl) (spares_foldlM hml hr)

theorem foldl_fixed {l : List ρ} {g : ρ → σ → σ} {s : σ} (h : ∀ r ∈ l, g r s = s) :
    l.foldl (fun s r => g r s) s = s := by
  induction l with
  | nil => rfl
  | cons r l ih =>
    rw [List.foldl_cons, h r List.mem_cons_self]
    exact ih fun x hx => h x (List.mem_cons_of_mem _ hx)

/-- Where the loop has nothing to do, none of its repairs has. -/
theorem fixed_of_foldl {l : List ρ} (hm : ∀ r ∈ l, Mends M I A A (step r) (fix r))
    (hs : l.Pairwise fun r r' => Spares M I A (step r') (fix r)) {k : κ} {s : σ} (hI : I s)
    (hk : A k s) (h : l.foldl (fun s r => fix r s) s = s) : ∀ r ∈ l, fix r s = s := by
  induction l generalizing k s with
  | nil => exact fun r hr => absurd hr List.not_mem_nil
  | cons r l ih =>
    obtain ⟨hr, hl⟩ := List.pairwise_cons.mp hs
    have hmr := hm r List.mem_cons_self
    have hml := fun x hx => hm x (List.mem_cons_of_mem r hx)
    obtain ⟨hI', hfix⟩ := hmr.onWay hI hk
    obtain ⟨k', hrun, hk'⟩ := hmr.run k s hI hk
    have hself : fix r s = s := by
      have hend := (spares_foldlM hml hr k' _ hI' hk' hfix).run
      obtain ⟨k'', hrun', -⟩ := (mends_foldlM hml hl).run k' _ hI' hk'
      rw [hrun'] at hend
      rw [List.foldl_cons] at h
      rwa [h] at hend
    rw [List.foldl_cons, hself] at h
    intro x hx
    rcases List.mem_cons.mp hx with rfl | hx
    · exact hself
    · exact ih hml hl hI hk h x hx

/-- To spare a loop is to spare each of its repairs. -/
theorem spares_foldl {A' : α → σ → Prop} {l : List ρ} {p : α → Prog C R ε β}
    (hp : ∀ r ∈ l, Spares M I A' p (fix r))
    (hf : ∀ a s, I s → A' a s → l.foldl (fun s r => fix r s) s = s → ∀ r ∈ l, fix r s = s) :
    Spares M I A' p fun s => l.foldl (fun s r => fix r s) s := by
  intro a s hI ha h
  have hall := hf a s hI ha h
  exact (always_forall fun r hr => hp r hr a s hI ha (hall r hr)).mono fun t ht => foldl_fixed ht

end

/-! ## The next command -/

/-- The command after the first `n`, if there is one. -/
def nextAt (M : Machine C R σ) : Nat → Prog C R ε α → σ → Option C
  | 0, .call c _, _ => some c
  | n + 1, .call c k, s => nextAt M n (k (M.exec c s).1) (M.exec c s).2
  | _, _, _ => none

def Points (M : Machine C R σ) (J : σ → Option C → Prop) : Prog C R ε α → σ → Prop
  | .call c k, s => J s (some c) ∧ Points M J (k (M.exec c s).1) (M.exec c s).2
  | _, s => J s none

section
variable {J K : σ → Option C → Prop} {p : Prog C R ε α} {f : α → Prog C R ε β} {s : σ}

theorem Points.here (h : p.Points M J s) (n : Nat) : J (p.cut M n s) (p.nextAt M n s) := by
  induction p generalizing s n with
  | pure a => cases n <;> exact h
  | raise e => cases n <;> exact h
  | call c k ih =>
    cases n with
    | zero => exact h.1
    | succ n => exact ih _ h.2 n

theorem Points.mono (h : p.Points M J s) (hJ : ∀ t c, J t c → K t c) : p.Points M K s := by
  induction p generalizing s with
  | pure a => exact hJ _ _ h
  | raise e => exact hJ _ _ h
  | call c k ih => exact ⟨hJ _ _ h.1, ih _ h.2⟩

/-- What holds wherever a command of the first program comes next, and then of the
second. -/
theorem points_bind (hp : p.Points M (fun t c => ∀ x, c = some x → J t c) s) {a : α} {s' : σ}
    (hr : p.run M s = (.ok a, s')) (hf : (f a).Points M J s') : (p >>= f).Points M J s := by
  induction p generalizing s with
  | pure b =>
    cases hr
    exact hf
  | raise e => cases hr
  | call c k ih => exact ⟨hp.1 c rfl, ih _ hp.2 hr⟩

theorem Always.points {I : σ → Prop} {P : C → Prop} (h : p.Always M I s) (hP : p.Issues P) :
    p.Points M (fun t c => I t ∧ ∀ x ∈ c, P x) s := by
  induction p generalizing s with
  | pure a => exact ⟨h, fun x hx => absurd hx (Option.not_mem_none x)⟩
  | raise e => exact ⟨h, fun x hx => absurd hx (Option.not_mem_none x)⟩
  | call c k ih =>
    refine ⟨⟨h.1, fun x hx => ?_⟩, ih _ h.2 (hP.2 _)⟩
    cases hx
    exact hP.1

theorem nextAt_of_issues {P : C → Prop} (h : p.Issues P) (n : Nat) :
    ∀ x ∈ p.nextAt M n s, P x := by
  induction p generalizing s n with
  | pure a => cases n <;> exact fun x hx => absurd hx (Option.not_mem_none x)
  | raise e => cases n <;> exact fun x hx => absurd hx (Option.not_mem_none x)
  | call c k ih =>
    cases n with
    | zero =>
      intro x hx
      cases hx
      exact h.1
    | succ n => exact ih _ (h.2 _) n

theorem nextAt_bind_of_lt {n : Nat} (h : n < p.steps M s) :
    (p >>= f).nextAt M n s = p.nextAt M n s := by
  induction p generalizing s n with
  | pure a => exact absurd h (Nat.not_lt_zero n)
  | raise e => exact absurd h (Nat.not_lt_zero n)
  | call c k ih =>
    cases n with
    | zero => rfl
    | succ n => exact ih _ (Nat.lt_of_succ_lt_succ h)

theorem nextAt_bind_add {a : α} {s' : σ} (h : p.run M s = (.ok a, s')) (m : Nat) :
    (p >>= f).nextAt M (p.steps M s + m) s = (f a).nextAt M m s' := by
  induction p generalizing s with
  | pure b =>
    cases h
    change (f a).nextAt M (0 + m) _ = _
    rw [Nat.zero_add]
  | raise e => cases h
  | call c k ih =>
    rw [steps, Nat.add_right_comm]
    exact ih _ h

end

/-! ## Loops -/

section
variable {P : C → Prop} {ρ : Type} {l : List ρ}

theorem issues_forM {g : ρ → Prog C R ε PUnit} (h : ∀ r ∈ l, (g r).Issues P) :
    (l.forM g).Issues P := by
  induction l with
  | nil => trivial
  | cons r l ih =>
    exact issues_bind (h r List.mem_cons_self) fun _ =>
      ih fun x hx => h x (List.mem_cons_of_mem r hx)

end

end MailserverUi.Prog
