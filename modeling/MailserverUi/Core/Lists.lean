import Mathlib

/-!
# Lists

* `filter_insertionSort_iff`: a stable sort leaves the members that pass a test
  in their order exactly when they were in order.
* `exists_first`: the first member that fails a test.
* `mapM_eq_filterMap`, `mapM_isSome_iff`, `mapM_eq_some_iff`, `mapM_ite`: a partial function that is
  defined on every member, has an inverse, or is one with a check before it.
* `foldl_last`: what the last member of a kind has set is left of a fold.
* `Inserted key a l l'`: `l'` is `l` with `a` in its place. `inserted_insertionSort`:
  one member more, sorted.
-/
namespace MailserverUi

variable {α β : Type}

/-- What is read of the end of a fold was set by the last member of its kind. -/
theorem foldl_last {γ : Type} {f : β → α → β} {p : α → Bool} {g : β → γ} {v : α → γ}
    (hset : ∀ b a, p a = true → g (f b a) = v a)
    (hkeep : ∀ b a, p a = false → g (f b a) = g b) (l : List α) (b : β) :
    g (l.foldl f b) = (((l.filter p).getLast?).map v).getD (g b) := by
  induction l using List.reverseRecOn with
  | nil => rfl
  | append_singleton l a ih =>
    rw [List.foldl_append, List.foldl_cons, List.foldl_nil, List.filter_append]
    cases hp : p a with
    | true =>
      rw [hset _ a hp, List.filter_cons_of_pos hp, List.filter_nil, List.getLast?_concat]
      rfl
    | false =>
      rw [hkeep _ a hp, ih, List.filter_cons_of_neg (by simp [hp]), List.filter_nil,
        List.append_nil]

/-- A partial function on every member, where it is defined on all. -/
theorem forall₂_of_mapM {f : α → Option β} {l : List α} {r : List β} (h : l.mapM f = some r) :
    List.Forall₂ (fun a b => f a = some b) l r := by
  induction l generalizing r with
  | nil =>
    cases h
    exact .nil
  | cons a l ih =>
    rw [List.mapM_cons] at h
    obtain ⟨b, hb, h⟩ := Option.bind_eq_some_iff.mp h
    obtain ⟨r', hr', h⟩ := Option.bind_eq_some_iff.mp h
    cases h
    exact .cons hb (ih hr')

theorem exists_of_mapM {f : α → Option β} {l : List α} {r : List β} (h : l.mapM f = some r) {a : α}
    (ha : a ∈ l) : ∃ b ∈ r, f a = some b := by
  have hall := forall₂_of_mapM h
  clear h
  induction hall with
  | nil => cases ha
  | @cons c b l r hcb _ ih =>
    rcases List.mem_cons.mp ha with rfl | ha
    · exact ⟨b, List.mem_cons_self, hcb⟩
    · exact (ih ha).imp fun d hd => ⟨List.mem_cons_of_mem b hd.1, hd.2⟩

/-- The members that pass come out of the sort as they went in. -/
theorem filter_insertionSort_iff {r : α → α → Prop} [DecidableRel r] [IsTrans α r]
    [Std.Total r] {l : List α} {p : α → Bool} :
    (l.insertionSort r).filter p = l.filter p ↔ (l.filter p).Pairwise r := by
  have hperm : ((l.insertionSort r).filter p).Perm (l.filter p) :=
    (List.perm_insertionSort r l).filter p
  constructor
  · intro h
    rw [← h]
    exact (List.pairwise_insertionSort r l).filter p
  · intro h
    have hsub : List.Sublist (l.filter p) (l.insertionSort r) :=
      List.sublist_insertionSort h List.filter_sublist
    have hsub' := hsub.filter p
    rw [List.filter_filter] at hsub'
    simp only [Bool.and_self] at hsub'
    exact (hsub'.eq_of_length hperm.length_eq.symm).symm

theorem mapM_eq_filterMap {f : α → Option β} {l : List α} (h : ∀ a ∈ l, ∃ b, f a = some b) :
    l.mapM f = some (l.filterMap f) := by
  induction l with
  | nil => rfl
  | cons a l ih =>
    obtain ⟨b, hb⟩ := h a List.mem_cons_self
    rw [List.mapM_cons, hb, ih fun x hx => h x (List.mem_cons_of_mem _ hx),
      List.filterMap_cons_some hb]
    rfl

theorem mapM_isSome_iff {f : α → Option β} {l : List α} :
    (l.mapM f).isSome = true ↔ ∀ a ∈ l, (f a).isSome = true := by
  constructor
  · intro h a ha
    obtain ⟨r, hr⟩ := Option.isSome_iff_exists.mp h
    obtain ⟨b, -, hb⟩ := exists_of_mapM hr ha
    rw [hb]
    rfl
  · intro h
    rw [mapM_eq_filterMap fun a ha => Option.isSome_iff_exists.mp (h a ha)]
    rfl

theorem exists_of_mem_mapM {f : α → Option β} {l : List α} {r : List β} (h : l.mapM f = some r)
    {b : β} (hb : b ∈ r) : ∃ a ∈ l, f a = some b := by
  induction l generalizing r with
  | nil =>
    cases h
    cases hb
  | cons a l ih =>
    simp only [List.mapM_cons, Option.bind_eq_bind, Option.bind_eq_some_iff, Option.pure_def,
      Option.some.injEq] at h
    obtain ⟨c, hc, cs, hcs, rfl⟩ := h
    rcases List.mem_cons.mp hb with rfl | hb
    · exact ⟨a, List.mem_cons_self, hc⟩
    · obtain ⟨x, hx, e⟩ := ih hcs hb
      exact ⟨x, List.mem_cons_of_mem _ hx, e⟩

/-- All of the list, or none of it. -/
theorem mapM_ite {f : α → Option β} {g : α → β} {P : α → Prop} [DecidablePred P]
    (hf : ∀ a, f a = if P a then some (g a) else none) (l : List α) :
    l.mapM f = if ∀ a ∈ l, P a then some (l.map g) else none := by
  induction l with
  | nil => rfl
  | cons a l ih =>
    rw [List.mapM_cons, hf, ih]
    by_cases ha : P a
    · simp only [ha, if_true, List.forall_mem_cons, true_and]
      split <;> rfl
    · simp only [ha, if_false, List.forall_mem_cons, false_and]
      rfl

/-- The first member of a list that fails. -/
theorem exists_first {P : α → Prop} {l : List α} (h : ¬ ∀ a ∈ l, P a) :
    ∃ l₁ a l₂, l = l₁ ++ a :: l₂ ∧ (∀ b ∈ l₁, P b) ∧ ¬ P a := by
  induction l with
  | nil => exact absurd (fun _ ha => absurd ha List.not_mem_nil) h
  | cons a l ih =>
    by_cases ha : P a
    · have hl : ¬ ∀ b ∈ l, P b := fun hl => h (List.forall_mem_cons.mpr ⟨ha, hl⟩)
      obtain ⟨l₁, b, l₂, rfl, hall, hb⟩ := ih hl
      exact ⟨a :: l₁, b, l₂, rfl, List.forall_mem_cons.mpr ⟨ha, hall⟩, hb⟩
    · exact ⟨[], a, l, rfl, fun _ hb => absurd hb List.not_mem_nil, ha⟩

/-- A list is the image, under a partial function, of what its inverse makes of
it. -/
theorem mapM_eq_some_iff {f : α → Option β} {g : β → α}
    (h : ∀ a b, f a = some b ↔ g b = a) {l : List α} {r : List β} :
    l.mapM f = some r ↔ r.map g = l := by
  induction l generalizing r with
  | nil =>
    rw [List.mapM_nil, List.map_eq_nil_iff, Option.pure_def, Option.some.injEq]
    exact eq_comm
  | cons a l ih =>
    simp only [List.mapM_cons, Option.bind_eq_bind, Option.bind_eq_some_iff, Option.pure_def,
      Option.some.injEq]
    constructor
    · rintro ⟨b, hb, bs, hbs, rfl⟩
      rw [List.map_cons, (h a b).mp hb, ih.mp hbs]
    · intro e
      cases r with
      | nil => cases e
      | cons b bs =>
        obtain ⟨hb, hbs⟩ := List.cons.inj e
        exact ⟨b, (h a b).mpr hb, bs, ih.mpr hbs, rfl⟩

/-! ## One member more -/

section
variable {κ : Type} [LinearOrder κ] {key : α → κ} {a b : α} {l l' : List α}

/-- `l'` is `l` with `a` between the members whose key is smaller and those
whose key is larger. -/
def Inserted (key : α → κ) (a : α) (l l' : List α) : Prop :=
  ∃ l₁ l₂, l = l₁ ++ l₂ ∧ l' = l₁ ++ a :: l₂ ∧ (∀ b ∈ l₁, key b < key a) ∧ ∀ b ∈ l₂, key a < key b

def byKey (key : α → κ) (a b : α) : Prop := key a ≤ key b

instance : DecidableRel (byKey key) := fun a b => inferInstanceAs (Decidable (key a ≤ key b))

instance : IsTrans α (byKey key) := ⟨fun _ _ _ => le_trans⟩

instance : Std.Total (byKey key) := ⟨fun a b => le_total (key a) (key b)⟩

theorem Inserted.mem (h : Inserted key a l l') : b ∈ l' ↔ b = a ∨ b ∈ l := by
  obtain ⟨l₁, l₂, rfl, rfl, -, -⟩ := h
  simp only [List.mem_append, List.mem_cons]
  tauto

theorem Inserted.ne (h : Inserted key a l l') (hb : b ∈ l) : key b ≠ key a := by
  obtain ⟨l₁, l₂, rfl, -, h₁, h₂⟩ := h
  rcases List.mem_append.mp hb with hb | hb
  · exact (h₁ b hb).ne
  · exact (h₂ b hb).ne'

/-- Taking it out again. -/
theorem Inserted.filter (h : Inserted key a l l') {p : α → Bool}
    (hp : ∀ b, p b = true ↔ key b ≠ key a) : l'.filter p = l := by
  have hl : l.filter p = l := List.filter_eq_self.mpr fun b hb => (hp b).mpr (h.ne hb)
  have ha : p a ≠ true := fun e => (hp a).mp e rfl
  obtain ⟨l₁, l₂, rfl, rfl, -, -⟩ := h
  rw [List.filter_append, List.filter_cons_of_neg ha, ← List.filter_append, hl]

theorem orderedInsert_of_lt (h : ∀ c ∈ l, key b < key c) : l.orderedInsert (byKey key) b = b :: l := by
  cases l with
  | nil => rfl
  | cons c l => exact List.orderedInsert_cons_of_le _ l (h c List.mem_cons_self).le

/-- Another member goes to its place in both. -/
theorem Inserted.orderedInsert (h : Inserted key a l l') (hb : key b ≠ key a) :
    Inserted key a (l.orderedInsert (byKey key) b) (l'.orderedInsert (byKey key) b) := by
  obtain ⟨l₁, l₂, rfl, rfl, h₁, h₂⟩ := h
  induction l₁ with
  | nil =>
    rw [List.nil_append, List.nil_append, List.orderedInsert_cons]
    rcases lt_or_gt_of_ne hb with hlt | hlt
    · have hle : byKey key b a := hlt.le
      rw [if_pos hle, orderedInsert_of_lt fun c hc => hlt.trans (h₂ c hc)]
      exact ⟨[b], l₂, rfl, rfl, by simpa using hlt, h₂⟩
    · have hle : ¬ byKey key b a := not_le.mpr hlt
      rw [if_neg hle]
      refine ⟨[], _, rfl, rfl, fun c hc => absurd hc List.not_mem_nil, fun c hc => ?_⟩
      rcases (List.mem_orderedInsert _).mp hc with rfl | hc
      · exact hlt
      · exact h₂ c hc
  | cons c l₁ ih =>
    obtain ⟨hc, hl₁⟩ := List.forall_mem_cons.mp h₁
    rw [List.cons_append, List.cons_append, List.orderedInsert_cons, List.orderedInsert_cons]
    by_cases hbc : byKey key b c
    · rw [if_pos hbc, if_pos hbc]
      have hba : key b < key a := lt_of_le_of_lt hbc hc
      exact ⟨b :: c :: l₁, l₂, rfl, rfl, List.forall_mem_cons.mpr ⟨hba, h₁⟩, h₂⟩
    · rw [if_neg hbc, if_neg hbc]
      obtain ⟨m₁, m₂, e, e', hm₁, hm₂⟩ := ih hl₁
      exact ⟨c :: m₁, m₂, by rw [e, List.cons_append], by rw [e', List.cons_append],
        List.forall_mem_cons.mpr ⟨hc, hm₁⟩, hm₂⟩

/-- A member with a key of its own, added and sorted. -/
theorem inserted_insertionSort (h : ∀ b ∈ l, key b ≠ key a) :
    Inserted key a (l.insertionSort (byKey key)) ((l ++ [a]).insertionSort (byKey key)) := by
  induction l with
  | nil => exact ⟨[], [], rfl, rfl, fun b hb => absurd hb List.not_mem_nil,
      fun b hb => absurd hb List.not_mem_nil⟩
  | cons b l ih =>
    obtain ⟨hb, hl⟩ := List.forall_mem_cons.mp h
    exact (ih hl).orderedInsert hb

/-- Each member as something else with the same key, or as nothing. -/
theorem Inserted.filterMap {f : α → Option β} {key' : β → κ} {c : β} (h : Inserted key a l l')
    (hf : ∀ b d, f b = some d → key' d = key b) (ha : f a = some c) :
    Inserted key' c (l.filterMap f) (l'.filterMap f) := by
  obtain ⟨l₁, l₂, rfl, rfl, h₁, h₂⟩ := h
  refine ⟨l₁.filterMap f, l₂.filterMap f, List.filterMap_append, ?_, fun d hd => ?_, fun d hd => ?_⟩
  · rw [List.filterMap_append, List.filterMap_cons_some ha]
  · obtain ⟨b, hb, e⟩ := List.mem_filterMap.mp hd
    rw [hf b d e, hf a c ha]
    exact h₁ b hb
  · obtain ⟨b, hb, e⟩ := List.mem_filterMap.mp hd
    rw [hf b d e, hf a c ha]
    exact h₂ b hb

end

end MailserverUi
