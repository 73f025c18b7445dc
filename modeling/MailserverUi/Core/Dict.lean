import MailserverUi.Core.Lists

/-!
# Insertion-ordered dictionaries

A Python `dict`: a list of items whose keys are distinct, which the type
carries. Assigning to a key that is there keeps its place; a new key goes to
the end.

`get?_set`, `get?_erase` and `get?_ofPairs` describe the operations through
`get?`; `mem_items` ties `get?` to the items, and `get?_ofPairs_sortedItems`
says that a dictionary written out in order reads back with the same `get?`.
`sortedItems_congr`, `sortedItems_erase` and `inserted_sortedItems` say what the
order is after an operation.
-/
namespace MailserverUi

structure Dict (α β : Type) where
  items : List (α × β)
  nodup : (items.map Prod.fst).Nodup

namespace Dict

variable {α β : Type} [DecidableEq α]

def empty : Dict α β := ⟨[], List.nodup_nil⟩

def keys (d : Dict α β) : List α := d.items.map Prod.fst

def get? (d : Dict α β) (k : α) : Option β := (d.items.find? fun p => p.1 = k).map Prod.snd

/-- `l[k] = v` on items. -/
def put (k : α) (v : β) : List (α × β) → List (α × β)
  | [] => [(k, v)]
  | p :: l => if p.1 = k then (k, v) :: l else p :: put k v l

theorem mem_keys_put {k x : α} {v : β} {l : List (α × β)} :
    x ∈ (put k v l).map Prod.fst ↔ x = k ∨ x ∈ l.map Prod.fst := by
  induction l with
  | nil => simp [put]
  | cons p l ih =>
    unfold put
    split
    · rename_i h; simp [h]
    · simp only [List.map_cons, List.mem_cons, ih]; tauto

theorem nodup_put {k : α} {v : β} {l : List (α × β)} (h : (l.map Prod.fst).Nodup) :
    ((put k v l).map Prod.fst).Nodup := by
  induction l with
  | nil => simp [put]
  | cons p l ih =>
    rw [List.map_cons, List.nodup_cons] at h
    unfold put
    split
    · rename_i hk
      rw [List.map_cons, List.nodup_cons]
      exact ⟨by rw [← hk]; exact h.1, h.2⟩
    · rename_i hk
      rw [List.map_cons, List.nodup_cons, mem_keys_put]
      exact ⟨by rintro (e | e); exacts [hk e, h.1 e], ih h.2⟩

/-- `d[k] = v`. -/
def set (d : Dict α β) (k : α) (v : β) : Dict α β := ⟨put k v d.items, nodup_put d.nodup⟩

/-- `d.pop(k, None)`, `del d[k]`. -/
def erase (d : Dict α β) (k : α) : Dict α β :=
  ⟨d.items.filter fun p => p.1 ≠ k, (List.filter_sublist.map _).nodup d.nodup⟩

/-- The items whose value meets `p`. -/
def filterVal (d : Dict α β) (p : β → Bool) : Dict α β :=
  ⟨d.items.filter fun q => p q.2, (List.filter_sublist.map _).nodup d.nodup⟩

/-- `{k: f(k, v) for k, v in d.items()}`. -/
def mapVal {γ : Type} (d : Dict α β) (f : α → β → γ) : Dict α γ :=
  ⟨d.items.map fun p => (p.1, f p.1 p.2), by
    rw [List.map_map]
    exact d.nodup⟩

/-- `{k: v for k, v in pairs}`. -/
def ofPairs (l : List (α × β)) : Dict α β := l.foldl (fun d p => d.set p.1 p.2) empty

theorem map_fst_put {k : α} {v : β} {l : List (α × β)} :
    (put k v l).map Prod.fst = if k ∈ l.map Prod.fst then l.map Prod.fst
      else l.map Prod.fst ++ [k] := by
  induction l with
  | nil => rfl
  | cons p l ih =>
    unfold put
    by_cases hp : p.1 = k
    · simp [hp]
    · have hk : k ∈ (p :: l).map Prod.fst ↔ k ∈ l.map Prod.fst := by
        simp [Ne.symm hp]
      rw [if_neg hp, List.map_cons, ih]
      by_cases hl : k ∈ l.map Prod.fst
      · rw [if_pos hl, if_pos (hk.mpr hl), List.map_cons]
      · rw [if_neg hl, if_neg fun h => hl (hk.mp h), List.map_cons, List.cons_append]

/-- An assignment to a new key puts it last. -/
theorem keys_set (d : Dict α β) (k : α) (v : β) :
    (d.set k v).keys = if k ∈ d.keys then d.keys else d.keys ++ [k] := map_fst_put

theorem ofPairs_concat (l : List (α × β)) (p : α × β) :
    ofPairs (l ++ [p]) = (ofPairs l).set p.1 p.2 := by
  simp [ofPairs]

theorem mem_items {d : Dict α β} {k : α} {v : β} : (k, v) ∈ d.items ↔ d.get? k = some v := by
  obtain ⟨l, hl⟩ := d
  induction l with
  | nil => simp [get?]
  | cons p l ih =>
    rw [List.map_cons, List.nodup_cons] at hl
    have := ih hl.2
    simp only [get?, List.mem_cons, List.find?_cons] at this ⊢
    by_cases hk : p.1 = k
    · have hn : (k, v) ∉ l := fun h => hl.1 (hk ▸ List.mem_map_of_mem (f := Prod.fst) h)
      obtain ⟨a, b⟩ := p
      simp only at hk
      simp [hk, hn, eq_comm]
    · simp only [hk, decide_false]
      rw [← this]
      exact ⟨fun h => h.resolve_left fun e => hk (by rw [← e]), .inr⟩

theorem get?_eq_none {d : Dict α β} {k : α} : d.get? k = none ↔ k ∉ d.keys := by
  simp only [get?, Option.map_eq_none_iff, List.find?_eq_none, decide_eq_true_eq, keys,
    List.mem_map, not_exists, not_and]

@[simp] theorem get?_empty (k : α) : (empty : Dict α β).get? k = none := rfl

theorem get?_set (d : Dict α β) (k x : α) (v : β) :
    (d.set k v).get? x = if x = k then some v else d.get? x := by
  obtain ⟨l, hl⟩ := d
  induction l with
  | nil => by_cases h : x = k <;> simp [set, get?, put, h, eq_comm]
  | cons p l ih =>
    rw [List.map_cons, List.nodup_cons] at hl
    have ih := ih hl.2
    simp only [set, get?, put] at ih ⊢
    by_cases hp : p.1 = k
    · rw [if_pos hp]
      by_cases hx : x = k
      · simp [hx]
      · have hpx : p.1 ≠ x := fun e => hx (e.symm.trans hp)
        simp [hx, Ne.symm hx, hpx]
    · rw [if_neg hp]
      by_cases hpx : p.1 = x
      · have hx : x ≠ k := fun e => hp (hpx.trans e)
        simp [hpx, hx]
      · simp only [List.find?_cons, hpx, decide_false, ih]

theorem get?_erase (d : Dict α β) (k x : α) :
    (d.erase k).get? x = if x = k then none else d.get? x := by
  by_cases hx : x = k
  · rw [if_pos hx, get?_eq_none]
    simp [keys, erase, hx]
  · rw [if_neg hx]
    apply Option.ext
    intro v
    rw [← mem_items, ← mem_items]
    simp [erase, hx]

theorem get?_filterVal (d : Dict α β) (p : β → Bool) (k : α) :
    (d.filterVal p).get? k = (d.get? k).filter p := by
  apply Option.ext
  intro v
  rw [← mem_items, Option.filter_eq_some_iff, ← mem_items]
  simp [filterVal]

omit [DecidableEq α] in
theorem keys_mapVal {γ : Type} (d : Dict α β) (f : α → β → γ) : (d.mapVal f).keys = d.keys := by
  rw [keys, mapVal, List.map_map]
  rfl

theorem get?_mapVal {γ : Type} (d : Dict α β) (f : α → β → γ) (k : α) :
    (d.mapVal f).get? k = (d.get? k).map (f k) := by
  simp only [get?, mapVal, List.find?_map, Function.comp_def, Option.map_map]
  refine Option.map_congr fun p hp => ?_
  have hk : p.1 = k := by simpa using List.find?_some hp
  rw [hk]

theorem get?_foldl_set (l : List (α × β)) (d : Dict α β) (k : α) :
    (l.foldl (fun d p => d.set p.1 p.2) d).get? k =
      ((l.reverse.find? fun p => p.1 = k).map Prod.snd).or (d.get? k) := by
  induction l generalizing d with
  | nil => simp
  | cons p l ih =>
    rw [List.foldl_cons, ih, get?_set, List.reverse_cons, List.find?_append, Option.map_or,
      Option.or_assoc]
    congr 1
    by_cases h : p.1 = k
    · simp [h]
    · simp [h, Ne.symm h]

/-- The last pair of a key wins. -/
theorem get?_ofPairs (l : List (α × β)) (k : α) :
    (ofPairs l).get? k = (l.reverse.find? fun p => p.1 = k).map Prod.snd := by
  rw [ofPairs, get?_foldl_set]; simp

/-- Later pairs count before earlier ones. -/
theorem get?_ofPairs_append (l m : List (α × β)) (k : α) :
    (ofPairs (l ++ m)).get? k = ((ofPairs m).get? k).or ((ofPairs l).get? k) := by
  rw [get?_ofPairs m, ← get?_foldl_set, ofPairs, List.foldl_append, ofPairs]

theorem mem_of_mem_ofPairs {l : List (α × β)} {p : α × β} (h : p ∈ (ofPairs l).items) : p ∈ l := by
  have hg : (ofPairs l).get? p.1 = some p.2 := mem_items.mp h
  rw [get?_ofPairs, Option.map_eq_some_iff] at hg
  obtain ⟨q, hq, he⟩ := hg
  have hk : q.1 = p.1 := by simpa using List.find?_some hq
  rw [← Prod.ext hk he]
  exact List.mem_reverse.mp (List.mem_of_find?_eq_some hq)

theorem mem_keys_ofPairs {l : List (α × β)} {k : α} :
    k ∈ (ofPairs l).keys ↔ k ∈ l.map Prod.fst := by
  rw [← not_iff_not, ← get?_eq_none, get?_ofPairs]
  simp only [Option.map_eq_none_iff, List.find?_eq_none, List.mem_reverse, decide_eq_true_eq,
    List.mem_map, not_exists, not_and]

/-- Where `a` occurs first. -/
def firstIndex (l : List α) (a : α) : Nat := l.idxOf a

/-- The keys stand in the order of their first pairs. -/
theorem pairwise_keys_ofPairs (l : List (α × β)) :
    (ofPairs l).keys.Pairwise fun a b =>
      firstIndex (l.map Prod.fst) a < firstIndex (l.map Prod.fst) b := by
  unfold firstIndex
  induction l using List.reverseRecOn with
  | nil => exact .nil
  | append_singleton l p ih =>
    have hmem {a : α} (ha : a ∈ (ofPairs l).keys) :
        ((l ++ [p]).map Prod.fst).idxOf a = (l.map Prod.fst).idxOf a := by
      rw [List.map_append, List.idxOf_append_of_mem (mem_keys_ofPairs.mp ha)]
    have ih' : (ofPairs l).keys.Pairwise fun a b =>
        ((l ++ [p]).map Prod.fst).idxOf a < ((l ++ [p]).map Prod.fst).idxOf b := by
      refine ih.imp_of_mem fun ha hb h => ?_
      rwa [hmem ha, hmem hb]
    rw [ofPairs_concat, keys_set]
    split
    · exact ih'
    · rename_i hk
      refine List.pairwise_append.mpr ⟨ih', List.pairwise_singleton _ _, fun a ha b hb => ?_⟩
      have hp : p.1 ∉ l.map Prod.fst := fun h => hk (mem_keys_ofPairs.mpr h)
      rw [List.mem_singleton.mp hb, hmem ha, List.map_append, List.idxOf_append_of_notMem hp]
      exact Nat.lt_add_right _ (List.idxOf_lt_length_of_mem (mem_keys_ofPairs.mp ha))

omit [DecidableEq α] in
theorem ext_items {d e : Dict α β} (h : d.items = e.items) : d = e := by
  cases d
  cases e
  cases h
  rfl

/-- The keys in order and what they map to make the dictionary. -/
theorem ext_keys {d e : Dict α β} (hk : d.keys = e.keys) (h : ∀ k, d.get? k = e.get? k) :
    d = e := by
  have hlen : d.items.length = e.items.length := by
    simpa [keys] using congrArg List.length hk
  refine ext_items (List.ext_getElem hlen fun i hd he => ?_)
  have hkey : d.items[i].1 = e.items[i].1 := by
    have := List.getElem_of_eq hk (i := i) (by simpa [keys] using hd)
    simpa [keys] using this
  have hmem : (e.items[i].1, d.items[i].2) ∈ e.items := by
    rw [mem_items, ← h, ← mem_items, ← hkey]
    exact List.getElem_mem hd
  have hval := (mem_items.mp hmem).symm.trans (mem_items.mp (List.getElem_mem he))
  exact Prod.ext hkey (Option.some.inj hval)

theorem mem_keys {d : Dict α β} {k : α} : k ∈ d.keys ↔ ∃ v, d.get? k = some v := by
  rw [← not_iff_not, ← get?_eq_none, Option.eq_none_iff_forall_ne_some, not_exists]

theorem mem_keys_of_get? {d : Dict α β} {k : α} {v : β} (h : d.get? k = some v) : k ∈ d.keys :=
  mem_keys.mpr ⟨v, h⟩

theorem keys_erase (d : Dict α β) (k : α) : (d.erase k).keys = d.keys.filter fun x => x ≠ k := by
  simp only [keys, erase, List.filter_map]
  rfl

/-- Assigning what is there already. -/
theorem set_of_get? {d : Dict α β} {k : α} {v : β} (h : d.get? k = some v) : d.set k v = d := by
  refine ext_keys ?_ fun x => ?_
  · rw [keys_set, if_pos (mem_keys_of_get? h)]
  · rw [get?_set]
    split
    · rename_i hx
      rw [hx, h]
    · rfl

theorem set_set (d : Dict α β) (k : α) (v w : β) : (d.set k v).set k w = d.set k w := by
  refine ext_keys ?_ fun x => ?_
  · have hk : k ∈ (d.set k v).keys := mem_keys_of_get? (by rw [get?_set, if_pos rfl])
    rw [keys_set (d.set k v), if_pos hk, keys_set, keys_set]
  · simp only [get?_set]
    split <;> rfl

omit [DecidableEq α] in
theorem mapVal_mapVal {γ δ : Type} (d : Dict α β) (f : α → β → γ) (g : α → γ → δ) :
    (d.mapVal f).mapVal g = d.mapVal fun k v => g k (f k v) := by
  simp only [mapVal, List.map_map]
  rfl

theorem mapVal_set {γ : Type} (d : Dict α β) (f : α → β → γ) (k : α) (v : β) :
    (d.set k v).mapVal f = (d.mapVal f).set k (f k v) := by
  refine ext_keys ?_ fun x => ?_
  · rw [keys_mapVal, keys_set, keys_set, keys_mapVal]
  · rw [get?_mapVal, get?_set, get?_set, get?_mapVal]
    split
    · rename_i h
      rw [h]
      rfl
    · rfl

/-- Assigning a key again and again leaves the last value. -/
theorem foldl_set_same {k : α} {v : β} {l : List (α × β)} (hk : ∀ p ∈ l, p.1 = k)
    (hl : l.getLast? = some (k, v)) (d : Dict α β) :
    l.foldl (fun d p => d.set p.1 p.2) d = d.set k v := by
  induction l generalizing d with
  | nil => cases hl
  | cons p l ih =>
    rw [List.foldl_cons]
    cases l with
    | nil =>
      cases hl
      rfl
    | cons q l =>
      rw [ih (fun r hr => hk r (List.mem_cons_of_mem p hr)) hl, hk p List.mem_cons_self, set_set]

theorem mem_keys_set {d : Dict α β} {k x : α} {v : β} :
    x ∈ (d.set k v).keys ↔ x = k ∨ x ∈ d.keys := mem_keys_put

theorem mem_keys_erase {d : Dict α β} {k x : α} : x ∈ (d.erase k).keys ↔ x ≠ k ∧ x ∈ d.keys := by
  rw [keys_erase, List.mem_filter, decide_eq_true_eq, and_comm]

theorem erase_of_not_mem {d : Dict α β} {k : α} (h : k ∉ d.keys) : d.erase k = d := by
  refine ext_items (List.filter_eq_self.mpr fun p hp => decide_eq_true fun e => h ?_)
  rw [← e]
  exact List.mem_map_of_mem hp

/-- A list with distinct keys, in any order, is a dictionary with its items. -/
theorem get?_ofPairs_of_nodup {l : List (α × β)} (h : (l.map Prod.fst).Nodup) (k : α) :
    (ofPairs l).get? k = (Dict.mk l h).get? k := by
  rw [get?_ofPairs]
  have hr : ((l.reverse).map Prod.fst).Nodup := by rw [List.map_reverse, List.nodup_reverse]; exact h
  apply Option.ext
  intro v
  have h₁ := mem_items (d := ⟨l.reverse, hr⟩) (k := k) (v := v)
  have h₂ := mem_items (d := ⟨l, h⟩) (k := k) (v := v)
  rw [← h₂, ← List.mem_reverse, h₁]
  rfl

/-- `sorted(d.items())`: the keys are distinct, so the values are never
compared. -/
def sortedItems [LinearOrder α] (d : Dict α β) : List (α × β) :=
  d.items.insertionSort fun a b => a.1 ≤ b.1

omit [DecidableEq α] in
theorem sortedItems_perm [LinearOrder α] (d : Dict α β) : d.sortedItems.Perm d.items :=
  List.perm_insertionSort _ _

omit [DecidableEq α] in
theorem nodup_sortedItems [LinearOrder α] (d : Dict α β) : (d.sortedItems.map Prod.fst).Nodup :=
  (d.sortedItems_perm.map _).nodup_iff.mpr d.nodup

/-- Written out in order and read back, a dictionary answers the same. -/
theorem get?_ofPairs_sortedItems [LinearOrder α] (d : Dict α β) (k : α) :
    (ofPairs d.sortedItems).get? k = d.get? k := by
  rw [get?_ofPairs_of_nodup d.nodup_sortedItems]
  apply Option.ext
  intro v
  rw [← mem_items, ← mem_items]
  exact d.sortedItems_perm.mem_iff

/-! ## The items in order -/

section
variable [LinearOrder α] {d e : Dict α β}

omit [DecidableEq α] in
theorem pairwise_sortedItems (d : Dict α β) : d.sortedItems.Pairwise fun a b => a.1 ≤ b.1 :=
  List.pairwise_insertionSort _ _

omit [DecidableEq α] in
theorem mem_sortedItems {p : α × β} : p ∈ d.sortedItems ↔ p ∈ d.items :=
  d.sortedItems_perm.mem_iff

omit [DecidableEq α] in
/-- The items in the order of their keys. -/
theorem eq_sortedItems {l : List (α × β)} (hs : l.Pairwise fun a b => a.1 ≤ b.1)
    (hp : l.Perm d.items) : l = d.sortedItems := by
  refine (hp.trans d.sortedItems_perm.symm).eq_of_pairwise (fun a b ha hb hab hba => ?_) hs
    d.pairwise_sortedItems
  exact List.inj_on_of_nodup_map d.nodup (hp.mem_iff.mp ha) (mem_sortedItems.mp hb)
    (le_antisymm hab hba)

theorem sortedItems_congr (h : ∀ k, d.get? k = e.get? k) : d.sortedItems = e.sortedItems := by
  refine eq_sortedItems d.pairwise_sortedItems (d.sortedItems_perm.trans ?_)
  refine (List.perm_ext_iff_of_nodup (.of_map _ d.nodup) (.of_map _ e.nodup)).mpr fun p => ?_
  rw [show p = (p.1, p.2) from rfl, mem_items, mem_items, h]

theorem sortedItems_erase (d : Dict α β) (k : α) :
    (d.erase k).sortedItems = d.sortedItems.filter fun p => p.1 ≠ k :=
  (eq_sortedItems (d.pairwise_sortedItems.filter _) (d.sortedItems_perm.filter _)).symm

omit [DecidableEq α] in
theorem sortedItems_filterVal (d : Dict α β) (p : β → Bool) :
    (d.filterVal p).sortedItems = d.sortedItems.filter fun q => p q.2 :=
  (eq_sortedItems (d.pairwise_sortedItems.filter _) (d.sortedItems_perm.filter _)).symm

omit [LinearOrder α] in
theorem put_of_not_mem {k : α} {l : List (α × β)} (h : k ∉ l.map Prod.fst) (v : β) :
    put k v l = l ++ [(k, v)] := by
  induction l with
  | nil => rfl
  | cons p l ih =>
    rw [List.map_cons, List.mem_cons, not_or] at h
    rw [put, if_neg (Ne.symm h.1), ih h.2, List.cons_append]

/-- A new key goes to its place. -/
theorem inserted_sortedItems {k : α} (h : k ∉ d.keys) (v : β) :
    Inserted Prod.fst (k, v) d.sortedItems (d.set k v).sortedItems := by
  have e : (d.set k v).items = d.items ++ [(k, v)] := put_of_not_mem h v
  unfold sortedItems
  rw [e]
  refine inserted_insertionSort fun p hp e => h ?_
  exact List.mem_map.mpr ⟨p, hp, e⟩

omit [LinearOrder α] in
theorem get?_ofPairs_eq_some {l : List (α × β)} (h : (l.map Prod.fst).Nodup) {k : α} {v : β} :
    (ofPairs l).get? k = some v ↔ (k, v) ∈ l := by
  rw [get?_ofPairs_of_nodup h, ← mem_items]

/-- The items in front of a key and those behind it. -/
theorem sortedItems_split {k : α} {v : β} (h : d.get? k = some v) :
    ∃ l₁ l₂, d.sortedItems = l₁ ++ (k, v) :: l₂ ∧
      (∀ x, (ofPairs l₁).get? x = if x < k then d.get? x else none) ∧
      ∀ x, (ofPairs l₂).get? x = if k < x then d.get? x else none := by
  obtain ⟨l₁, l₂, e⟩ := List.append_of_mem (mem_sortedItems.mpr (mem_items.mpr h))
  have hn := d.nodup_sortedItems
  have hs := d.pairwise_sortedItems
  rw [e, List.map_append, List.map_cons] at hn
  rw [e] at hs
  obtain ⟨hn₁, hn₂, hdis⟩ := List.nodup_append.mp hn
  obtain ⟨hk₂, hn₂⟩ := List.nodup_cons.mp hn₂
  have hlt : ∀ p ∈ l₁, p.1 < k := fun p hp =>
    lt_of_le_of_ne ((List.pairwise_append.mp hs).2.2 p hp _ List.mem_cons_self)
      (hdis _ (List.mem_map_of_mem hp) _ List.mem_cons_self)
  have hgt : ∀ p ∈ l₂, k < p.1 := fun p hp =>
    lt_of_le_of_ne ((List.pairwise_cons.mp (List.pairwise_append.mp hs).2.1).1 p hp)
      fun e => hk₂ (List.mem_map.mpr ⟨p, hp, e.symm⟩)
  have hmem (x : α) (w : β) : d.get? x = some w ↔ (x, w) ∈ l₁ ∨ (x, w) = (k, v) ∨ (x, w) ∈ l₂ := by
    rw [← mem_items, ← mem_sortedItems, e, List.mem_append, List.mem_cons]
  refine ⟨l₁, l₂, e, fun x => Option.ext fun w => ?_, fun x => Option.ext fun w => ?_⟩
  · rw [get?_ofPairs_eq_some hn₁]
    constructor
    · intro hm
      rw [if_pos (hlt _ hm), hmem]
      exact .inl hm
    · intro hx
      split at hx
      · rename_i hxk
        rcases (hmem x w).mp hx with hm | hm | hm
        · exact hm
        · exact absurd hxk (by rw [(Prod.mk.inj hm).1]; exact lt_irrefl k)
        · exact absurd hxk (hgt _ hm).not_gt
      · cases hx
  · rw [get?_ofPairs_eq_some hn₂]
    constructor
    · intro hm
      rw [if_pos (hgt _ hm), hmem]
      exact .inr (.inr hm)
    · intro hx
      split at hx
      · rename_i hxk
        rcases (hmem x w).mp hx with hm | hm | hm
        · exact absurd hxk (hlt _ hm).not_gt
        · exact absurd hxk (by rw [(Prod.mk.inj hm).1]; exact lt_irrefl k)
        · exact hm
      · cases hx

end

end Dict

end MailserverUi
