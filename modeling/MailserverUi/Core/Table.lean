import Mathlib

/-!
# Tables with a primary key and a unique column

A `Table α κ rowId key` is a list of rows whose `rowId`s are positive and
distinct, and whose `key`s are distinct: what `INTEGER PRIMARY KEY` and
`UNIQUE` enforce. A statement that may break a constraint has no result where it
does (`insert`, `modify`); one that cannot is total (`update`, `filter`).

* `mem_insert`, `mem_modify`, `mem_update`, `mem_filter`: the rows afterwards.
* `find_eq_some`, `findKey_eq_some`: a look-up finds the one row there is.
* `insert_nextId`: a row under the next id goes in unless its key is taken.
-/
namespace MailserverUi

structure Table (α κ : Type) (rowId : α → Int) (key : α → κ) where
  rows : List α
  ids : (rows.map rowId).Nodup
  keys : (rows.map key).Nodup
  pos : ∀ r ∈ rows, 0 < rowId r

namespace Table

variable {α κ : Type} {rowId : α → Int} {key : α → κ}

instance : Membership α (Table α κ rowId key) := ⟨fun t r => r ∈ t.rows⟩

theorem mem_rows {t : Table α κ rowId key} {r : α} : r ∈ t.rows ↔ r ∈ t := Iff.rfl

theorem eq_of_id {t : Table α κ rowId key} {r r' : α} (h : r ∈ t) (h' : r' ∈ t)
    (e : rowId r = rowId r') : r = r' := List.inj_on_of_nodup_map t.ids h h' e

theorem eq_of_key {t : Table α κ rowId key} {r r' : α} (h : r ∈ t) (h' : r' ∈ t)
    (e : key r = key r') : r = r' := List.inj_on_of_nodup_map t.keys h h' e

def empty : Table α κ rowId key := ⟨[], List.nodup_nil, List.nodup_nil, by simp⟩

/-! ## Look-ups -/

def find (t : Table α κ rowId key) (n : Int) : Option α := t.rows.find? fun r => rowId r = n

def findKey [DecidableEq κ] (t : Table α κ rowId key) (k : κ) : Option α :=
  t.rows.find? fun r => key r = k

theorem find_eq_some {t : Table α κ rowId key} {n : Int} {r : α} :
    t.find n = some r ↔ r ∈ t ∧ rowId r = n := by
  refine ⟨fun h => ⟨List.mem_of_find?_eq_some h, by simpa using List.find?_some h⟩, ?_⟩
  rintro ⟨hr, rfl⟩
  obtain ⟨x, hx⟩ : ∃ x, t.find (rowId r) = some x :=
    Option.isSome_iff_exists.mp (List.find?_isSome.mpr ⟨r, hr, by simp⟩)
  have e : rowId x = rowId r := by simpa using List.find?_some hx
  rw [hx, eq_of_id (List.mem_of_find?_eq_some hx) hr e]

theorem findKey_eq_some [DecidableEq κ] {t : Table α κ rowId key} {k : κ} {r : α} :
    t.findKey k = some r ↔ r ∈ t ∧ key r = k := by
  refine ⟨fun h => ⟨List.mem_of_find?_eq_some h, by simpa using List.find?_some h⟩, ?_⟩
  rintro ⟨hr, rfl⟩
  obtain ⟨x, hx⟩ : ∃ x, t.findKey (key r) = some x :=
    Option.isSome_iff_exists.mp (List.find?_isSome.mpr ⟨r, hr, by simp⟩)
  have e : key x = key r := by simpa using List.find?_some hx
  rw [hx, eq_of_key (List.mem_of_find?_eq_some hx) hr e]

/-- The largest id, plus one. -/
def nextId (t : Table α κ rowId key) : Int := (t.rows.map rowId).foldr max 0 + 1

theorem le_foldr_max {l : List Int} {n : Int} (h : n ∈ l) : n ≤ l.foldr max 0 := by
  induction l with
  | nil => cases h
  | cons m l ih =>
    rw [List.foldr_cons]
    rcases List.mem_cons.mp h with rfl | h
    · exact le_max_left _ _
    · exact (ih h).trans (le_max_right _ _)

theorem foldr_max_nonneg (l : List Int) : 0 ≤ l.foldr max 0 := by
  induction l with
  | nil => exact le_rfl
  | cons m l ih => exact ih.trans (le_max_right _ _)

theorem lt_nextId {t : Table α κ rowId key} {r : α} (h : r ∈ t) : rowId r < t.nextId := by
  have := le_foldr_max (List.mem_map_of_mem (f := rowId) h)
  unfold nextId
  omega

theorem nextId_pos (t : Table α κ rowId key) : 0 < t.nextId := by
  have := foldr_max_nonneg (t.rows.map rowId)
  unfold nextId
  omega

/-! ## `INSERT` -/

theorem nodup_snoc {β : Type} {f : α → β} {l : List α} {r : α} (h : (l.map f).Nodup)
    (hr : f r ∉ l.map f) : ((l ++ [r]).map f).Nodup := by
  rw [List.map_append, List.map_singleton, ← List.concat_eq_append, List.nodup_concat]
  exact ⟨hr, h⟩

/-- `INSERT`, unless a constraint fails. -/
def insert [DecidableEq κ] (t : Table α κ rowId key) (r : α) : Option (Table α κ rowId key) :=
  if h : rowId r ∉ t.rows.map rowId ∧ key r ∉ t.rows.map key ∧ 0 < rowId r then
    some {
      rows := t.rows ++ [r]
      ids := nodup_snoc t.ids h.1
      keys := nodup_snoc t.keys h.2.1
      pos := by
        intro x hx
        rcases List.mem_append.mp hx with hx | hx
        · exact t.pos x hx
        · rw [List.mem_singleton.mp hx]; exact h.2.2 }
  else none

theorem insert_rows [DecidableEq κ] {t t' : Table α κ rowId key} {r : α}
    (h : t.insert r = some t') : t'.rows = t.rows ++ [r] := by
  unfold insert at h
  split at h
  · cases h
    rfl
  · cases h

theorem mem_insert [DecidableEq κ] {t t' : Table α κ rowId key} {r x : α}
    (h : t.insert r = some t') : x ∈ t' ↔ x ∈ t ∨ x = r := by
  rw [← mem_rows, ← mem_rows, insert_rows h, List.mem_append, List.mem_singleton]

/-- A row under the next id only needs its key to be free. -/
theorem insert_nextId [DecidableEq κ] {t : Table α κ rowId key} {r : α}
    (h : rowId r = t.nextId) : t.insert r = none ↔ ∃ x ∈ t, key x = key r := by
  have hid : rowId r ∉ t.rows.map rowId := by
    rintro hm
    obtain ⟨x, hx, e⟩ := List.mem_map.mp hm
    have := lt_nextId (mem_rows.mp hx)
    omega
  have hpos : 0 < rowId r := h ▸ t.nextId_pos
  simp only [insert, hid, hpos, not_false_eq_true, true_and, and_true, dite_eq_right_iff,
    reduceCtorEq, imp_false, not_not, List.mem_map, mem_rows]

/-! ## `UPDATE` -/

/-- The rows, the one under `n` changed by `f`. -/
def changed (rowId : α → Int) (n : Int) (f : α → α) (l : List α) : List α :=
  l.map fun r => if rowId r = n then f r else r

theorem mem_changed {n : Int} {f : α → α} {l : List α} {x : α} :
    x ∈ changed rowId n f l ↔ ∃ r ∈ l, x = if rowId r = n then f r else r := by
  simp only [changed, List.mem_map, eq_comm]

/-- What `f` leaves alone keeps its values. -/
theorem map_changed {β : Type} {g : α → β} {n : Int} {f : α → α} (hf : ∀ r, g (f r) = g r)
    (l : List α) : (changed rowId n f l).map g = l.map g := by
  rw [changed, List.map_map]
  refine List.map_congr_left fun r _ => ?_
  by_cases h : rowId r = n
  · simp [h, hf]
  · simp [h]

theorem pos_changed {t : Table α κ rowId key} {n : Int} {f : α → α}
    (hf : ∀ r, rowId (f r) = rowId r) : ∀ r ∈ changed rowId n f t.rows, 0 < rowId r := by
  intro x hx
  obtain ⟨r, hr, rfl⟩ := mem_changed.mp hx
  have := t.pos r hr
  split
  · rw [hf]; exact this
  · exact this

/-- `UPDATE` of columns without a constraint. -/
def update (t : Table α κ rowId key) (n : Int) (f : α → α) (hid : ∀ r, rowId (f r) = rowId r)
    (hkey : ∀ r, key (f r) = key r) : Table α κ rowId key where
  rows := changed rowId n f t.rows
  ids := by rw [map_changed hid]; exact t.ids
  keys := by rw [map_changed hkey]; exact t.keys
  pos := pos_changed hid

theorem mem_update {t : Table α κ rowId key} {n : Int} {f : α → α}
    {hid : ∀ r, rowId (f r) = rowId r} {hkey : ∀ r, key (f r) = key r} {x : α} :
    x ∈ t.update n f hid hkey ↔ ∃ r ∈ t, x = if rowId r = n then f r else r := mem_changed

/-- `UPDATE` that may set the unique column, unless the constraint fails. -/
def modify [DecidableEq κ] (t : Table α κ rowId key) (n : Int) (f : α → α)
    (hid : ∀ r, rowId (f r) = rowId r) : Option (Table α κ rowId key) :=
  if h : ((changed rowId n f t.rows).map key).Nodup then
    some {
      rows := changed rowId n f t.rows
      ids := by rw [map_changed hid]; exact t.ids
      keys := h
      pos := pos_changed hid }
  else none

theorem mem_modify [DecidableEq κ] {t t' : Table α κ rowId key} {n : Int} {f : α → α}
    {hid : ∀ r, rowId (f r) = rowId r} (h : t.modify n f hid = some t') {x : α} :
    x ∈ t' ↔ ∃ r ∈ t, x = if rowId r = n then f r else r := by
  unfold modify at h
  split at h
  · cases h; exact mem_changed
  · cases h

/-- Only where no other row has the new key. -/
theorem id_of_modify [DecidableEq κ] {t t' : Table α κ rowId key} {n : Int} {f : α → α}
    {hid : ∀ r, rowId (f r) = rowId r} (h : t.modify n f hid = some t') {r x : α} (hr : r ∈ t)
    (hx : x ∈ t) (hn : rowId x = n) (hk : key r = key (f x)) : rowId r = n := by
  by_contra hne
  have hr' : r ∈ t' := (mem_modify h).mpr ⟨r, hr, (if_neg hne).symm⟩
  have hx' : f x ∈ t' := (mem_modify h).mpr ⟨x, hx, (if_pos hn).symm⟩
  rw [eq_of_key hr' hx' hk, hid] at hne
  exact hne hn

/-! ## `DELETE` -/

def filter (t : Table α κ rowId key) (p : α → Bool) : Table α κ rowId key where
  rows := t.rows.filter p
  ids := (List.filter_sublist.map _).nodup t.ids
  keys := (List.filter_sublist.map _).nodup t.keys
  pos r hr := t.pos r (List.mem_of_mem_filter hr)

theorem mem_filter {t : Table α κ rowId key} {p : α → Bool} {x : α} :
    x ∈ t.filter p ↔ x ∈ t ∧ p x = true := List.mem_filter

end Table

end MailserverUi
