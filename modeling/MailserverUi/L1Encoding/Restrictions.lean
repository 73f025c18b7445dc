import MailserverUi.L1Encoding.ConfigText

/-!
# Lines of an access map

A line is an address and what Postfix does with its mail: `REJECT`, `OK`, or any
other action with or without a text. Only the address is parsed, and every line
is written with `REJECT`.

Results:
* `restrictedOf_eq`: the addresses of the lines.
* `entries_written`: what is read of written addresses.
-/
namespace MailserverUi.L1.Restrictions

open Py MailFiles ServerFiles ConfigText

/-- The address of a line, and what stands behind it. -/
def restrictedEntry (line : Str) : Str × Str :=
  ((restrictedAddress line).getD [], ((split1 line)[1]?).getD [])

def rejected (a : Str) : Str × Str := (a, "REJECT".toList)

section
variable {l a : Str}

/-- Every line has an address. -/
theorem exists_restrictedAddress (hl : IsLine l) (hh : l.head? ≠ some '#') :
    ∃ a, restrictedAddress l = some a ∧ IsAddress a := by
  obtain ⟨w, hne, hw, hhead, hcase⟩ := exists_word hl
  have ha : IsAddress (normalise w) := by
    rw [normalise, hw.strip_eq]
    exact isAddress_lower hne hw (hhead ▸ hh)
  refine ⟨normalise w, ?_, ha⟩
  rcases hcase with rfl | ⟨sep, r, hsep, rfl⟩
  · rw [restrictedAddress, words_noSpace hw hne]
    rfl
  · rw [restrictedAddress, words_word hw hne hsep]
    rfl

theorem isAddress_restrictedEntry (hl : IsLine l) (hh : l.head? ≠ some '#') :
    IsAddress (restrictedEntry l).1 := by
  obtain ⟨a, e, ha⟩ := exists_restrictedAddress hl hh
  rw [restrictedEntry, e]
  exact ha

theorem restrictedOf_eq {lines : List Str} (h : ∀ l ∈ lines, IsLine l ∧ l.head? ≠ some '#') :
    restrictedOf lines = some (lines.map fun l => (restrictedEntry l).1) := by
  have hex : ∀ l ∈ lines, ∃ a, restrictedAddress l = some a := fun l hl => by
    obtain ⟨a, e, -⟩ := exists_restrictedAddress (h l hl).1 (h l hl).2
    exact ⟨a, e⟩
  have hmap : lines.filterMap restrictedAddress = lines.map fun l => (restrictedEntry l).1 := by
    refine List.filterMap_eq_map_iff_forall_eq_some.mpr fun l hl => ?_
    obtain ⟨a, e⟩ := hex l hl
    rw [restrictedEntry, e]
    rfl
  have hne : ∀ a ∈ lines.map fun l => (restrictedEntry l).1, a ≠ [] := by
    intro a ha
    obtain ⟨l, hl, rfl⟩ := List.mem_map.mp ha
    exact (isAddress_restrictedEntry (h l hl).1 (h l hl).2).ne
  rw [restrictedOf, mapM_eq_filterMap hex, hmap, Option.map_some,
    List.filter_eq_self.mpr fun a ha => decide_eq_true (hne a ha)]

/-- `f"{addr}\tREJECT"`. -/
def rejectLine (a : Str) : Str := a ++ '\t' :: "REJECT".toList

theorem noSpace_reject : NoSpace "REJECT".toList := by decide

theorem isLine_rejectLine (h : IsAddress a) :
    IsLine (rejectLine a) ∧ (rejectLine a).head? ≠ some '#' :=
  isLine_address h noSpace_reject.trim noSpace_reject.oneLine (by decide)

theorem restrictedEntry_rejectLine (h : IsAddress a) :
    restrictedEntry (rejectLine a) = rejected a := by
  have hn : normalise a = a := by
    rw [normalise, h.noSpace.strip_eq, lower_of_low h.low]
  rw [restrictedEntry, restrictedAddress, rejectLine, words_word h.noSpace h.ne (by decide),
    split1_word (by decide) h.noSpace h.ne (by decide) fun c hc => noSpace_reject.trim c (.inl hc),
    List.head?_cons, Option.map_some, hn]
  rfl

/-- The addresses that are written, each once, in order. -/
def written (addresses : List Str) : List Str := addresses.dedup.insertionSort (· ≤ ·)

theorem mem_written {addresses : List Str} : a ∈ written addresses ↔ a ∈ addresses := by
  rw [written, List.mem_insertionSort, List.mem_dedup]

/-- What is read of written addresses. -/
theorem entries_written {addresses : List Str} (h : ∀ a ∈ addresses, IsAddress a) :
    (textLines (managed (restrictionLines addresses))).map restrictedEntry =
      (written addresses).map rejected := by
  have hlines : textLines (managed (restrictionLines addresses)) = restrictionLines addresses := by
    rw [textLines_managed, flatMap_textLines]
    intro l hl
    obtain ⟨a, ha, rfl⟩ := List.mem_map.mp hl
    exact isLine_rejectLine (h a (mem_written.mp ha))
  rw [hlines, restrictionLines, List.map_map]
  exact List.map_congr_left fun a ha => restrictedEntry_rejectLine (h a (mem_written.mp ha))

end

/-! ## Order -/

section
variable {addresses : List Str} {a : Str}

theorem sorted_written (addresses : List Str) : (written addresses).Pairwise (· ≤ ·) :=
  List.pairwise_insertionSort _ _

theorem nodup_written (addresses : List Str) : (written addresses).Nodup :=
  (List.perm_insertionSort _ _).nodup_iff.mpr addresses.nodup_dedup

/-- Lists with the same members are written alike. -/
theorem written_congr {others : List Str} (h : ∀ a, a ∈ addresses ↔ a ∈ others) :
    written addresses = written others := by
  have hperm : (written addresses).Perm (written others) :=
    (List.perm_ext_iff_of_nodup (nodup_written _) (nodup_written _)).mpr fun a => by
      rw [mem_written, mem_written, h]
  exact hperm.eq_of_pairwise (fun a b _ _ => le_antisymm) (sorted_written _) (sorted_written _)

theorem written_written (addresses : List Str) : written (written addresses) = written addresses :=
  written_congr fun _ => mem_written

/-- A new address goes to its place. -/
theorem inserted_written (h : a ∉ addresses) :
    Inserted id a (written addresses) (written (addresses ++ [a])) := by
  have hins : Inserted id a ((written addresses).insertionSort (byKey id))
      ((written addresses ++ [a]).insertionSort (byKey id)) :=
    inserted_insertionSort fun b hb (e : b = a) => h (mem_written.mp (e ▸ hb))
  have hself : (written addresses).insertionSort (byKey id) = written addresses :=
    (sorted_written addresses).insertionSort_eq
  have hnodup : (written addresses ++ [a]).Nodup := by
    refine List.nodup_append.mpr ⟨nodup_written _, List.nodup_singleton a, fun b hb c hc e => ?_⟩
    rw [List.mem_singleton.mp hc] at e
    exact h (mem_written.mp (e ▸ hb))
  have hwritten : (written addresses ++ [a]).insertionSort (byKey id) =
      written (addresses ++ [a]) := by
    have e : written (addresses ++ [a]) = written (written addresses ++ [a]) :=
      written_congr fun b => by simp [mem_written]
    have hd : (written addresses ++ [a]).dedup = written addresses ++ [a] := hnodup.dedup
    rw [e]
    show _ = (written addresses ++ [a]).dedup.insertionSort (· ≤ ·)
    rw [hd]
    rfl
  rwa [hself, hwritten] at hins

theorem written_filter (a : Str) (addresses : List Str) :
    written (addresses.filter (· ≠ a)) = (written addresses).filter (· ≠ a) := by
  have hperm : (written (addresses.filter (· ≠ a))).Perm ((written addresses).filter (· ≠ a)) :=
    (List.perm_ext_iff_of_nodup (nodup_written _) ((nodup_written _).filter _)).mpr fun b => by
      simp [mem_written]
  exact hperm.eq_of_pairwise (fun a b _ _ => le_antisymm) (sorted_written _)
    ((sorted_written addresses).filter _)

end

end MailserverUi.L1.Restrictions
