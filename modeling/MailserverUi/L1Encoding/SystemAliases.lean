import MailserverUi.L1Encoding.ConfigText

/-!
# Lines of the system alias file

An alias is a name and its targets, `name: t1, t2`. What is listed is what is
parsed, less the lines without a name or a target, sorted by name, and a listed
alias may be written as a line again.

Results:
* `isAlias_of_mem`: a listed alias may be written.
* `systemAliasesOf_written`: written aliases are read back, sorted.
-/
namespace MailserverUi.L1.SystemAliases

open Py MailFiles ServerFiles ConfigText

/-- A target that is read as it was written. -/
structure IsTarget (t : Str) : Prop where
  ne : t ≠ []
  noComma : ',' ∉ t
  trim : Trim t
  oneLine : OneLine t

/-- A listed alias. -/
structure IsAlias (a : SystemAlias) : Prop where
  ne : a.name ≠ []
  noColon : ':' ∉ a.name
  normal : IsNormal a.name
  oneLine : OneLine a.name
  head : a.name.head? ≠ some '#'
  targets_ne : a.targets ≠ []
  target : ∀ t ∈ a.targets, IsTarget t

/-- A line that is listed: it has a name and a target. -/
def Listed (a : SystemAlias) : Prop := a.name ≠ [] ∧ a.targets ≠ []

instance (a : SystemAlias) : Decidable (Listed a) := inferInstanceAs (Decidable (_ ∧ _))

theorem IsAlias.listed {a : SystemAlias} (h : IsAlias a) : Listed a := ⟨h.ne, h.targets_ne⟩

/-! ## What is read -/

theorem mem_stripped {ts : List Str} {t : Str} (h : t ∈ stripped ts) :
    t ≠ [] ∧ Trim t ∧ ∃ u ∈ ts, strip u = t := by
  obtain ⟨u, hu, rfl⟩ := List.mem_map.mp h
  obtain ⟨hm, hne⟩ := List.mem_filter.mp hu
  exact ⟨by simpa using hne, trim_strip u, u, hm, rfl⟩

theorem isTarget_of_mem {text t : Str} (ho : OneLine text) (h : t ∈ stripped (split ',' text)) :
    IsTarget t := by
  obtain ⟨hne, ht, u, hu, rfl⟩ := mem_stripped h
  obtain ⟨hc, hsub⟩ := mem_split hu
  exact ⟨hne, fun hm => hc (mem_strip hm), ht, (ho.mono hsub).strip⟩

theorem isAlias_of_parse {l : Str} (hl : IsLine l) (hh : l.head? ≠ some '#')
    (h : Listed (parseSystemAlias l)) : IsAlias (parseSystemAlias l) where
  ne := h.1
  noColon hm := not_mem_before ':' l (mark_of_mem_normaliseEmail (by decide) hm)
  normal := isNormal_normaliseEmail _
  oneLine := oneLine_normaliseEmail (hl.oneLine.mono fun _ => before_subset)
  head := head?_before hl hh
  targets_ne := h.2
  target _ ht := isTarget_of_mem (hl.oneLine.mono fun _ => after_subset) ht

theorem mem_systemAliasesOf {lines : List Str} {a : SystemAlias} :
    a ∈ systemAliasesOf lines ↔ (∃ l ∈ lines, parseSystemAlias l = a) ∧ Listed a := by
  rw [systemAliasesOf, sortByName, List.mem_insertionSort, List.mem_filter, List.mem_map,
    decide_eq_true_eq]
  rfl

/-- A listed alias may be written. -/
theorem isAlias_of_mem {text : Str} {a : SystemAlias} (h : a ∈ systemAliasesOf (textLines text)) :
    IsAlias a := by
  obtain ⟨⟨l, hl, rfl⟩, hlisted⟩ := mem_systemAliasesOf.mp h
  obtain ⟨h₁, h₂⟩ := isLine_of_mem_textLines hl
  exact isAlias_of_parse h₁ h₂ hlisted

/-! ## What is written -/

section
variable {a : SystemAlias}

/-- A blank before each target, and commas alone between them. -/
theorem blank_join {ts : List Str} (h : ts ≠ []) :
    ' ' :: join ", ".toList ts = join [','] (ts.map (' ' :: ·)) := by
  induction ts with
  | nil => exact absurd rfl h
  | cons t ts ih =>
    by_cases hts : ts = []
    · subst hts
      simp [join]
    · have hts' : ts.map (' ' :: ·) ≠ [] := by simpa using hts
      rw [List.map_cons, join_cons _ _ hts, join_cons _ _ hts', ← ih hts]
      have e : ", ".toList = [',', ' '] := by decide
      simp [e]

theorem stripped_split {ts : List Str} (hne : ts ≠ []) (h : ∀ t ∈ ts, IsTarget t) :
    stripped (split ',' (' ' :: join ", ".toList ts)) = ts := by
  have hc : ∀ u ∈ ts.map (' ' :: ·), ',' ∉ u := by
    intro u hu
    obtain ⟨t, ht, rfl⟩ := List.mem_map.mp hu
    rw [List.mem_cons, not_or]
    exact ⟨by decide, (h t ht).noComma⟩
  have hs : split ',' (join [','] (ts.map (' ' :: ·))) = ts.map (' ' :: ·) :=
    split_join (by simpa using hne) hc
  have hstrip : ∀ t ∈ ts, strip (' ' :: t) = t := fun t ht => by
    rw [strip_cons_space t (by decide), strip_eq_self (h t ht).trim]
  rw [blank_join hne, hs, stripped, List.filter_eq_self.mpr, List.map_map]
  · exact (List.map_congr_left hstrip).trans (List.map_id ts)
  · intro u hu
    obtain ⟨t, ht, rfl⟩ := List.mem_map.mp hu
    rw [hstrip t ht]
    simpa using (h t ht).ne

theorem isLine_formatSystemAlias (h : IsAlias a) :
    IsLine (formatSystemAlias a) ∧ (formatSystemAlias a).head? ≠ some '#' := by
  obtain ⟨ht, hj⟩ : Trim (join ", ".toList a.targets) ∧ join ", ".toList a.targets ≠ [] :=
    trim_join h.targets_ne fun t hm => ⟨(h.target t hm).ne, (h.target t hm).trim⟩
  have ho : OneLine (join ", ".toList a.targets) :=
    oneLine_join (by decide) fun t hm => (h.target t hm).oneLine
  have e : formatSystemAlias a = a.name ++ [':', ' '] ++ join ", ".toList a.targets := by
    simp [formatSystemAlias]
  rw [e]
  refine ⟨⟨by simp, (h.oneLine.append (by decide)).append ho,
    Trim.append _ h.normal.trim ht h.ne hj⟩, ?_⟩
  rw [List.append_assoc, List.head?_append_of_ne_nil _ h.ne]
  exact h.head

theorem parseSystemAlias_format (h : IsAlias a) : parseSystemAlias (formatSystemAlias a) = a := by
  rw [parseSystemAlias, formatSystemAlias, before_append _ h.noColon, after_append _ h.noColon,
    stripped_split h.targets_ne h.target]
  exact congrArg (SystemAlias.mk · a.targets) h.normal.eq

end

/-! ## The list -/

theorem sortByName_of_sorted {aliases : List SystemAlias}
    (h : aliases.Pairwise (byKey SystemAlias.name)) : sortByName aliases = aliases :=
  h.insertionSort_eq

theorem sorted_sortByName (aliases : List SystemAlias) :
    (sortByName aliases).Pairwise (byKey SystemAlias.name) := List.pairwise_insertionSort _ _

/-- Written aliases are read back, sorted. -/
theorem systemAliasesOf_written {aliases : List SystemAlias} (h : ∀ a ∈ aliases, IsAlias a) :
    systemAliasesOf (textLines (managed (systemAliasLines aliases))) = sortByName aliases := by
  have hm {a : SystemAlias} (ha : a ∈ sortByName aliases) : IsAlias a :=
    h a ((List.mem_insertionSort _).mp ha)
  have hlines : textLines (managed (systemAliasLines aliases)) = systemAliasLines aliases := by
    rw [textLines_managed, flatMap_textLines]
    intro l hl
    obtain ⟨a, ha, rfl⟩ := List.mem_map.mp hl
    exact isLine_formatSystemAlias (hm ha)
  have hparse : (systemAliasLines aliases).map parseSystemAlias = sortByName aliases := by
    rw [systemAliasLines, List.map_map]
    exact (List.map_congr_left fun a ha => parseSystemAlias_format (hm ha)).trans (List.map_id _)
  have hall : (sortByName aliases).filter (fun a => a.name ≠ [] ∧ a.targets ≠ []) =
      sortByName aliases := List.filter_eq_self.mpr fun a ha => decide_eq_true (hm ha).listed
  rw [hlines, systemAliasesOf, hparse, hall, sortByName_of_sorted (sorted_sortByName aliases)]

end MailserverUi.L1.SystemAliases
