import MailserverUi.L1Encoding.ConfigText

/-!
# Lines of the regex alias file

An entry is a pattern and its targets. What is listed is what is parsed, less
the entries without targets, sorted by pattern, and a listed entry may be
written as a line again.

Results:
* `entriesOf_managed`: entries that were parsed once are parsed again from
  their lines, in the order of the lines.
* `regexAliasesOf_configLines`: what is listed.
-/
namespace MailserverUi.L1.RegexAliases

open Py MailFiles ServerFiles ConfigText

/-- The entries of a text, as `_parse_regex_alias` reads its lines. -/
def entriesOf (content : Str) : List RegexAlias := (configLines content).filterMap parseRegexAlias

/-- `f"{alias.pattern}\t{','.join(alias.targets)}"`. -/
def formatRegexAlias (a : RegexAlias) : Str := a.pattern ++ '\t' :: join [','] a.targets

/-- A listed entry: it may be written as a line. -/
structure IsEntry (a : RegexAlias) : Prop where
  ne : a.pattern ≠ []
  noSpace : NoSpace a.pattern
  head : a.pattern.head? ≠ some '#'
  targets_ne : a.targets ≠ []
  target : ∀ t ∈ a.targets, t ≠ [] ∧ ',' ∉ t ∧ IsNormal t ∧ OneLine t

/-! ## What is parsed -/

/-- Every line has an entry. -/
theorem parseRegexAlias_isSome {l : Str} (h : IsLine l) : ∃ a, parseRegexAlias l = some a := by
  obtain ⟨w, rest, e, -⟩ := split1_line h
  exact ⟨_, by rw [parseRegexAlias, e]⟩

theorem isEntry_of_parse {l : Str} {a : RegexAlias} (h : IsLine l) (hh : l.head? ≠ some '#')
    (ha : parseRegexAlias l = some a) (ht : a.targets ≠ []) : IsEntry a := by
  obtain ⟨w, rest, e, hne, hw, hrest⟩ := split1_line h
  have hs : strip w = w := hw.strip_eq
  rw [parseRegexAlias, e, Option.some.injEq] at ha
  subst ha
  refine ⟨by rwa [hs], by rwa [hs], ?_, ht, fun t hm => ?_⟩
  · rw [hs, head?_of_split1 h e]
    exact hh
  · cases rest with
    | nil => cases hm
    | cons r rest => exact mem_aliasTargets hm (hrest r List.mem_cons_self)

/-! ## What is listed -/

/-- An entry that is listed. -/
def Listed (a : RegexAlias) : Prop := a.pattern ≠ [] ∧ a.targets ≠ []

instance (a : RegexAlias) : Decidable (Listed a) := inferInstanceAs (Decidable (_ ∧ _))

def byPattern (a b : RegexAlias) : Prop := a.pattern ≤ b.pattern

instance : DecidableRel byPattern := fun a b => inferInstanceAs (Decidable (a.pattern ≤ b.pattern))

instance : IsTrans RegexAlias byPattern := ⟨fun _ _ _ => le_trans⟩

instance : Std.Total byPattern := ⟨fun a b => le_total a.pattern b.pattern⟩

theorem isEntry_of_listed {content : Str} {a : RegexAlias} (h : a ∈ entriesOf content)
    (hl : Listed a) : IsEntry a := by
  obtain ⟨l, hm, ha⟩ := List.mem_filterMap.mp h
  obtain ⟨h₁, h₂⟩ := isLine_of_mem_configLines hm
  exact isEntry_of_parse h₁ h₂ ha hl.2

/-- Listing does not raise. -/
theorem regexAliasesOf_configLines (content : Str) :
    regexAliasesOf (configLines content) =
      some (((entriesOf content).filter Listed).insertionSort byPattern) := by
  rw [regexAliasesOf, mapM_eq_filterMap fun l hl =>
    parseRegexAlias_isSome (isLine_of_mem_configLines hl).1]
  rfl

/-! ## What is written -/

section
variable {a : RegexAlias}

theorem headed_formatRegexAlias (h : IsEntry a) : Headed (formatRegexAlias a) := by
  obtain ⟨c, t, e⟩ := List.exists_cons_of_ne_nil h.ne
  have hc : isSpace c = false := h.noSpace c (e ▸ List.mem_cons_self)
  have hh : c ≠ '#' := fun hx => h.head (by rw [e, hx]; rfl)
  exact ⟨c, t ++ '\t' :: join [','] a.targets, by rw [formatRegexAlias, e, List.cons_append], hc, hh⟩

theorem oneLine_formatRegexAlias (h : IsEntry a) : OneLine (formatRegexAlias a) := by
  have e : formatRegexAlias a = a.pattern ++ ['\t'] ++ join [','] a.targets := by
    simp [formatRegexAlias]
  rw [e]
  exact (h.noSpace.oneLine.append (by decide)).append
    (oneLine_join (by decide) fun t ht => (h.target t ht).2.2.2)

theorem strip_formatRegexAlias (h : IsEntry a) :
    strip (formatRegexAlias a) = formatRegexAlias a := by
  obtain ⟨ht, hj⟩ := trim_join h.targets_ne fun t hm =>
    ⟨(h.target t hm).1, (h.target t hm).2.2.1.trim⟩
  have e : formatRegexAlias a = a.pattern ++ ['\t'] ++ join [','] a.targets := by
    simp [formatRegexAlias]
  rw [e]
  exact strip_eq_self (h.noSpace.trim.append _ ht h.ne hj)

theorem parseRegexAlias_format (h : IsEntry a) :
    parseRegexAlias (formatRegexAlias a) = some a := by
  obtain ⟨ht, hj⟩ := trim_join h.targets_ne fun t hm =>
    ⟨(h.target t hm).1, (h.target t hm).2.2.1.trim⟩
  have hts : normalised (split ',' (join [','] a.targets)) = a.targets :=
    aliasTargets_join h.targets_ne fun t hm =>
      ⟨(h.target t hm).1, (h.target t hm).2.1, (h.target t hm).2.2.1⟩
  rw [parseRegexAlias, formatRegexAlias,
    split1_word (by decide) h.noSpace h.ne hj fun c hc => ht c (.inl hc)]
  simp only [h.noSpace.strip_eq, List.head?_cons, Option.map_some, Option.getD_some, hts]

end

/-- Entries that were listed are read again from their lines, and then whatever
stands behind them. -/
theorem entriesOf_managed_append {entries : List RegexAlias} (h : ∀ a ∈ entries, IsEntry a)
    (s : Str) :
    entriesOf (universalNewlines (managed (entries.map formatRegexAlias) ++ s)) =
      entries ++ entriesOf (universalNewlines s) := by
  have ho : ∀ l ∈ entries.map formatRegexAlias, OneLine l :=
    List.forall_mem_map.mpr fun a ha => oneLine_formatRegexAlias (h a ha)
  have hh : ∀ l ∈ entries.map formatRegexAlias, Headed l :=
    List.forall_mem_map.mpr fun a ha => headed_formatRegexAlias (h a ha)
  have hread : ∀ a ∈ entries, ((parseRegexAlias ∘ strip) ∘ formatRegexAlias) a = some a := by
    intro a ha
    show parseRegexAlias (strip (formatRegexAlias a)) = some a
    rw [strip_formatRegexAlias (h a ha), parseRegexAlias_format (h a ha)]
  rw [entriesOf, configLines_managed_append ho hh, List.filterMap_append, List.filterMap_map,
    List.filterMap_map, List.filterMap_congr hread, List.filterMap_some, entriesOf]

theorem entriesOf_managed {entries : List RegexAlias} (h : ∀ a ∈ entries, IsEntry a) :
    entriesOf (universalNewlines (managed (entries.map formatRegexAlias))) = entries := by
  have := entriesOf_managed_append h []
  rwa [List.append_nil, show entriesOf (universalNewlines []) = [] from rfl,
    List.append_nil] at this

theorem regexAliasLines_eq (entries : List RegexAlias) :
    regexAliasLines entries = entries.map formatRegexAlias := rfl

end MailserverUi.L1.RegexAliases
