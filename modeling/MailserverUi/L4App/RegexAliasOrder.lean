import MailserverUi.L1Encoding.RegexAliases
import MailserverUi.L3Service.MailserverService

/-!
# The order of the regex aliases

Postfix takes the first entry of `postfix-regexp.cf` whose pattern matches.
`_write_regex_aliases` writes the entries in the order it is given them, but
what it is given is the list view, which is sorted by pattern and leaves out
the entries without targets.

Results:
* `kept_iff`: creating and deleting an entry leaves the others as they were
  exactly when they were sorted before and none of them is lost or added.
* `reordered`: a deletion that changes where another address goes.
-/
namespace MailserverUi.L4.RegexAliasOrder

open Py L1.ServerFiles L1.RegexAliases L2.Errors L2.Container L3.MailserverService

/-- The entries of the file, in its order. -/
def entries (s : Files) : List RegexAlias :=
  entriesOf (s.read (configPath regexAliasesFilename))

/-- What the list view holds. -/
def listed (s : Files) : List RegexAlias := ((entries s).filter Listed).insertionSort byPattern

/-- What Postfix looks up: the targets of the first entry that matches. -/
def lookup (matching : Str → Str → Bool) (address : Str) (es : List RegexAlias) :
    Option (List Str) :=
  (es.find? fun a => matching a.pattern address).map (·.targets)

/-- The entries other than the one with this pattern. -/
def others (pattern : Str) (es : List RegexAlias) : List RegexAlias :=
  es.filter fun a => a.pattern ≠ pattern

/-- The other entries stand as they stood, and an address that the pattern does
not match goes where it went, whatever it is that a pattern matches. -/
structure Kept (pattern : Str) (before after : List RegexAlias) : Prop where
  order : others pattern after = others pattern before
  lookup : ∀ matching address, matching pattern address = false →
    lookup matching address after = lookup matching address before

/-- Those with targets are sorted. Those without stand behind them, and are no
others than what is added: with nothing added there are none. -/
structure InOrder (es added : List RegexAlias) : Prop where
  sorted : (es.filter Listed).Pairwise byPattern
  rest : es = es.filter Listed ++ added

/-- What the line of a new entry is read as, besides the entry. Its targets are
free text. -/
def added (a : RegexAlias) : List RegexAlias :=
  others a.pattern (entriesOf (universalNewlines (formatRegexAlias a ++ ['\n'])))

/-! ## Order -/

theorem lookup_others {matching : Str → Str → Bool} {address pattern : Str}
    (h : matching pattern address = false) (es : List RegexAlias) :
    lookup matching address (others pattern es) = lookup matching address es := by
  unfold lookup others
  rw [List.find?_filter]
  congr 2
  funext a
  by_cases ha : a.pattern = pattern
  · simp [ha, h]
  · simp [ha]

theorem kept_iff_order {pattern : Str} {before after : List RegexAlias} :
    Kept pattern before after ↔ others pattern after = others pattern before := by
  refine ⟨Kept.order, fun h => ⟨h, fun matching address hm => ?_⟩⟩
  rw [← lookup_others hm after, h, lookup_others hm before]

theorem filter_others (pattern : Str) (es : List RegexAlias) :
    (others pattern es).filter Listed = others pattern (es.filter Listed) := by
  unfold others
  rw [List.filter_comm]

/-- The other entries of a sorted list view, and what is added, are those of the
file exactly when these are in order. -/
theorem sorted_append_iff {pattern : Str} {es more : List RegexAlias} :
    others pattern ((es.filter Listed).insertionSort byPattern) ++ more = others pattern es ↔
      InOrder (others pattern es) more := by
  have hsort : others pattern ((es.filter Listed).insertionSort byPattern) =
      (others pattern es).filter Listed ↔
        ((others pattern es).filter Listed).Pairwise byPattern := by
    rw [filter_others]
    exact filter_insertionSort_iff
  constructor
  · intro h
    -- every entry of the list view is listed, so that what is added is not
    have hall : ∀ a ∈ others pattern ((es.filter Listed).insertionSort byPattern), Listed a := by
      intro a ha
      have hm := (List.mem_insertionSort byPattern).mp (List.mem_filter.mp ha).1
      simpa using (List.mem_filter.mp hm).2
    have hlen : (others pattern ((es.filter Listed).insertionSort byPattern)).length =
        ((others pattern es).filter Listed).length := by
      rw [filter_others]
      exact ((List.perm_insertionSort byPattern _).filter _).length_eq
    have hl : others pattern ((es.filter Listed).insertionSort byPattern) ++ more.filter Listed =
        (others pattern es).filter Listed := by
      have hself := List.filter_eq_self.mpr fun a ha => decide_eq_true (hall a ha)
      rw [← h, List.filter_append, hself]
    have hmore : more.filter Listed = [] := by
      have := congrArg List.length hl
      rw [List.length_append, hlen] at this
      exact List.eq_nil_of_length_eq_zero (by omega)
    rw [hmore, List.append_nil] at hl
    exact ⟨hsort.mp hl, by rw [← hl, h]⟩
  · intro h
    rw [hsort.mpr h.sorted]
    exact h.rest.symm

/-- A pattern of one word and targets of one line each add nothing. -/
theorem added_eq_nil {a : RegexAlias} (h : IsEntry a) : added a = [] := by
  have hone := entriesOf_managed_append (List.forall_mem_nil IsEntry) (formatRegexAlias a ++ ['\n'])
  have e : managed ([].map formatRegexAlias) ++ (formatRegexAlias a ++ ['\n']) =
      managed ([a].map formatRegexAlias) := by
    simp [managed, unlines]
  rw [e, entriesOf_managed (by simpa using h), List.nil_append] at hone
  rw [added, ← hone]
  simp [others]

/-! ## What the calls write -/

section
variable {s s' : Files} {compile : Str → Compiled} {pattern : Str} {targets : List Str}
variable {a : RegexAlias}

theorem isEntry_of_mem_listed (h : a ∈ listed s) : IsEntry a := by
  have hm := (List.mem_insertionSort byPattern).mp h
  exact isEntry_of_listed (List.mem_filter.mp hm).1 (by simpa using (List.mem_filter.mp hm).2)

theorem run_listRegexAliases_bind {α : Type} (f : List RegexAlias → Io α) :
    (listRegexAliases >>= f).run box s = (f (listed s)).run box s := by
  have h : listRegexAliases.run box s = (.ok (listed s), s) := by
    show (Prog.ofOption (C := Cmd) (R := Reply) ApiError.internal
      (regexAliasesOf (configLines (s.read (configPath regexAliasesFilename))))).run box s = _
    rw [regexAliasesOf_configLines]
    rfl
  rw [Prog.run_bind, h]

theorem run_validateRegexPattern {p : Str}
    (h : (validateRegexPattern compile pattern).run box s = (.ok p, s')) :
    p = strip pattern ∧ s' = s := by
  unfold validateRegexPattern at h
  dsimp only at h
  split at h
  · cases h
  · split at h
    · cases h
      exact ⟨rfl, rfl⟩
    · cases h
    · cases h

theorem run_createRegexAlias
    (h : (createRegexAlias compile pattern targets).run box s = (.ok a, s')) :
    a = ⟨strip pattern, normalised targets⟩ ∧ (∀ b ∈ listed s, b.pattern ≠ strip pattern) ∧
      s' = s.write regexAliasesFilename (managed (regexAliasLines (listed s ++ [a]))) := by
  unfold createRegexAlias at h
  rw [Prog.run_bind] at h
  cases hv : (validateRegexPattern compile pattern).run box s with
  | mk r s₁ =>
    rw [hv] at h
    cases r with
    | error e => cases h
    | ok p =>
      obtain ⟨rfl, rfl⟩ := run_validateRegexPattern hv
      simp only [Prog.run_raiseIf_bind, run_listRegexAliases_bind] at h
      split at h
      · cases h
      · split at h
        · cases h
        · rename_i hnew
          cases h
          exact ⟨rfl, fun b hb e => hnew ⟨b, hb, e⟩, rfl⟩

theorem run_deleteRegexAlias_eq (pattern : Str) : (deleteRegexAlias pattern).run box s =
    if ∀ a ∈ listed s, a.pattern ≠ strip pattern then
      (.error (notFound "Regex alias" (strip pattern)), s)
    else (.ok (), s.write regexAliasesFilename
      (managed (regexAliasLines (others (strip pattern) (listed s))))) := by
  unfold deleteRegexAlias
  simp only [Prog.run_raiseIf_bind, run_listRegexAliases_bind, List.length_filter_eq_length_iff,
    decide_eq_true_eq]
  rfl

theorem run_deleteRegexAlias (h : (deleteRegexAlias pattern).run box s = (.ok (), s')) :
    s' = s.write regexAliasesFilename
      (managed (regexAliasLines (others (strip pattern) (listed s)))) := by
  rw [run_deleteRegexAlias_eq] at h
  split at h
  · cases h
  · cases h
    rfl

theorem entries_created
    (h : (createRegexAlias compile pattern targets).run box s = (.ok a, s')) :
    entries s' = listed s ++ entriesOf (universalNewlines (formatRegexAlias a ++ ['\n'])) := by
  obtain ⟨-, -, rfl⟩ := run_createRegexAlias h
  have e : managed (regexAliasLines (listed s ++ [a])) =
      managed ((listed s).map formatRegexAlias) ++ (formatRegexAlias a ++ ['\n']) := by
    simp [regexAliasLines_eq, managed, unlines]
  rw [entries, read_write, e, entriesOf_managed_append fun b hb => isEntry_of_mem_listed hb]

theorem entries_deleted (h : (deleteRegexAlias pattern).run box s = (.ok (), s')) :
    entries s' = others (strip pattern) (listed s) := by
  have hall : ∀ b ∈ others (strip pattern) (listed s), IsEntry b := fun b hb =>
    isEntry_of_mem_listed (List.mem_filter.mp hb).1
  rw [run_deleteRegexAlias h, entries, read_write, regexAliasLines_eq, entriesOf_managed hall]

end

/-! ## What is kept -/

/-- A created or deleted entry leaves the others alone exactly when they were in
order: sorted by pattern, with targets, and with nothing more in the line of the
new entry. -/
theorem kept_iff (s s' : Files) (compile : Str → Compiled) (pattern : Str) (targets : List Str)
    (a : RegexAlias) :
    ((createRegexAlias compile pattern targets).run box s = (.ok a, s') →
      (Kept a.pattern (entries s) (entries s') ↔
        InOrder (others a.pattern (entries s)) (added a))) ∧
    ((deleteRegexAlias pattern).run box s = (.ok (), s') →
      (Kept (strip pattern) (entries s) (entries s') ↔
        InOrder (others (strip pattern) (entries s)) [])) := by
  constructor
  · intro h
    have e : others a.pattern (entries s') = others a.pattern (listed s) ++ added a := by
      rw [entries_created h]
      exact List.filter_append _ _
    rw [kept_iff_order, e]
    exact sorted_append_iff
  · intro h
    have e : others (strip pattern) (entries s') = others (strip pattern) (listed s) ++ [] := by
      rw [entries_deleted h, List.append_nil]
      simp [others]
    rw [kept_iff_order, e]
    exact sorted_append_iff

/-- Files with nothing but the regex aliases. -/
def fileWith (content : String) : Files := fun p =>
  if p = configPath regexAliasesFilename then some content.toList else none

/-- `re.compile` of a pattern it accepts. -/
def compiles : Str → Compiled := fun _ => .ok

/-- Sorted, and so left alone. -/
def sortedFile : Files := fileWith "# ours\n/^a/ x@x.org\n/^c/ y@x.org, z@x.org\n"

/-- The files after `/^b/` is created. -/
def afterSorted : Files :=
  ((createRegexAlias compiles "/^b/".toList ["b@x.org".toList]).run box sortedFile).2

/-- `/^b/` is created, and deleted again. -/
theorem kept_iff_sorted :
    ∃ a s₁ s₂, (createRegexAlias compiles "/^b/".toList ["b@x.org".toList]).run box sortedFile =
        (.ok a, s₁) ∧ Kept "/^b/".toList (entries sortedFile) (entries s₁) ∧
      (deleteRegexAlias "/^b/".toList).run box s₁ = (.ok (), s₂) ∧
        Kept "/^b/".toList (entries s₁) (entries s₂) := by
  have h₁ : (createRegexAlias compiles "/^b/".toList ["b@x.org".toList]).run box sortedFile =
      (.ok ⟨"/^b/".toList, ["b@x.org".toList]⟩, afterSorted) := Prod.ext (by decide +kernel) rfl
  have hr₂ : ((deleteRegexAlias "/^b/".toList).run box afterSorted).1 = .ok () := by
    decide +kernel
  have h₂ := Prod.ext (y := (_, _)) hr₂ rfl
  refine ⟨_, _, _, h₁, ?_, h₂, ?_⟩
  · exact ((kept_iff sortedFile _ compiles _ _ _).1 h₁).mpr
      ⟨by decide +kernel, by decide +kernel⟩
  · exact ((kept_iff _ _ compiles "/^b/".toList [] ⟨[], []⟩).2 h₂).mpr
      ⟨by decide +kernel, by decide +kernel⟩

/-- The narrow pattern stands before the wide one, which would be sorted first. -/
def orderedFile : Files := fileWith "/^z/ one@x.org\n/./ all@x.org\n/^m/ m@x.org\n"

/-- A pattern `/^c/` matches what begins with `c`, and `/./` everything. -/
def matchesPattern (pattern address : Str) : Bool :=
  match pattern with
  | ['/', '^', c, '/'] => address.head? = some c
  | _ => pattern = "/./".toList

/-- `/^m/` is deleted, and an address that it does not match goes elsewhere. -/
theorem reordered :
    ∃ s, (deleteRegexAlias "/^m/".toList).run box orderedFile = (.ok (), s) ∧
      others "/^m/".toList (entries orderedFile) =
        [⟨"/^z/".toList, ["one@x.org".toList]⟩, ⟨"/./".toList, ["all@x.org".toList]⟩] ∧
      others "/^m/".toList (entries s) =
        [⟨"/./".toList, ["all@x.org".toList]⟩, ⟨"/^z/".toList, ["one@x.org".toList]⟩] ∧
      matchesPattern "/^m/".toList "zoe@x.org".toList = false ∧
      lookup matchesPattern "zoe@x.org".toList (entries orderedFile) = some ["one@x.org".toList] ∧
      lookup matchesPattern "zoe@x.org".toList (entries s) = some ["all@x.org".toList] := by
  have hbefore : entries orderedFile = [⟨"/^z/".toList, ["one@x.org".toList]⟩,
      ⟨"/./".toList, ["all@x.org".toList]⟩, ⟨"/^m/".toList, ["m@x.org".toList]⟩] := by
    decide +kernel
  have hafter : entries ((deleteRegexAlias "/^m/".toList).run box orderedFile).2 =
      [⟨"/./".toList, ["all@x.org".toList]⟩, ⟨"/^z/".toList, ["one@x.org".toList]⟩] := by
    decide +kernel
  exact ⟨_, Prod.ext (by decide +kernel) rfl,
    (congrArg (others "/^m/".toList) hbefore).trans (by decide +kernel),
    (congrArg (others "/^m/".toList) hafter).trans (by decide +kernel), by decide +kernel,
    (congrArg (lookup matchesPattern "zoe@x.org".toList) hbefore).trans (by decide +kernel),
    (congrArg (lookup matchesPattern "zoe@x.org".toList) hafter).trans (by decide +kernel)⟩

end MailserverUi.L4.RegexAliasOrder
