import MailserverUi.L1Encoding.SystemAliases
import MailserverUi.L3Service.FlatFiles
import MailserverUi.L4App.RegexAliasOrder

/-!
# Aliases, written and read back

The targets of an alias are free text, joined with commas into one line of a
file. A regex is free text too, up to the first blank of its line.

Results:
* `system_iff`: a created system alias is listed in its place, and gone after a
  deletion, exactly when no target holds a comma or a line boundary.
* `two_targets`: a target of two addresses is read as two targets.
* `regex_iff`: the same of a regex alias, whose pattern must hold no blank.
* `cut_pattern`: a pattern with a blank is listed as another one.
-/
namespace MailserverUi.L4.AliasReadBack

open Py L1.ServerFiles L1.ConfigText L1.SystemAliases L2.Errors L2.Container
open L3.MailserverService L3.FlatFiles

/-! ## System aliases -/

/-- The next list is the earlier one with `r` in its place, and a deletion of `r`
brings the earlier one back. -/
structure SystemReadsBack (r : SystemAlias) (s s' : Files) : Prop where
  created : ∃ before after, listSystemAliases.run box s = (.ok before, s) ∧
    listSystemAliases.run box s' = (.ok after, s') ∧ Inserted SystemAlias.name r before after
  deleted : ∀ name, normalise name = r.name → ∃ s'',
    (deleteSystemAlias name).run box s' = (.ok (), s'') ∧
    (listSystemAliases.run box s'').1 = (listSystemAliases.run box s).1

/-- No target, stripped, is read as something else. -/
def PlainTargets (targets : List Str) : Prop := ∀ t ∈ stripped targets, ',' ∉ t ∧ OneLine t

instance (targets : List Str) : Decidable (PlainTargets targets) :=
  inferInstanceAs (Decidable (∀ t ∈ stripped targets, ',' ∉ t ∧ OneLine t))

section
variable {s s' : Files} {name : Str} {targets : List Str} {r : SystemAlias}

/-- What a successful call found and wrote. -/
theorem created_system (h : (createSystemAlias name targets).run box s = (.ok r, s')) :
    r = ⟨normalise name, stripped targets⟩ ∧ isAliasName (normalise name) = true ∧ r.targets ≠ [] ∧
      (∀ a ∈ systemAliases s, a.name ≠ r.name) ∧
      s' = put s systemAliasesFilename (systemAliasLines (systemAliases s ++ [r])) := by
  rw [run_createSystemAlias] at h
  split at h
  · cases h
  · rename_i hname
    split at h
    · cases h
    · rename_i hne
      split at h
      · cases h
      · rename_i hnew
        cases h
        exact ⟨rfl, by simpa using hname, hne, fun a ha e => hnew ⟨a, ha, e⟩, rfl⟩

theorem systemAliases_put {t : Files} {aliases : List SystemAlias} (h : ∀ a ∈ aliases, IsAlias a) :
    systemAliases (put t systemAliasesFilename (systemAliasLines aliases)) = sortByName aliases := by
  rw [systemAliases, lines_put, ← textLines_managed, systemAliasesOf_written h]

theorem sorted_systemAliases (s : Files) :
    (systemAliases s).Pairwise (byKey SystemAlias.name) := sorted_sortByName _

theorem isAlias_of_systemAliases : ∀ a ∈ systemAliases s, IsAlias a := fun _ => isAlias_of_mem

/-- A name of the allowed characters is read as it was written. -/
theorem isAlias_of_plain (hn : isAliasName r.name = true) (hnorm : L1.MailFiles.IsNormal r.name)
    (hne : r.targets ≠ []) (ht : ∀ t ∈ r.targets, IsTarget t) : IsAlias r := by
  simp only [isAliasName, Bool.and_eq_true, decide_eq_true_eq, List.all_eq_true, Bool.or_eq_true] at hn
  have hclass : ∀ c ∈ r.name, c.isAlphanum = true ∨ c ∈ ['_', '.', '-', '/'] := by
    intro c hc
    refine (hn.2 c hc).imp id fun hm => ?_
    simp only [List.mem_cons, List.not_mem_nil, or_false] at hm ⊢
    tauto
  have hkey := IsKey.of_class hn.1 hclass
  refine ⟨hn.1, fun hc => ?_, hnorm, hkey.noSpace.oneLine, fun e => ?_, hne, ht⟩
  · rcases hn.2 _ hc with h | h
    · exact absurd h (by decide)
    · exact absurd h (by decide)
  · exact hkey.noHash (List.mem_of_mem_head? e)

theorem readsBack_of_isAlias (h : (createSystemAlias name targets).run box s = (.ok r, s'))
    (hr : IsAlias r) : SystemReadsBack r s s' := by
  obtain ⟨-, -, -, hnew, hput⟩ := created_system h
  have hall : ∀ a ∈ systemAliases s ++ [r], IsAlias a := by
    intro a ha
    rcases List.mem_append.mp ha with ha | ha
    · exact isAlias_of_systemAliases a ha
    · rw [List.mem_singleton.mp ha]
      exact hr
  have hlist : systemAliases s' = sortByName (systemAliases s ++ [r]) := by
    rw [hput, systemAliases_put hall]
  have hins : Inserted SystemAlias.name r (systemAliases s) (systemAliases s') := by
    have : Inserted SystemAlias.name r _ _ := inserted_insertionSort hnew
    rw [(sorted_systemAliases s).insertionSort_eq] at this
    rw [hlist]
    exact this
  refine ⟨⟨_, _, run_listSystemAliases, run_listSystemAliases, hins⟩, fun n hn => ?_⟩
  have hd := run_deleteSystemAlias (s := s') n
  have hrest : (systemAliases s').filter (fun a => a.name ≠ normalise n) = systemAliases s := by
    rw [hn]
    exact hins.filter fun b => by simp
  rw [if_neg fun hall => hall r (hins.mem.mpr (.inl rfl)) hn.symm, hrest] at hd
  refine ⟨_, hd, ?_⟩
  rw [run_listSystemAliases, run_listSystemAliases, systemAliases_put isAlias_of_systemAliases,
    sortByName_of_sorted (sorted_systemAliases s)]

end

/-- A created system alias is listed as it was returned, and a deletion takes it
away again, exactly when no target holds a comma or a line boundary. -/
theorem system_iff (s s' : Files) (name : Str) (targets : List Str) (r : SystemAlias)
    (h : (createSystemAlias name targets).run box s = (.ok r, s')) :
    SystemReadsBack r s s' ↔ PlainTargets targets := by
  obtain ⟨hr, hname, hne, -, -⟩ := created_system h
  constructor
  · rintro ⟨⟨before, after, -, ha, hins⟩, -⟩ t ht
    rw [run_listSystemAliases] at ha
    cases ha
    have hm := isAlias_of_systemAliases r (hins.mem.mpr (.inl rfl))
    have htarget := hm.target t (by rw [hr]; exact ht)
    exact ⟨htarget.noComma, htarget.oneLine⟩
  · intro hp
    have hname' : r.name = normalise name := by rw [hr]
    have hts : r.targets = stripped targets := by rw [hr]
    refine readsBack_of_isAlias h (isAlias_of_plain ?_ ?_ hne fun t ht => ?_)
    · rwa [hname']
    · rw [hname']
      exact L1.MailFiles.isNormal_normaliseEmail name
    · rw [hts] at ht
      obtain ⟨hne, htrim, -⟩ := mem_stripped ht
      exact ⟨hne, (hp t ht).1, htrim, (hp t ht).2⟩

/-- Files with nothing but the system aliases. -/
def systemFile (content : String) : Files := fun p =>
  if p = configPath systemAliasesFilename then some content.toList else none

theorem system_iff_root :
    ∃ r s', (createSystemAlias " Root ".toList [" a@x.org".toList, "|/bin/f -x".toList]).run box
        (systemFile "# ours\nabuse : b@x.org,\nzoe: z@x.org\n") = (.ok r, s') ∧
      SystemReadsBack r (systemFile "# ours\nabuse : b@x.org,\nzoe: z@x.org\n") s' ∧
      (listSystemAliases.run box s').1.toOption = some [⟨"abuse".toList, ["b@x.org".toList]⟩,
        ⟨"root".toList, ["a@x.org".toList, "|/bin/f -x".toList]⟩,
        ⟨"zoe".toList, ["z@x.org".toList]⟩] := by
  obtain ⟨r, hr⟩ := exists_ok (r := ((createSystemAlias " Root ".toList
    [" a@x.org".toList, "|/bin/f -x".toList]).run box
      (systemFile "# ours\nabuse : b@x.org,\nzoe: z@x.org\n")).1) (by decide +kernel)
  refine ⟨r, _, Prod.ext hr rfl, (system_iff _ _ _ _ r (Prod.ext hr rfl)).mpr (by decide +kernel),
    by decide +kernel⟩

/-- Two addresses in one target. -/
def pair : SystemAlias := ⟨"root".toList, ["a@x.org,b@x.org".toList]⟩

/-- The files after its creation. -/
def afterPair : Files := ((createSystemAlias pair.name pair.targets).run box (systemFile "")).2

/-- One target is returned, and two are listed. -/
theorem two_targets :
    (createSystemAlias pair.name pair.targets).run box (systemFile "") = (.ok pair, afterPair) ∧
      (listSystemAliases.run box afterPair).1.toOption =
        some [⟨"root".toList, ["a@x.org".toList, "b@x.org".toList]⟩] ∧
      ¬ SystemReadsBack pair (systemFile "") afterPair := by
  have hlist : (listSystemAliases.run box afterPair).1.toOption =
      some [⟨"root".toList, ["a@x.org".toList, "b@x.org".toList]⟩] := by decide +kernel
  refine ⟨Prod.ext (by decide +kernel) rfl, hlist, ?_⟩
  rintro ⟨⟨before, after, -, ha, hins⟩, -⟩
  rw [ha] at hlist
  have hm := hins.mem.mpr (.inl rfl)
  rw [Option.some.inj hlist] at hm
  exact absurd hm (by decide)

/-! ## Regex aliases -/

section
open RegexAliasOrder L1.RegexAliases

/-- The next list is the earlier one with `r` in its place, and a deletion of its
pattern brings the earlier one back. -/
structure RegexReadsBack (r : RegexAlias) (s s' : Files) : Prop where
  created : ∃ before after, listRegexAliases.run box s = (.ok before, s) ∧
    listRegexAliases.run box s' = (.ok after, s') ∧ Inserted RegexAlias.pattern r before after
  deleted : ∃ s'', (deleteRegexAlias r.pattern).run box s' = (.ok (), s'') ∧
    (listRegexAliases.run box s'').1 = (listRegexAliases.run box s).1

/-- A pattern of one word, and no target that is read as something else. -/
structure PlainRegex (pattern : Str) (targets : List Str) : Prop where
  pattern : NoSpace (strip pattern)
  targets : ∀ t ∈ normalised targets, ',' ∉ t ∧ OneLine t

variable {s s' : Files} {compile : Str → Compiled} {pattern : Str} {targets : List Str}
  {r : RegexAlias}

theorem run_listRegexAliases : listRegexAliases.run box s = (.ok (listed s), s) := by
  have h := run_listRegexAliases_bind (s := s) (Prog.pure : List RegexAlias → Io (List RegexAlias))
  rw [Prog.run_bind] at h
  rcases hr : listRegexAliases.run box s with ⟨e | l, t⟩
  · rw [hr] at h
    cases h
  · rw [hr] at h
    exact h

/-- A pattern that is accepted begins with a slash, and there are targets. -/
theorem accepted_regex (h : (createRegexAlias compile pattern targets).run box s = (.ok r, s')) :
    (strip pattern).head? = some '/' ∧ normalised targets ≠ [] := by
  unfold createRegexAlias at h
  rw [Prog.run_bind] at h
  cases hv : (validateRegexPattern compile pattern).run box s with
  | mk o s₁ =>
    rw [hv] at h
    cases o with
    | error e => cases h
    | ok p =>
      dsimp only at h
      rw [Prog.run_raiseIf_bind] at h
      split at h
      · cases h
      · rename_i hne
        refine ⟨?_, hne⟩
        cases hb : patternBody (strip pattern) with
        | none =>
          unfold validateRegexPattern at hv
          dsimp only at hv
          rw [hb] at hv
          cases hv
        | some body =>
          unfold patternBody at hb
          split at hb
          · rename_i rest e
            rw [e]
            rfl
          · cases hb

theorem mem_normalised {ts : List Str} {t : Str} (h : t ∈ normalised ts) :
    t ≠ [] ∧ L1.MailFiles.IsNormal t := by
  obtain ⟨u, hu, rfl⟩ := List.mem_map.mp h
  have hne : strip u ≠ [] := by simpa using (List.mem_filter.mp hu).2
  exact ⟨mt lower_eq_nil.mp hne, L1.MailFiles.isNormal_normaliseEmail u⟩

theorem isEntry_of_plain (h : (createRegexAlias compile pattern targets).run box s = (.ok r, s'))
    (hp : PlainRegex pattern targets) : IsEntry r := by
  obtain ⟨hhead, hts⟩ := accepted_regex h
  obtain ⟨rfl, -, -⟩ := run_createRegexAlias h
  refine ⟨fun e => ?_, hp.pattern, ?_, hts, fun t ht => ?_⟩
  · have e : strip pattern = [] := e
    rw [e] at hhead
    cases hhead
  · show (strip pattern).head? ≠ some '#'
    rw [hhead]
    decide
  · obtain ⟨hne, hn⟩ := mem_normalised ht
    exact ⟨hne, (hp.targets t ht).1, hn, (hp.targets t ht).2⟩

theorem listed_of_sorted {t : Files} {es : List RegexAlias} (he : entries t = es)
    (h : ∀ a ∈ es, IsEntry a) : listed t = es.insertionSort byPattern := by
  rw [listed, he, List.filter_eq_self.mpr fun a ha =>
    decide_eq_true ⟨(h a ha).ne, (h a ha).targets_ne⟩]

theorem sorted_listed (s : Files) : (listed s).Pairwise byPattern := List.pairwise_insertionSort _ _

theorem readsBack_of_isEntry (h : (createRegexAlias compile pattern targets).run box s = (.ok r, s'))
    (hr : IsEntry r) : RegexReadsBack r s s' := by
  obtain ⟨e, hnew, -⟩ := run_createRegexAlias h
  have hpat : r.pattern = strip pattern := by rw [e]
  have hstrip : strip r.pattern = r.pattern := by rw [hpat, strip_eq_self (trim_strip _)]
  rw [← hpat] at hnew
  have hall : ∀ a ∈ listed s ++ [r], IsEntry a := by
    intro a ha
    rcases List.mem_append.mp ha with ha | ha
    · exact isEntry_of_mem_listed ha
    · rw [List.mem_singleton.mp ha]
      exact hr
  have hline : entriesOf (universalNewlines (formatRegexAlias r ++ ['\n'])) = [r] := by
    have hone := entriesOf_managed_append (List.forall_mem_nil IsEntry) (formatRegexAlias r ++ ['\n'])
    have hw : managed ([].map formatRegexAlias) ++ (formatRegexAlias r ++ ['\n']) =
        managed ([r].map formatRegexAlias) := by
      simp [managed, unlines]
    rw [hw, entriesOf_managed (by simpa using hr), List.nil_append] at hone
    exact hone.symm
  have hlist : listed s' = (listed s ++ [r]).insertionSort byPattern :=
    listed_of_sorted (by rw [entries_created h, hline]) hall
  have hins : Inserted RegexAlias.pattern r (listed s) (listed s') := by
    have : Inserted RegexAlias.pattern r _ _ := inserted_insertionSort hnew
    have hs : (listed s).insertionSort (byKey RegexAlias.pattern) = listed s :=
      (sorted_listed s).insertionSort_eq
    rw [hs] at this
    rw [hlist]
    exact this
  refine ⟨⟨_, _, run_listRegexAliases, run_listRegexAliases, hins⟩, ?_⟩
  have hd := run_deleteRegexAlias_eq (s := s') r.pattern
  rw [hstrip, if_neg fun hall => hall r (hins.mem.mpr (.inl rfl)) rfl] at hd
  refine ⟨_, hd, ?_⟩
  have hothers : others r.pattern (listed s') = listed s := hins.filter fun b => by simp
  rw [run_listRegexAliases, run_listRegexAliases]
  refine congrArg Except.ok ((listed_of_sorted ?_ fun a => isEntry_of_mem_listed).trans
    (sorted_listed s).insertionSort_eq)
  rw [entries_deleted hd, hstrip, hothers]

/-- A created regex alias is listed as it was returned, and a deletion takes it
away again, exactly when its pattern holds no blank, and no target a comma or a
line boundary. -/
theorem regex_iff (s s' : Files) (compile : Str → Compiled) (pattern : Str) (targets : List Str)
    (r : RegexAlias) (h : (createRegexAlias compile pattern targets).run box s = (.ok r, s')) :
    RegexReadsBack r s s' ↔ PlainRegex pattern targets := by
  constructor
  · rintro ⟨⟨before, after, -, ha, hins⟩, -⟩
    rw [run_listRegexAliases] at ha
    cases ha
    have hm := isEntry_of_mem_listed (hins.mem.mpr (.inl rfl))
    obtain ⟨rfl, -, -⟩ := run_createRegexAlias h
    exact ⟨hm.noSpace, fun t ht => ⟨(hm.target t ht).2.1, (hm.target t ht).2.2.2⟩⟩
  · intro hp
    exact readsBack_of_isEntry h (isEntry_of_plain h hp)

/-- An entry without targets, and two that are not sorted. -/
def regexFile : Files := fileWith "/^z/ one@x.org\n/^lost/\n/^m/ m@x.org, n@x.org\n"

theorem regex_iff_info :
    ∃ r s', (createRegexAlias compiles " /^info#?$/i ".toList [" A@X.org ".toList, " ".toList]).run box
        regexFile = (.ok r, s') ∧ RegexReadsBack r regexFile s' ∧
      (listRegexAliases.run box s').1.toOption = some [⟨"/^info#?$/i".toList, ["a@x.org".toList]⟩,
        ⟨"/^m/".toList, ["m@x.org".toList, "n@x.org".toList]⟩,
        ⟨"/^z/".toList, ["one@x.org".toList]⟩] := by
  obtain ⟨r, hr⟩ := exists_ok (r := ((createRegexAlias compiles " /^info#?$/i ".toList
    [" A@X.org ".toList, " ".toList]).run box regexFile).1) (by decide +kernel)
  have hplain : PlainRegex " /^info#?$/i ".toList [" A@X.org ".toList, " ".toList] :=
    ⟨by decide +kernel, by decide +kernel⟩
  exact ⟨r, _, Prod.ext hr rfl, (regex_iff _ _ compiles _ _ r (Prod.ext hr rfl)).mpr hplain,
    by decide +kernel⟩

/-- A pattern with a blank. -/
def spaced : RegexAlias := ⟨"/^a b$/".toList, ["c@x.org".toList]⟩

/-- The files after its creation. -/
def afterSpaced : Files :=
  ((createRegexAlias compiles spaced.pattern spaced.targets).run box (fileWith "")).2

/-- The pattern is listed up to the blank, and that of the answer cannot be
deleted. -/
theorem cut_pattern :
    (createRegexAlias compiles spaced.pattern spaced.targets).run box (fileWith "") =
        (.ok spaced, afterSpaced) ∧
      (listRegexAliases.run box afterSpaced).1.toOption =
        some [⟨"/^a".toList, ["b$/\tc@x.org".toList]⟩] ∧
      ((deleteRegexAlias spaced.pattern).run box afterSpaced).1 =
        .error (notFound "Regex alias" spaced.pattern) ∧
      ¬ RegexReadsBack spaced (fileWith "") afterSpaced := by
  have hdel : ((deleteRegexAlias spaced.pattern).run box afterSpaced).1 =
      .error (notFound "Regex alias" spaced.pattern) := by decide +kernel
  refine ⟨Prod.ext (by decide +kernel) rfl, by decide +kernel, hdel, ?_⟩
  rintro ⟨-, s'', hrun, -⟩
  rw [hrun] at hdel
  cases hdel

end

end MailserverUi.L4.AliasReadBack
