import MailserverUi.L3Service.ConfigBodies

/-!
# One file under `rspamd/override.d`

A file is written by name, shown in the list that `find` prints, and deleted if
the list has its name. The name is checked with `$`, which lets a final newline
through; the list is cut at line breaks. A write goes through the name with `.tmp`
behind it, and no accepted name is such a one, but a file of the directory may be.

Results:
* `matchesRspamdFilename_iff`: which names are accepted.
* `shownFiles_eq`: what is shown of a tree.
* `removable_iff`: when an accepted file is shown as it was sent and can be
  deleted.
* `overrideFile_iff`: when a name is treated as the pattern says.
-/
namespace MailserverUi.L4.OverrideFiles

open Py L1.ServerFiles L1.RspamdCommands L2.Errors L2.Container L2.ConfigTree
open L3.MailserverService L3.Rspamd L3.ConfigBodies

/-! ## Names -/

/-- One or more of `[A-Za-z0-9_-]`, a dot, and again one or more of them. -/
def FileName (name : Str) : Prop :=
  ∃ base extension, isRspamdName base = true ∧ isRspamdName extension = true ∧
    name = base ++ '.' :: extension

theorem dot_not_mem {name : Str} (h : isRspamdName name = true) : '.' ∉ name := by
  intro hm
  rw [isRspamdName, Bool.and_eq_true, List.all_eq_true] at h
  exact absurd (h.2 '.' hm) (by decide)

theorem isRspamdFilename_iff {name : Str} : isRspamdFilename name = true ↔ FileName name := by
  constructor
  · intro h
    unfold isRspamdFilename at h
    split at h
    · rename_i base extension e
      rw [Bool.and_eq_true] at h
      exact ⟨base, extension, h.1, h.2, (split_eq_pair.mp e).2.2⟩
    · cases h
  · rintro ⟨base, extension, hb, he, rfl⟩
    have hs : split '.' (base ++ '.' :: extension) = [base, extension] :=
      split_eq_pair.mpr ⟨dot_not_mem hb, dot_not_mem he, rfl⟩
    rw [isRspamdFilename, hs]
    exact Bool.and_eq_true_iff.mpr ⟨hb, he⟩

theorem FileName.isWord {name : Str} (h : FileName name) : IsWord name :=
  isWord_of_isRspamdFilename (isRspamdFilename_iff.mpr h)

/-- `$` matches at the end and before a final newline. -/
theorem matchesRspamdFilename_iff {name : Str} :
    matchesRspamdFilename name = true ↔
      FileName name ∨ ∃ base, FileName base ∧ name = base ++ ['\n'] := by
  unfold matchesRspamdFilename
  rw [isRspamdFilename_iff]
  split
  · rename_i hl
    obtain ⟨init, rfl⟩ := List.getLast?_eq_some_iff.mp hl
    rw [List.dropLast_concat]
    constructor
    · exact fun h => .inr ⟨init, h, rfl⟩
    · rintro (h | ⟨base, h, e⟩)
      · exact absurd (h.isWord.noSpace '\n' (List.mem_append_right _ List.mem_cons_self)) (by decide)
      · rw [List.append_cancel_right e]
        exact h
  · rename_i hl
    refine ⟨.inl, ?_⟩
    rintro (h | ⟨base, -, rfl⟩)
    · exact h
    · exact absurd List.getLast?_concat hl

/-! ## What is shown -/

/-- The override files of an answer; `none` where there is no answer. -/
def shownFiles (t : Tree) : Option (List RspamdOverrideFile) :=
  ((getRspamdOverrides.run treeBox t).1.toOption).map RspamdOverrides.overrideFiles

/-- The content of a listed file, as it is read. -/
def contentOf (t : Tree) (rel : Str) : Str :=
  managedBody ((filesOf t).read (configPath (rspamdOverrideFilename rel)))

def filesIn (t : Tree) : List RspamdOverrideFile :=
  (listConfigFiles t rspamdOverrideDir []).map fun rel => ⟨rel, contentOf t rel⟩

theorem shownFiles_eq (t : Tree) : shownFiles t = (commandsOf t).map fun _ => filesIn t := by
  rw [shownFiles, getRspamdOverrides_eq]
  cases commandsOf t <;> rfl

theorem mem_filesIn {t : Tree} {f : RspamdOverrideFile} :
    f ∈ filesIn t ↔
      f.name ∈ listConfigFiles t rspamdOverrideDir [] ∧ f.content = contentOf t f.name := by
  unfold filesIn
  rw [List.mem_map]
  constructor
  · rintro ⟨rel, hrel, rfl⟩
    exact ⟨hrel, rfl⟩
  · rintro ⟨hrel, hc⟩
    exact ⟨f.name, hrel, by rw [← hc]⟩

theorem mem_filesIn_self {t : Tree} {rel : Str} (h : rel ∈ listConfigFiles t rspamdOverrideDir []) :
    ⟨rel, contentOf t rel⟩ ∈ filesIn t := List.mem_map_of_mem h

/-- The files with another name. -/
def others (name : Str) (files : List RspamdOverrideFile) : List RspamdOverrideFile :=
  files.filter fun f => f.name ≠ name

section
variable {t u : Tree} {name : Str}

/-- A change of one file does not show in the others. -/
theorem others_congr (hn : OneLine name)
    (h : ∀ q, q ≠ configPath (rspamdOverrideFilename name) → filesOf u q = filesOf t q) :
    others name (filesIn u) = others name (filesIn t) := by
  have hown : namesIn rspamdOverrideDir (configPath (rspamdOverrideFilename name)) = [name] :=
    namesIn_file (by decide) hn
  have hlist : (listConfigFiles u rspamdOverrideDir []).filter (· ≠ name) =
      (listConfigFiles t rspamdOverrideDir []).filter (· ≠ name) := by
    have sorted (t : Tree) : ((listConfigFiles t rspamdOverrideDir []).filter
        (· ≠ name)).Pairwise (· ≤ ·) := (List.pairwise_insertionSort _ _).filter _
    refine List.Perm.eq_of_pairwise' (sorted u) (sorted t) (List.perm_iff_count.mpr fun n => ?_)
    by_cases he : n = name
    · have hnone (t : Tree) : ((listConfigFiles t rspamdOverrideDir []).filter
          (· ≠ name)).count n = 0 := List.count_eq_zero.mpr (by simp [he])
      rw [hnone, hnone]
    · have hsame (t : Tree) : ((listConfigFiles t rspamdOverrideDir []).filter
          (· ≠ name)).count n = (listConfigFiles t rspamdOverrideDir []).count n :=
        List.count_filter (by simpa using he)
      rw [hsame, hsame]
      refine count_listConfigFiles h ?_
      rintro q rfl
      rw [hown]
      simpa using he
  have hmap (t : Tree) : others name (filesIn t) =
      ((listConfigFiles t rspamdOverrideDir []).filter (· ≠ name)).map
        fun rel => ⟨rel, contentOf t rel⟩ := List.filter_map
  rw [hmap, hmap, hlist]
  refine List.map_congr_left fun rel hrel => ?_
  have hne : rel ≠ name := by simpa using (List.mem_filter.mp hrel).2
  have hpath : configPath (rspamdOverrideFilename rel) ≠
      configPath (rspamdOverrideFilename name) := fun e =>
    hne (List.cons_inj_right '/' |>.mp (List.append_cancel_left (configPath_inj.mp e)))
  rw [contentOf, Files.read, h _ hpath]
  rfl

/-- A change of an override file does not touch the directives. -/
theorem commandsOf_congr
    (h : ∀ q, q ≠ configPath (rspamdOverrideFilename name) →
      q ≠ configPath (scratch (rspamdOverrideFilename name)) → filesOf u q = filesOf t q) :
    commandsOf u = commandsOf t := by
  have hne (name : Str) : configPath rspamdCommandsFilename ≠
      configPath (rspamdOverrideFilename name) := fun e =>
    rspamdOverrideFilename_ne_commands name (configPath_inj.mp e).symm
  have hs : scratch (rspamdOverrideFilename name) = rspamdOverrideFilename (scratch name) :=
    List.append_assoc _ _ _
  rw [commandsOf, commandsOf, Files.read, h _ (hne name) (hs ▸ hne _)]
  rfl

end

/-! ## Writing and deleting -/

/-- What `_write_managed_body` writes. -/
def written (content : Str) : Str :=
  let body := strip (strip content)
  if body ≠ [] then managedHeader ++ body ++ ['\n'] else managedHeader

/-- The tree after a file was written. -/
def stored (name content : Str) (t : Tree) : Tree :=
  writeTree t (rspamdOverrideFilename name) (written content)

def Accepted (name content : Str) (t : Tree) : Prop :=
  ∃ f, ((setRspamdOverrideFile name content).run treeBox t).1 = .ok f

section
variable {name content : Str} {t : Tree}

theorem run_setRspamdOverrideFile (name content : Str) (t : Tree) :
    (setRspamdOverrideFile name content).run treeBox t =
      if matchesRspamdFilename name = false then
        (.error (badRequest [lit "Invalid Rspamd override file name: ", .repr name]), t)
      else (.ok ⟨name, strip content⟩, stored name content t) := by
  rw [setRspamdOverrideFile, validate_bind, Prog.run_raiseIf_bind]
  rfl

theorem run_deleteRspamdOverrideFile (h : matchesRspamdFilename name = true) :
    (deleteRspamdOverrideFile name).run treeBox t =
      if name ∉ listConfigFiles t rspamdOverrideDir [] then
        (.error (notFound "Rspamd override file" name), t)
      else (.ok (), t.erase (configPath (rspamdOverrideFilename name))) := by
  rw [deleteRspamdOverrideFile, validate_bind, Prog.run_raiseIf_bind, if_neg (by simp [h])]
  change (Prog.raiseIf (name ∉ listConfigFiles t rspamdOverrideDir []) _ >>= _).run treeBox t = _
  rw [Prog.run_raiseIf_bind]
  rfl

theorem accepted_iff : Accepted name content t ↔ matchesRspamdFilename name = true := by
  unfold Accepted
  rw [run_setRspamdOverrideFile]
  cases matchesRspamdFilename name <;> simp

/-- What is read of a file is the text that was sent, with its line breaks read
as `\n`. -/
theorem contentOf_stored : contentOf (stored name content t) name = universalNewlines (strip content) := by
  have hread : (filesOf (stored name content t)).read (configPath (rspamdOverrideFilename name)) =
      universalNewlines (written content) := by
    rw [stored, filesOf_write]
    exact read_write _ _
  rw [contentOf, hread]
  change unheaded managedHeader (universalNewlines (written content)) = _
  have hs : strip (strip content) = strip content := strip_eq_self (trim_strip content)
  have hcr : '\r' ∉ managedHeader := by decide
  unfold written
  rw [hs]
  dsimp only
  by_cases hb : strip content = []
  · have hnil := unheaded_headed hcr []
    rw [List.append_nil] at hnil
    rw [if_neg (by simp [hb]), hb, hnil]
    rfl
  · rw [if_pos hb, List.append_assoc, unheaded_headed hcr,
      strip_universalNewlines_line (trim_strip content)]

theorem filesOf_stored {q : Str} (hq : q ≠ configPath (rspamdOverrideFilename name))
    (hs : q ≠ configPath (scratch (rspamdOverrideFilename name))) :
    filesOf (stored name content t) q = filesOf t q := by
  rw [stored, filesOf_write, write_apply, if_neg hq, if_neg hs]

end

/-! ## A file that is shown and can be deleted -/

/-- The tree after the file was deleted. -/
def deleted (name : Str) (t : Tree) : Tree := ((deleteRspamdOverrideFile name).run treeBox t).2

/-- A file that was written is shown under its name with the stripped content,
can be deleted, and is not shown any more; the others are shown all the time. -/
structure Removable (name content : Str) (t : Tree) : Prop where
  shown : ∃ files, shownFiles (stored name content t) = some files ∧
    (∃ f ∈ files, f.name = name) ∧ ∀ f ∈ files, f.name = name → f.content = strip content
  deletes : ((deleteRspamdOverrideFile name).run treeBox (stored name content t)).1 = .ok ()
  gone : ∃ files, shownFiles (deleted name (stored name content t)) = some files ∧
    ∀ f ∈ files, f.name ≠ name
  rest : ∀ u, u = stored name content t ∨ u = deleted name (stored name content t) →
    (shownFiles u).map (others name) = (shownFiles t).map (others name)

/-- The name is not the text of a line of another file's path. -/
def NotShadowed (name : Str) (t : Tree) : Prop :=
  ∀ p ∈ t.keys, p ≠ configPath (rspamdOverrideFilename name) → name ∉ namesIn rspamdOverrideDir p

section
variable {name content : Str} {t : Tree}

theorem oneLine_name (h : FileName name) : OneLine name := h.isWord.noSpace.oneLine

theorem mem_stored (h : FileName name) :
    name ∈ listConfigFiles (stored name content t) rspamdOverrideDir [] := by
  refine mem_listConfigFiles (by decide) (oneLine_name h) ?_
  show filesOf _ (configPath (rspamdOverrideFilename name)) ≠ none
  rw [stored, filesOf_write, write_self]
  exact Option.some_ne_none _

theorem run_delete_stored (h : FileName name) :
    (deleteRspamdOverrideFile name).run treeBox (stored name content t) =
      (.ok (), (stored name content t).erase (configPath (rspamdOverrideFilename name))) := by
  rw [run_deleteRspamdOverrideFile (matchesRspamdFilename_iff.mpr (.inl h)),
    if_neg (not_not.mpr (mem_stored h))]

/-- The name is gone unless another path is listed under it. -/
theorem mem_deleted (h : FileName name) :
    name ∈ listConfigFiles (deleted name (stored name content t)) rspamdOverrideDir [] ↔
      ¬ NotShadowed name t := by
  rw [(listConfigFiles_perm _ _).mem_iff, List.mem_flatMap, deleted, run_delete_stored h]
  simp only [Dict.mem_keys_erase, stored, writeTree, Dict.mem_keys_set, NotShadowed]
  push Not
  constructor
  · rintro ⟨p, ⟨hne, hp⟩, hn⟩
    exact ⟨p, (hp.resolve_left hne).2, hne, hn⟩
  · rintro ⟨p, hp, hne, hn⟩
    refine ⟨p, ⟨hne, .inr ⟨?_, hp⟩⟩, hn⟩
    rintro rfl
    have hscratch : namesIn rspamdOverrideDir (configPath (scratch (rspamdOverrideFilename name))) =
        [scratch name] := namesIn_scratch (by decide) (oneLine_name h)
    rw [hscratch, List.mem_singleton] at hn
    exact scratch_ne name hn.symm

/-- A file of the scratch name is shown before a write, and not after it. -/
theorem others_stored_ne (h : FileName name)
    (hs : filesOf t (configPath (scratch (rspamdOverrideFilename name))) ≠ none) :
    others name (filesIn (stored name content t)) ≠ others name (filesIn t) := by
  intro e
  have hnames (u : Tree) : (others name (filesIn u)).map RspamdOverrideFile.name =
      (listConfigFiles u rspamdOverrideDir []).filter (· ≠ name) := by
    have hmap : others name (filesIn u) = ((listConfigFiles u rspamdOverrideDir []).filter
        (· ≠ name)).map fun rel => ⟨rel, contentOf u rel⟩ := List.filter_map
    rw [hmap, List.map_map]
    exact List.map_id' _
  have hcount (u : Tree) : ((others name (filesIn u)).map RspamdOverrideFile.name).count
      (scratch name) = (listConfigFiles u rspamdOverrideDir []).count (scratch name) := by
    rw [hnames]
    exact List.count_filter (by simpa using scratch_ne name)
  have hone : (listConfigFiles t rspamdOverrideDir []).count (scratch name) =
      (listConfigFiles (stored name content t) rspamdOverrideDir []).count (scratch name) + 1 :=
    count_scratch (by decide) (oneLine_name h) hs (filesOf_write t _ (written content))
  rw [← hcount, ← hcount, e] at hone
  omega

theorem removable_iff (h : FileName name) :
    Removable name content t ↔
      '\r' ∉ strip content ∧ commandsOf t ≠ none ∧ NotShadowed name t ∧
        filesOf t (configPath (scratch (rspamdOverrideFilename name))) = none := by
  constructor
  · rintro ⟨⟨files, hf, ⟨f, hm, hn⟩, hc⟩, -, ⟨files', hf', hgone⟩, hrest⟩
    have hcommands : commandsOf (stored name content t) = commandsOf t :=
      commandsOf_congr fun _ hq hs => filesOf_stored hq hs
    rw [shownFiles_eq, hcommands] at hf
    obtain ⟨ds, hds, rfl⟩ := Option.map_eq_some_iff.mp hf
    refine ⟨?_, by rw [hds]; exact Option.some_ne_none _, ?_, ?_⟩
    · have hcontent := hc f hm hn
      rw [(mem_filesIn.mp hm).2, hn, contentOf_stored] at hcontent
      rw [← hcontent]
      exact not_mem_universalNewlines _
    · rw [shownFiles_eq] at hf'
      obtain ⟨-, -, rfl⟩ := Option.map_eq_some_iff.mp hf'
      by_contra hs
      exact hgone _ (mem_filesIn_self ((mem_deleted h).mpr hs)) rfl
    · by_contra hs
      have hr := hrest _ (.inl rfl)
      rw [shownFiles_eq, shownFiles_eq, hcommands, hds] at hr
      exact others_stored_ne h hs (Option.some.inj hr)
  · rintro ⟨hcr, hds, hs, hscratch⟩
    obtain ⟨ds, hds⟩ := Option.ne_none_iff_exists'.mp hds
    have hset (q : Str) (hq : q ≠ configPath (rspamdOverrideFilename name)) :
        filesOf (stored name content t) q = filesOf t q := by
      rw [stored, filesOf_write, write_apply, if_neg hq]
      split
      · rename_i e
        rw [e, hscratch]
      · rfl
    have hdel (q : Str) (hq : q ≠ configPath (rspamdOverrideFilename name)) :
        filesOf (deleted name (stored name content t)) q = filesOf t q := by
      rw [deleted, run_delete_stored h, filesOf_erase, Files.delete, if_neg hq, hset q hq]
    have shown (u : Tree)
        (hu : ∀ q, q ≠ configPath (rspamdOverrideFilename name) → filesOf u q = filesOf t q) :
        shownFiles u = some (filesIn u) := by
      rw [shownFiles_eq, commandsOf_congr fun q hq _ => hu q hq, hds]
      rfl
    refine ⟨⟨_, shown _ hset, ?_, ?_⟩, by rw [run_delete_stored h], ⟨_, shown _ hdel, ?_⟩, ?_⟩
    · exact ⟨_, mem_filesIn_self (mem_stored h), rfl⟩
    · intro f hf hn
      rw [(mem_filesIn.mp hf).2, hn, contentOf_stored, universalNewlines_eq_self hcr]
    · intro f hf hn
      exact (mem_deleted h).mp (hn ▸ (mem_filesIn.mp hf).1) hs
    · rintro u (rfl | rfl)
      · rw [shown _ hset, shown t fun _ _ => rfl, Option.map_some, Option.map_some,
          others_congr (oneLine_name h) hset]
      · rw [shown _ hdel, shown t fun _ _ => rfl, Option.map_some, Option.map_some,
          others_congr (oneLine_name h) hdel]

end

/-- For every name, content and tree: exactly the file names are accepted, and
what is accepted is shown as it was sent and can be deleted, if and only if the
name is no file name with a line break behind it; and, where it is a file name,
the content has no carriage return, the directives can be shown, no other path is
listed under the name, and no file has the name with `.tmp` behind it. -/
theorem overrideFile_iff (name content : Str) (t : Tree) :
    ((Accepted name content t ↔ FileName name) ∧
        (Accepted name content t → Removable name content t)) ↔
      (¬ ∃ base, FileName base ∧ name = base ++ ['\n']) ∧
        (FileName name →
          '\r' ∉ strip content ∧ commandsOf t ≠ none ∧ NotShadowed name t ∧
            filesOf t (configPath (scratch (rspamdOverrideFilename name))) = none) := by
  rw [accepted_iff, matchesRspamdFilename_iff]
  constructor
  · rintro ⟨hiff, hrem⟩
    refine ⟨?_, fun h => (removable_iff h).mp (hrem (.inl h))⟩
    rintro ⟨base, hb, rfl⟩
    have h := hiff.mp (.inr ⟨base, hb, rfl⟩)
    exact absurd (h.isWord.noSpace '\n' (List.mem_append_right _ List.mem_cons_self)) (by decide)
  · rintro ⟨hno, h⟩
    refine ⟨⟨fun hm => hm.resolve_right hno, .inl⟩, fun hm => ?_⟩
    have hn := hm.resolve_right hno
    exact (removable_iff hn).mpr (h hn)

/-- A file name with a line break behind it is written under that name, and
listed under another: no one can delete it. -/
theorem trailing_newline :
    ¬ FileName "actions.conf\n".toList ∧
    ((setRspamdOverrideFile "actions.conf\n".toList "x".toList).run treeBox Dict.empty).1 =
        .ok ⟨"actions.conf\n".toList, "x".toList⟩ ∧
      shownFiles (stored "actions.conf\n".toList "x".toList Dict.empty) =
        some [⟨"actions.conf".toList, []⟩] ∧
      ((deleteRspamdOverrideFile "actions.conf\n".toList).run treeBox
          (stored "actions.conf\n".toList "x".toList Dict.empty)).1 =
        .error (notFound "Rspamd override file" "actions.conf\n".toList) := by
  refine ⟨fun h => ?_, by decide +kernel, by decide +kernel, by decide +kernel⟩
  exact absurd (isRspamdFilename_iff.mpr h) (by decide +kernel)

end MailserverUi.L4.OverrideFiles
