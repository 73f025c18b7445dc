import MailserverUi.L3Service.FlatFiles

/-!
# Dovecot masters, written and read back

A name is free text without an `@`, pasted before a `|` into a file of lines.

Results:
* `added_iff`: a created master is one entry more, which a second call finds and
  a deletion takes away, exactly when its name holds no `|` and no line boundary
  and does not begin with `#`.
* `two_masters`: a name of two lines makes another master than was returned.
-/
namespace MailserverUi.L4.MasterReadBack

open Py L1.MailFiles L1.ServerFiles L1.ConfigText L2.Errors L2.Container L3.MailserverService
open L3.Passwords L3.FlatFiles

/-- What stands before the `|`, as it is read, and behind it. -/
def masterField (line : Str) : Str × Str := (splitMaster line, after '|' line)

/-- The line of `name` is added to the others, and is what the next calls find. -/
structure Added (name c : Str) (s s' : Files) : Prop where
  fields : (masterLines s').map masterField =
    (masterLines s).map masterField ++ [(normalise name, dovecotHash c)]
  names : ∃ names, masterNames.run box s = (.ok names, s) ∧
    masterNames.run box s' = (.ok (names ++ [normalise name]), s')
  again : ∀ crypt, (createDovecotMaster crypt name).run box s' =
    (.error (masterExists (normalise name)), s')
  deleted : ∃ s'', (deleteDovecotMaster name).run box s' = (.ok (), s'') ∧
    masterLines s'' = masterLines s

/-- A name that is read as it was written. -/
structure Storable (name : Str) : Prop where
  noBar : '|' ∉ normalise name
  oneLine : OneLine (normalise name)
  head : (normalise name).head? ≠ some '#'

/-- `f"{username}|{hash}"`. -/
def masterLine (name c : Str) : Str := formatPair '|' (normalise name) (dovecotHash c)

section
variable {s s' : Files} {name c : Str} {r : DovecotMaster}

theorem isNormal_normalise (text : Str) : IsNormal (normalise text) := isNormal_normaliseEmail text

theorem normalise_normalise (text : Str) : normalise (normalise text) = normalise text :=
  (isNormal_normalise text).eq

/-- What a successful call found and wrote. -/
theorem created_master (h : (createDovecotMaster (some c) name).run box s = (.ok r, s')) :
    normalise name ≠ [] ∧ '@' ∉ normalise name ∧
      (∀ l ∈ masterLines s, splitMaster l ≠ normalise name) ∧
      masterLines s' = masterLines s ++ textLines (masterLine name c) := by
  rw [run_createDovecotMaster] at h
  split at h
  · cases h
  · rename_i hname
    obtain ⟨hne, hat⟩ := not_or.mp hname
    split at h
    · cases h
    · rename_i hnew
      cases h
      exact ⟨hne, hat, fun l hl e => hnew ⟨l, hl, e⟩, lines_put_append _⟩

/-- The line of a storable name is read as it is. -/
theorem textLines_masterLine (hc : NoSpace c) (hne : normalise name ≠ []) (h : Storable name) :
    textLines (masterLine name c) = [masterLine name c] := by
  have hs := noSpace_dovecotHash hc
  refine textLines_of_isLine (isLine_formatPair (by decide) (isNormal_normalise name).trim h.oneLine
    hs.trim hs.oneLine) ?_
  rw [masterLine, formatPair, List.head?_append_of_ne_nil _ hne]
  exact h.head

theorem masterField_masterLine (h : '|' ∉ normalise name) :
    masterField (masterLine name c) = (normalise name, dovecotHash c) := by
  rw [masterField, splitMaster, masterLine, formatPair, before_append _ h, after_append _ h,
    normalise_normalise]

/-- A name that was read may be written. -/
theorem storable_of_split {l : Str} (hl : IsLine l) (hh : l.head? ≠ some '#')
    (h : splitMaster l = normalise name) : Storable name := by
  have hbar : '|' ∉ splitMaster l := fun hm =>
    not_mem_before '|' l (mark_of_mem_normaliseEmail (by decide) hm)
  have hone : OneLine (splitMaster l) :=
    oneLine_normaliseEmail (hl.oneLine.mono fun _ => before_subset)
  have hhead : (splitMaster l).head? ≠ some '#' := head?_before hl hh
  rw [h] at hbar hone hhead
  exact ⟨hbar, hone, hhead⟩

theorem storable_of_added (h : (createDovecotMaster (some c) name).run box s = (.ok r, s'))
    (ha : Added name c s s') : Storable name := by
  obtain ⟨-, -, -, hlines⟩ := created_master h
  have hf := ha.fields
  rw [hlines, List.map_append, List.append_right_inj] at hf
  obtain ⟨l, hl, e⟩ := List.map_eq_singleton_iff.mp hf
  have hm : l ∈ textLines (masterLine name c) := hl ▸ List.mem_singleton.mpr rfl
  obtain ⟨h₁, h₂⟩ := isLine_of_mem_textLines hm
  exact storable_of_split h₁ h₂ (Prod.mk.inj e).1

theorem added_of_storable (hc : NoSpace c)
    (h : (createDovecotMaster (some c) name).run box s = (.ok r, s')) (hn : Storable name) :
    Added name c s s' := by
  obtain ⟨hne, hat, hnew, hlines⟩ := created_master h
  have hfield := masterField_masterLine (c := c) hn.noBar
  have hsplit : splitMaster (masterLine name c) = normalise name := (Prod.mk.inj hfield).1
  rw [textLines_masterLine hc hne hn] at hlines
  have hfound : ∃ l ∈ masterLines s', splitMaster l = normalise name :=
    ⟨masterLine name c, by rw [hlines]; exact List.mem_append_right _ List.mem_cons_self, hsplit⟩
  refine ⟨?_, ⟨_, run_masterNames, ?_⟩, fun crypt => ?_, ?_⟩
  · rw [hlines, List.map_append, List.map_singleton, hfield]
  · rw [run_masterNames, hlines, List.map_append, List.filter_append, List.map_singleton, hsplit,
      List.filter_cons_of_pos (by simpa using hne), List.filter_nil]
  · rw [run_createDovecotMaster, if_neg (not_or.mpr ⟨hne, hat⟩), if_pos hfound]
  · have hd := run_deleteDovecotMaster (s := s') name
    obtain ⟨l, hl, e⟩ := hfound
    rw [if_neg fun hall => hall l hl e] at hd
    have hold : (masterLines s).filter (fun line => splitMaster line ≠ normalise name) =
        masterLines s := List.filter_eq_self.mpr fun l hl => decide_eq_true (hnew l hl)
    refine ⟨_, hd, (lines_put_filter _).trans ?_⟩
    show (masterLines s').filter _ = _
    rw [hlines, List.filter_append, List.filter_cons_of_neg (by simpa using hsplit), List.filter_nil,
      List.append_nil, hold]

end

/-- A created master is one line more, for the list, for a second call and for a
deletion, exactly when its name is `Storable`. A hash is a text without blanks. -/
theorem added_iff (s s' : Files) (name c : Str) (r : DovecotMaster) (hc : NoSpace c)
    (h : (createDovecotMaster (some c) name).run box s = (.ok r, s')) :
    Added name c s s' ↔ Storable name :=
  ⟨storable_of_added h, added_of_storable hc h⟩

/-- A comment, a master and a line without a separator. -/
def mastersFile : Files := fun p =>
  if p = configPath dovecotMastersFilename then some "# ours\nroot|{PLAIN}x\n odd \n".toList else none

theorem added_iff_operator :
    ∃ r s', (createDovecotMaster (some "$6$salt$digest".toList) " Ops Team ".toList).run box
        mastersFile = (.ok r, s') ∧ r.name = "ops team".toList ∧
      Added " Ops Team ".toList "$6$salt$digest".toList mastersFile s' := by
  obtain ⟨r, hr⟩ := exists_ok (r := ((createDovecotMaster (some "$6$salt$digest".toList)
    " Ops Team ".toList).run box mastersFile).1) (by decide +kernel)
  have hrun : (createDovecotMaster (some "$6$salt$digest".toList) " Ops Team ".toList).run box
      mastersFile = (.ok r, ((createDovecotMaster (some "$6$salt$digest".toList)
        " Ops Team ".toList).run box mastersFile).2) := Prod.ext hr rfl
  have hname : (((createDovecotMaster (some "$6$salt$digest".toList) " Ops Team ".toList).run box
      mastersFile).1.toOption.map DovecotMaster.name) = some "ops team".toList := by decide +kernel
  rw [hr] at hname
  refine ⟨r, _, hrun, Option.some.inj hname, (added_iff mastersFile _ _ _ r (by decide) hrun).mpr ?_⟩
  exact ⟨by decide +kernel, by decide +kernel, by decide +kernel⟩

/-- A name of two lines. -/
def twoLines : Str := "guest\nroot".toList

/-- The files after `create_dovecot_master(twoLines, …)`. -/
def afterTwo : Files :=
  ((createDovecotMaster (some "$6$salt$digest".toList) twoLines).run box fun _ => none).2

/-- Two masters are there, and the one that was returned can neither be seen nor
deleted. -/
theorem two_masters :
    ((createDovecotMaster (some "$6$salt$digest".toList) twoLines).run box fun _ => none).1 =
        .ok ⟨twoLines⟩ ∧
      (masterLines afterTwo).map masterField =
        [("guest".toList, []), ("root".toList, "{SHA512-CRYPT}$6$salt$digest".toList)] ∧
      ((deleteDovecotMaster twoLines).run box afterTwo).1 =
        .error (notFound "Dovecot master" twoLines) ∧
      ¬ Added twoLines "$6$salt$digest".toList (fun _ => none) afterTwo := by
  have hfields : (masterLines afterTwo).map masterField =
      [("guest".toList, []), ("root".toList, "{SHA512-CRYPT}$6$salt$digest".toList)] := by
    decide +kernel
  refine ⟨by decide +kernel, hfields, by decide +kernel, fun h => ?_⟩
  have hf := h.fields
  rw [hfields] at hf
  exact absurd hf (by decide +kernel)

end MailserverUi.L4.MasterReadBack
