import MailserverUi.L1Encoding.RspamdCommands
import MailserverUi.L2Store.ConfigTree
import MailserverUi.L3Service.MailserverService
import MailserverUi.L3Service.Settings

/-!
# Rspamd overrides (`rspamd/custom-commands.conf`, `rspamd/override.d/`)

The directives of `custom-commands.conf` are validated one by one and written
one a line. The answer also shows the files of `override.d`, which are listed
and read one by one.

Results:
* `isClean_cleaned`: what `_validate_rspamd_command` lets through.
* `run_setRspamdOverrides`: what an accepted list of commands writes and
  returns.
* `run_getRspamdOverrides`: the commands that are returned next.
-/
namespace MailserverUi.L3.Rspamd

open Py L1.ServerFiles L1.RspamdCommands L2.Errors L2.Container L2.ConfigTree MailserverService
open Settings

/-- mirrors backend/app/services/mailserver_service.py:104,135 -/
def rspamdOverrideDir : Str := "rspamd/override.d".toList
def rspamdCommandsFilename : Str := "rspamd/custom-commands.conf".toList

/-- mirrors backend/app/models/mailserver_models.py:308-320 -/
structure RspamdCommand where
  toDirective : Directive
  target_length : toDirective.target.length ≤ 255
  option_length : toDirective.option.length ≤ 255
  value_length : toDirective.value.length ≤ 4096

/-- `RspamdCommand(kind=kind, **fields)`, which may be refused. -/
def RspamdCommand.of? (d : Directive) : Option RspamdCommand :=
  if h : d.target.length ≤ 255 ∧ d.option.length ≤ 255 ∧ d.value.length ≤ 4096 then
    some ⟨d, h.1, h.2.1, h.2.2⟩
  else none

/-- mirrors backend/app/models/mailserver_models.py:329-333 -/
structure RspamdOverrideFile where
  name : Str
  content : Str
  deriving DecidableEq, Repr

/-- mirrors backend/app/models/mailserver_models.py:342-354 -/
structure RspamdOverrides where
  commands : List RspamdCommand
  rspamdEnabled : Bool
  restartRequired : Bool
  overrideFiles : List RspamdOverrideFile

/-! ## Generic file access -/

/-- mirrors backend/app/services/mailserver_service.py:280-285 -/
def readManagedBody (filename : Str) : Io Str := do
  let content ← readConfig filename
  return strip (if managedHeader.isPrefixOf content then content.drop managedHeader.length
    else content)

/-- mirrors backend/app/services/mailserver_service.py:288-293 -/
def writeManagedBody (filename content : Str) : Io Unit :=
  let body := strip content
  writeConfig filename (if body ≠ [] then managedHeader ++ body ++ ['\n'] else managedHeader)

/-! ## Validation -/

/-- The `RspamdCommand` that `_validate_rspamd_command` makes first. -/
def RspamdCommand.cleaned (c : RspamdCommand) : RspamdCommand where
  toDirective := L1.RspamdCommands.cleaned c.toDirective
  target_length := (length_get_cleaned_le c.toDirective .target).trans c.target_length
  option_length := (length_get_cleaned_le c.toDirective .option).trans c.option_length
  value_length := (length_get_cleaned_le c.toDirective .value).trans c.value_length

/-- The loop over the fields. -/
def requireFields (d : Directive) : List Field → Io Unit
  | [] => .pure ()
  | f :: fields => do
    Prog.raiseIf (d.get f = [])
      (badRequest [.text d.kind.text, lit " requires a non-empty ", .text f.text])
    requireFields d fields

/-- `add-line` targets a file under `override.d`, every other a module. -/
def targetOk (d : Directive) : Bool :=
  if d.kind = .addLine then isRspamdFilename d.target else isRspamdName d.target

/-- mirrors backend/app/services/mailserver_service.py:1318-1343 -/
def validateRspamdCommand (command : RspamdCommand) : Io RspamdCommand := do
  let d := command.cleaned.toDirective
  requireFields d d.kind.fields
  Prog.raiseIf ('\n' ∈ d.value ∨ '\r' ∈ d.value)
    (badRequest [lit "An Rspamd option value must fit on a single line"])
  Prog.raiseIf (d.option ≠ [] ∧ isRspamdName d.option = false)
    (badRequest [lit "Invalid Rspamd option name: ", .repr d.option])
  Prog.raiseIf (d.target ≠ [] ∧ targetOk d = false)
    (badRequest [lit "Invalid Rspamd ",
      lit (if d.kind = .addLine then "override file name" else "module name"), lit ": ",
      .repr d.target])
  return command.cleaned

/-- `[_validate_rspamd_command(command) for command in commands]`. -/
def validateAll : List RspamdCommand → Io (List RspamdCommand)
  | [] => .pure []
  | c :: cs => do
    let d ← validateRspamdCommand c
    let ds ← validateAll cs
    return d :: ds

/-! ## The two operations -/

/-- mirrors backend/app/services/mailserver_service.py:1346-1354 -/
def rspamdOverrideFiles : TreeIo (List RspamdOverrideFile) := do
  let rels ← listFiles rspamdOverrideDir []
  readAll rels
where
  readAll : List Str → TreeIo (List RspamdOverrideFile)
    | [] => .pure []
    | rel :: rels => do
      let content ← onTree (readManagedBody (rspamdOverrideDir ++ '/' :: rel))
      let files ← readAll rels
      return ⟨rel, content⟩ :: files

/-- What both operations return around the commands. -/
def rspamdOverrides (commands : List RspamdCommand) : TreeIo RspamdOverrides := do
  let settings ← onTree dmsSettings
  let files ← rspamdOverrideFiles
  return ⟨commands, flag settings "ENABLE_RSPAMD".toList, true, files⟩

/-- mirrors backend/app/services/mailserver_service.py:1391-1404 -/
def getRspamdOverrides : TreeIo RspamdOverrides := do
  let lines ← onTree (readConfigLines rspamdCommandsFilename)
  let commands ← Prog.ofOption .internal ((lines.filterMap parseRspamdCommand).mapM RspamdCommand.of?)
  rspamdOverrides commands

/-- mirrors backend/app/services/mailserver_service.py:1407-1422 -/
def setRspamdOverrides (commands : List RspamdCommand) : TreeIo RspamdOverrides := do
  let cleaned ← onTree (validateAll commands)
  onTree (writeManaged rspamdCommandsFilename
    (cleaned.map fun c => formatRspamdCommand c.toDirective))
  rspamdOverrides cleaned

theorem of?_eq_some {d : Directive} {c : RspamdCommand} :
    RspamdCommand.of? d = some c ↔ c.toDirective = d := by
  unfold RspamdCommand.of?
  constructor
  · intro h
    split at h
    · cases h
      rfl
    · cases h
  · rintro rfl
    exact dif_pos ⟨c.target_length, c.option_length, c.value_length⟩

/-! ## What is let through -/

section
variable {s s' : Files} {d : Directive}

theorem run_requireFields_bind {α : Type} {fields : List Field} {k : Unit → Io α} {a : α}
    (h : (requireFields d fields >>= k).run box s = (.ok a, s')) :
    (∀ f ∈ fields, d.get f ≠ []) ∧ (k ()).run box s = (.ok a, s') := by
  induction fields with
  | nil => exact ⟨fun f hf => absurd hf List.not_mem_nil, h⟩
  | cons f fields ih =>
    rw [requireFields, Prog.bind_assoc, Prog.run_raiseIf_bind] at h
    split at h
    · cases h
    · rename_i hne
      obtain ⟨hall, hk⟩ := ih h
      exact ⟨List.forall_mem_cons.mpr ⟨hne, hall⟩, hk⟩

/-- Names are words, and the value is not empty and has no blank around it. -/
theorem isClean_of_checked (c : RspamdCommand)
    (hne : ∀ f ∈ c.toDirective.kind.fields, (cleaned c.toDirective).get f ≠ [])
    (ho : ¬ ((cleaned c.toDirective).option ≠ [] ∧
      isRspamdName (cleaned c.toDirective).option = false))
    (ht : ¬ ((cleaned c.toDirective).target ≠ [] ∧ targetOk (cleaned c.toDirective) = false)) :
    IsClean (cleaned c.toDirective) := by
  have hkind := (get_cleaned c.toDirective .value).1
  refine ⟨fun f hf hv => ?_, fun hm => ?_, fun f hf => ?_⟩
  · rw [hkind] at hf
    have hnil := hne f hf
    cases f with
    | value => exact absurd rfl hv
    | option =>
      have hname : isRspamdName (cleaned c.toDirective).option = true := by
        by_contra hno
        exact ho ⟨hnil, by simpa using hno⟩
      exact isWord_of_isRspamdName hname
    | target =>
      have hok : targetOk (cleaned c.toDirective) = true := by
        by_contra hno
        exact ht ⟨hnil, by simpa using hno⟩
      unfold targetOk at hok
      split at hok
      · exact isWord_of_isRspamdFilename hok
      · exact isWord_of_isRspamdName hok
  · rw [hkind] at hm
    have hval := (get_cleaned c.toDirective .value).2
    rw [if_pos hm] at hval
    refine ⟨hne .value hm, ?_⟩
    have e : (cleaned c.toDirective).value = strip (c.toDirective.get .value) := hval
    rw [e]
    exact trim_strip _
  · rw [hkind] at hf
    rw [(get_cleaned c.toDirective f).2, if_neg hf]

theorem run_validate {c c' : RspamdCommand}
    (h : (validateRspamdCommand c).run box s = (.ok c', s')) :
    c' = c.cleaned ∧ s' = s ∧ IsClean c.cleaned.toDirective := by
  unfold validateRspamdCommand at h
  obtain ⟨hne, h⟩ := run_requireFields_bind h
  simp only [Prog.run_raiseIf_bind] at h
  split at h
  · cases h
  · split at h
    · cases h
    · rename_i ho
      split at h
      · cases h
      · rename_i ht
        cases h
        refine ⟨rfl, rfl, isClean_of_checked c (fun f hf => hne f ?_) ho ht⟩
        have hkind := (get_cleaned c.toDirective .value).1
        exact hkind ▸ hf

theorem run_validateAll {cs cs' : List RspamdCommand}
    (h : (validateAll cs).run box s = (.ok cs', s')) :
    cs' = cs.map RspamdCommand.cleaned ∧ s' = s ∧ ∀ c ∈ cs', IsClean c.toDirective := by
  induction cs generalizing cs' s s' with
  | nil =>
    cases h
    exact ⟨rfl, rfl, fun c hc => absurd hc List.not_mem_nil⟩
  | cons c cs ih =>
    unfold validateAll at h
    rw [Prog.run_bind] at h
    cases hc : (validateRspamdCommand c).run box s with
    | mk r s₁ =>
      rw [hc] at h
      cases r with
      | error e => cases h
      | ok d =>
        obtain ⟨rfl, rfl, hclean⟩ := run_validate hc
        simp only at h
        rw [Prog.run_bind] at h
        cases hcs : (validateAll cs).run box s₁ with
        | mk r s₂ =>
          rw [hcs] at h
          cases r with
          | error e => cases h
          | ok ds =>
            obtain ⟨rfl, rfl, hall⟩ := ih hcs
            cases h
            exact ⟨rfl, rfl, List.forall_mem_cons.mpr ⟨hclean, hall⟩⟩

end

/-! ## What the operations do -/

/-- `_read_managed_body` on the content of a file. -/
def managedBody (content : Str) : Str :=
  strip (if managedHeader.isPrefixOf content then content.drop managedHeader.length else content)

/-- What both operations return around the commands, read off a tree. -/
def overridesOf (t : Tree) (commands : List RspamdCommand) : RspamdOverrides :=
  ⟨commands, flag (settingsOf ((filesOf t).read dmsSettingsPath)) "ENABLE_RSPAMD".toList, true,
    (listConfigFiles t rspamdOverrideDir []).map fun rel =>
      ⟨rel, managedBody ((filesOf t).read (configPath (rspamdOverrideDir ++ '/' :: rel)))⟩⟩

section
variable {t t' : Tree} {cs : List RspamdCommand} {r : RspamdOverrides}

theorem run_readAll (rels : List Str) (t : Tree) :
    (rspamdOverrideFiles.readAll rels).run treeBox t = (.ok (rels.map fun rel =>
      ⟨rel, managedBody ((filesOf t).read (configPath (rspamdOverrideDir ++ '/' :: rel)))⟩), t) := by
  induction rels with
  | nil => rfl
  | cons rel rels ih =>
    have hrun : (rspamdOverrideFiles.readAll (rel :: rels)).run treeBox t =
        (rspamdOverrideFiles.readAll rels >>= fun files => Pure.pure (
          ⟨rel, managedBody ((filesOf t).read (configPath (rspamdOverrideDir ++ '/' :: rel)))⟩
            :: files)).run treeBox t := rfl
    rw [hrun, Prog.run_bind, ih]
    rfl

/-- The files of `override.d` with what is read from them. -/
theorem run_rspamdOverrideFiles (t : Tree) : rspamdOverrideFiles.run treeBox t =
    (.ok ((listConfigFiles t rspamdOverrideDir []).map fun rel =>
      ⟨rel, managedBody ((filesOf t).read (configPath (rspamdOverrideDir ++ '/' :: rel)))⟩), t) :=
  run_readAll (listConfigFiles t rspamdOverrideDir []) t

theorem run_rspamdOverrides (t : Tree) (cs : List RspamdCommand) :
    (rspamdOverrides cs).run treeBox t = (.ok (overridesOf t cs), t) := by
  have hrun : (rspamdOverrides cs).run treeBox t =
      (rspamdOverrideFiles >>= fun files => Pure.pure (⟨cs,
        flag (settingsOf ((filesOf t).read dmsSettingsPath)) "ENABLE_RSPAMD".toList, true,
        files⟩ : RspamdOverrides)).run treeBox t := rfl
  rw [hrun, Prog.run_bind, run_rspamdOverrideFiles]
  rfl

/-- An accepted list of commands is written and returned as it was cleaned. -/
theorem run_setRspamdOverrides (h : (setRspamdOverrides cs).run treeBox t = (.ok r, t')) :
    r.commands = cs.map RspamdCommand.cleaned ∧
      (∀ c ∈ cs, IsClean c.cleaned.toDirective) ∧
      filesOf t' = (filesOf t).write rspamdCommandsFilename
        (managed ((cs.map RspamdCommand.cleaned).map fun c => formatRspamdCommand c.toDirective)) := by
  unfold setRspamdOverrides at h
  rw [Prog.run_bind] at h
  cases hv : (onTree (validateAll cs)).run treeBox t with
  | mk x t₁ =>
    rw [hv] at h
    cases x with
    | error e => cases h
    | ok ds =>
      obtain ⟨rfl, hfiles, hall⟩ := run_validateAll (run_onTree_ok hv)
      have h : (rspamdOverrides (cs.map RspamdCommand.cleaned)).run treeBox
          (writeTree t₁ rspamdCommandsFilename (managed ((cs.map RspamdCommand.cleaned).map
            fun c => formatRspamdCommand c.toDirective))) = (.ok r, t') := h
      rw [run_rspamdOverrides] at h
      cases h
      refine ⟨rfl, fun c hc => hall _ (List.mem_map_of_mem hc), ?_⟩
      rw [filesOf_write, hfiles]

/-- The directives that the lines parse into; `none` where the model of one
raises. -/
def commandsOf (t : Tree) : Option (List RspamdCommand) :=
  ((configLines ((filesOf t).read (configPath rspamdCommandsFilename))).filterMap
    parseRspamdCommand).mapM RspamdCommand.of?

theorem getRspamdOverrides_eq (t : Tree) : getRspamdOverrides.run treeBox t =
    ((commandsOf t).elim (.error .internal) fun ds => .ok (overridesOf t ds), t) := by
  have hrun : getRspamdOverrides.run treeBox t =
      (Prog.ofOption .internal (commandsOf t) >>= rspamdOverrides).run treeBox t := rfl
  rw [hrun]
  cases commandsOf t with
  | none => rfl
  | some ds => exact run_rspamdOverrides t ds

/-- The commands that are returned are those that the lines parse into. -/
theorem run_getRspamdOverrides {cmds : List RspamdCommand} :
    (∃ g t', getRspamdOverrides.run treeBox t = (.ok g, t') ∧ g.commands = cmds) ↔
      (configLines ((filesOf t).read (configPath rspamdCommandsFilename))).filterMap
        parseRspamdCommand = cmds.map RspamdCommand.toDirective := by
  have hcmds : (configLines ((filesOf t).read (configPath rspamdCommandsFilename))).filterMap
      parseRspamdCommand = cmds.map RspamdCommand.toDirective ↔ commandsOf t = some cmds := by
    rw [eq_comm, ← mapM_eq_some_iff fun _ _ => of?_eq_some]
    rfl
  rw [hcmds, getRspamdOverrides_eq]
  cases commandsOf t with
  | none => simp
  | some ds =>
    rw [Option.some.injEq]
    constructor
    · rintro ⟨g, t', h, rfl⟩
      cases h
      rfl
    · rintro rfl
      exact ⟨_, _, rfl, rfl⟩

/-- The override files that an answer shows are those there are. -/
theorem overrideFiles_of_getRspamdOverrides {o : RspamdOverrides}
    (h : getRspamdOverrides.run treeBox t = (.ok o, t')) :
    rspamdOverrideFiles.run treeBox t = (.ok o.overrideFiles, t) := by
  rw [getRspamdOverrides_eq] at h
  cases hc : commandsOf t with
  | none =>
    rw [hc] at h
    cases h
  | some ds =>
    rw [hc] at h
    cases h
    exact run_rspamdOverrideFiles t

end

end MailserverUi.L3.Rspamd
