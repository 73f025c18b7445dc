import MailserverUi.L3Service.Rspamd

/-!
# Rspamd directives, written and read back

`_validate_rspamd_command` rejects a value with `\n` or `\r`. `str.splitlines`
breaks a text at more than these, so that other boundaries get through.

Results:
* `commands_read_back_iff`: the next commands are the cleaned ones exactly when
  no value holds a line boundary.
* `forged_directive`: a value with a line separator is read as two directives.
-/
namespace MailserverUi.L4.RspamdReadBack

open Py L1.ServerFiles L1.RspamdCommands L2.Errors L2.Container L2.ConfigTree L3.Rspamd

/-- No value that is written holds a line boundary, once stripped. -/
def SingleLine (commands : List RspamdCommand) : Prop :=
  ∀ c ∈ commands, .value ∈ c.toDirective.kind.fields → OneLine (strip c.toDirective.value)

instance (commands : List RspamdCommand) : Decidable (SingleLine commands) :=
  inferInstanceAs (Decidable (∀ c ∈ commands, _))

theorem oneLine_cleaned_iff (d : Directive) :
    OneLine (cleaned d).value ↔ (.value ∈ d.kind.fields → OneLine (strip d.value)) := by
  have e : (cleaned d).value = if .value ∈ d.kind.fields then strip d.value else [] :=
    (get_cleaned d .value).2
  rw [e]
  by_cases h : .value ∈ d.kind.fields
  · simp only [h, if_true, true_implies]
  · have hnil : OneLine [] := fun _ hc => absurd hc List.not_mem_nil
    simp only [h, if_false, false_implies, iff_true]
    exact hnil

/-- An accepted list of commands is returned as it was cleaned. The commands
returned next are the same exactly when no value holds a line boundary. -/
theorem commands_read_back_iff (t t' : Tree) (commands : List RspamdCommand) (r : RspamdOverrides)
    (h : (setRspamdOverrides commands).run treeBox t = (.ok r, t')) :
    r.commands = commands.map RspamdCommand.cleaned ∧
      ((∃ g t'', getRspamdOverrides.run treeBox t' = (.ok g, t'') ∧ g.commands = r.commands) ↔
        SingleLine commands) := by
  obtain ⟨hr, hclean, hfiles⟩ := run_setRspamdOverrides h
  refine ⟨hr, ?_⟩
  have hwritten : (commands.map RspamdCommand.cleaned).map (fun c => formatRspamdCommand c.toDirective) =
      (r.commands.map RspamdCommand.toDirective).map formatRspamdCommand := by
    simp only [hr, List.map_map]
    rfl
  have hall : ∀ d ∈ r.commands.map RspamdCommand.toDirective, IsClean d := by
    intro d hd
    rw [hr, List.map_map] at hd
    obtain ⟨c, hc, rfl⟩ := List.mem_map.mp hd
    exact hclean c hc
  rw [run_getRspamdOverrides, hfiles, read_write, hwritten, read_written_commands_iff hall, hr,
    List.map_map]
  simp only [List.forall_mem_map, SingleLine]
  exact forall₂_congr fun c _ => oneLine_cleaned_iff c.toDirective

/-! ## Concrete lists -/

/-- A directive of two arguments, one with blanks around and inside its value,
and a directive that comes twice. -/
def ordinary : List RspamdCommand :=
  [⟨⟨.addLine, "actions.conf".toList, [], "  reject = 15;  # strict ".toList⟩, by decide, by decide,
      by decide⟩,
    ⟨⟨.enableModule, "greylist".toList, [], []⟩, by decide, by decide, by decide⟩,
    ⟨⟨.enableModule, "greylist".toList, [], []⟩, by decide, by decide, by decide⟩]

theorem commands_read_back_ordinary :
    ∃ r t' g t'', (setRspamdOverrides ordinary).run treeBox Dict.empty = (.ok r, t') ∧
      getRspamdOverrides.run treeBox t' = (.ok g, t'') ∧ g.commands = r.commands ∧
      g.commands.map (fun c => c.toDirective.value) = ["reject = 15;  # strict".toList, [], []] := by
  obtain ⟨r, hr⟩ := exists_ok
    (r := ((setRspamdOverrides ordinary).run treeBox Dict.empty).1) (by decide +kernel)
  have hrun : (setRspamdOverrides ordinary).run treeBox Dict.empty =
      (.ok r, ((setRspamdOverrides ordinary).run treeBox Dict.empty).2) := Prod.ext hr rfl
  obtain ⟨hcmds, hiff⟩ := commands_read_back_iff Dict.empty _ ordinary r hrun
  obtain ⟨g, t'', hg, hsame⟩ := hiff.mpr (by decide +kernel)
  refine ⟨r, _, g, t'', hrun, hg, hsame, ?_⟩
  rw [hsame, hcmds]
  decide +kernel

/-- A value of two lines, with U+2028 between them. -/
def forged : List RspamdCommand :=
  [⟨⟨.addLine, "actions.conf".toList, [], "x\u2028disable-module dkim".toList⟩, by decide, by decide,
    by decide⟩]

/-- The directives that an answer shows. -/
def shown (r : Except ApiError RspamdOverrides × Tree) : Option (List Directive) :=
  r.1.toOption.map fun o => o.commands.map RspamdCommand.toDirective

/-- One directive is returned, and two are read. -/
theorem forged_directive :
    shown ((setRspamdOverrides forged).run treeBox Dict.empty) =
        some [⟨.addLine, "actions.conf".toList, [], "x\u2028disable-module dkim".toList⟩] ∧
      shown (getRspamdOverrides.run treeBox
          ((setRspamdOverrides forged).run treeBox Dict.empty).2) =
        some [⟨.addLine, "actions.conf".toList, [], "x".toList⟩,
          ⟨.disableModule, "dkim".toList, [], []⟩] := by
  constructor <;> decide +kernel

end MailserverUi.L4.RspamdReadBack
