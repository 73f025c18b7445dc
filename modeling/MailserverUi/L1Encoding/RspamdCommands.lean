import MailserverUi.L1Encoding.ServerFiles

/-!
# Lines of `rspamd/custom-commands.conf`

Seven directives, each with one to three of the fields `target`, `option` and
`value`. The last field is the rest of the line, with the blanks inside it.

Results:
* `splitMax_join`: words joined with single blanks are split again, and the last
  part may be any text that neither begins nor ends with a blank.
* `parse_format`: a directive whose fields are as `_validate_rspamd_command`
  leaves them is read back from its line, with the value stripped.
-/
namespace MailserverUi.L1.RspamdCommands

open Py ServerFiles

inductive CommandKind where
  | setCommonOption
  | setOptionForController
  | setOptionForProxy
  | enableModule
  | disableModule
  | setOptionForModule
  | addLine
  deriving DecidableEq, Repr

inductive Field where
  | target
  | option
  | value
  deriving DecidableEq, Repr

def CommandKind.text : CommandKind → Str
  | .setCommonOption => "set-common-option".toList
  | .setOptionForController => "set-option-for-controller".toList
  | .setOptionForProxy => "set-option-for-proxy".toList
  | .enableModule => "enable-module".toList
  | .disableModule => "disable-module".toList
  | .setOptionForModule => "set-option-for-module".toList
  | .addLine => "add-line".toList

/-- `_RSPAMD_COMMAND_FIELDS[kind]`.
mirrors backend/app/services/mailserver_service.py:177-185 -/
def CommandKind.fields : CommandKind → List Field
  | .setCommonOption | .setOptionForController | .setOptionForProxy => [.option, .value]
  | .enableModule | .disableModule => [.target]
  | .setOptionForModule => [.target, .option, .value]
  | .addLine => [.target, .value]

def kinds : List CommandKind :=
  [.setCommonOption, .setOptionForController, .setOptionForProxy, .enableModule, .disableModule,
    .setOptionForModule, .addLine]

/-- The key of `_RSPAMD_COMMAND_FIELDS` that is this text. -/
def kindOf (text : Str) : Option CommandKind := kinds.find? fun k => k.text = text

theorem kindOf_text (k : CommandKind) : kindOf k.text = some k := by
  cases k <;> decide

def Field.text : Field → Str
  | .target => "target".toList
  | .option => "option".toList
  | .value => "value".toList

/-- The fields of an `RspamdCommand`. -/
@[ext] structure Directive where
  kind : CommandKind
  target : Str
  option : Str
  value : Str
  deriving DecidableEq, Repr

namespace Directive

def get (d : Directive) : Field → Str
  | .target => d.target
  | .option => d.option
  | .value => d.value

def set (d : Directive) : Field → Str → Directive
  | .target, s => { d with target := s }
  | .option, s => { d with option := s }
  | .value, s => { d with value := s }

/-- `RspamdCommand(kind=kind, **fields)`: a field that is not given is empty. -/
def build (kind : CommandKind) (fields : List (Field × Str)) : Directive :=
  fields.foldl (fun d p => d.set p.1 p.2) ⟨kind, [], [], []⟩

end Directive

/-! ## Splitting -/

/-- `s.split(None, n)`. -/
def splitMax : Nat → Str → List Str
  | 0, s => if lstrip s = [] then [] else [lstrip s]
  | n + 1, s =>
    if lstrip s = [] then []
    else (lstrip s).takeWhile (fun c => !isSpace c) ::
      splitMax n ((lstrip s).dropWhile fun c => !isSpace c)

/-- A part that no blank is in. -/
structure IsWord (w : Str) : Prop where
  ne : w ≠ []
  noSpace : NoSpace w

/-- The last part: it may have blanks inside. -/
structure IsRest (w : Str) : Prop where
  ne : w ≠ []
  trim : Trim w

theorem IsWord.isRest {w : Str} (h : IsWord w) : IsRest w := ⟨h.ne, h.noSpace.trim⟩

theorem IsRest.lstrip_eq {w : Str} (h : IsRest w) : lstrip w = w :=
  lstrip_eq_self fun c hc => h.trim c (.inl hc)

theorem splitMax_space (n : Nat) (s : Str) : splitMax n (' ' :: s) = splitMax n s := by
  have hl : lstrip (' ' :: s) = lstrip s := List.dropWhile_cons_of_pos (by decide)
  cases n <;> simp only [splitMax, hl]

theorem join_space {w : Str} {ws : List Str} (h : ws ≠ []) :
    join [' '] (w :: ws) = w ++ ' ' :: join [' '] ws := by
  rw [Py.join_cons _ _ h, List.append_assoc]
  rfl

theorem isRest_join {ws : List Str} {v : Str} (hw : ∀ w ∈ ws, IsWord w) (hv : IsRest v) :
    IsRest (join [' '] (ws ++ [v])) := by
  induction ws with
  | nil => simpa [join] using hv
  | cons w ws ih =>
    obtain ⟨hw, hws⟩ := List.forall_mem_cons.mp hw
    have ih := ih hws
    rw [List.cons_append, join_space (by simp)]
    refine ⟨by simp, ?_⟩
    have h := Trim.append [' '] hw.noSpace.trim ih.trim hw.ne ih.ne
    simpa using h

theorem splitMax_join {ws : List Str} {v : Str} (hw : ∀ w ∈ ws, IsWord w) (hv : IsRest v) :
    splitMax ws.length (join [' '] (ws ++ [v])) = ws ++ [v] := by
  induction ws with
  | nil =>
    have hj : join [' '] ([] ++ [v]) = v := by simp [join]
    rw [hj, List.length_nil, splitMax, hv.lstrip_eq, if_neg hv.ne]
    rfl
  | cons w ws ih =>
    obtain ⟨hw, hws⟩ := List.forall_mem_cons.mp hw
    have hj : join [' '] (w :: (ws ++ [v])) = w ++ ' ' :: join [' '] (ws ++ [v]) :=
      join_space (by simp)
    have hsp : isSpace ' ' = true := by decide
    rw [List.cons_append, hj, List.length_cons, splitMax, lstrip_word hw.noSpace hw.ne,
      if_neg (by simp [hw.ne]), takeWhile_noSpace hw.noSpace hsp, dropWhile_noSpace hw.noSpace hsp,
      splitMax_space, ih hws]

/-! ## One line -/

/-- `_read_config_lines` returns no blank line, so the first case does not
occur.
mirrors backend/app/services/mailserver_service.py:1289-1309 -/
def parseRspamdCommand (line : Str) : Option Directive :=
  match split1 line with
  | [] => none
  | head :: rest =>
    match kindOf head with
    | none => none
    | some kind =>
      let parts := splitMax (kind.fields.length - 1) (rest.head?.getD [])
      if parts.length ≠ kind.fields.length then none
      else some (.build kind (kind.fields.zip (parts.map strip)))

/-- mirrors backend/app/services/mailserver_service.py:1312-1315 -/
def formatRspamdCommand (d : Directive) : Str :=
  join [' '] (d.kind.text :: d.kind.fields.map d.get)

/-- mirrors backend/app/services/mailserver_service.py:1320-1324 -/
def cleaned (d : Directive) : Directive :=
  .build d.kind (d.kind.fields.map fun f => (f, strip (d.get f)))

theorem length_get_cleaned_le (d : Directive) (f : Field) :
    ((cleaned d).get f).length ≤ (d.get f).length := by
  obtain ⟨k, t, o, v⟩ := d
  cases k <;> cases f <;>
    simp [cleaned, CommandKind.fields, Directive.get, Directive.build, Directive.set,
      length_strip_le]

/-- Fields that the directive does not take are dropped, and the others are
stripped. -/
theorem get_cleaned (d : Directive) (f : Field) :
    (cleaned d).kind = d.kind ∧
      (cleaned d).get f = if f ∈ d.kind.fields then strip (d.get f) else [] := by
  obtain ⟨k, t, o, v⟩ := d
  cases k <;> cases f <;>
    simp [cleaned, CommandKind.fields, Directive.get, Directive.build, Directive.set]

/-- `_RSPAMD_NAME_RE` on a stripped name.
mirrors backend/app/services/mailserver_service.py:189 -/
def isRspamdName (name : Str) : Bool :=
  name ≠ [] && name.all fun c => c.isAlphanum || c ∈ ['_', '-']

/-- `_RSPAMD_FILENAME_RE` on a text that does not end with a newline.
mirrors backend/app/services/mailserver_service.py:190 -/
def isRspamdFilename (name : Str) : Bool :=
  match split '.' name with
  | [base, extension] => isRspamdName base && isRspamdName extension
  | _ => false

theorem isWord_of_isRspamdName {name : Str} (h : isRspamdName name = true) : IsWord name := by
  simp only [isRspamdName, Bool.and_eq_true, decide_eq_true_eq, List.all_eq_true,
    Bool.or_eq_true] at h
  refine ⟨h.1, fun c hc => ?_⟩
  rcases h.2 c hc with hc | hc
  · have hr := isAlphanum_range hc
    exact isSpace_of_range (by omega) (by omega)
  · simp only [List.mem_cons, List.not_mem_nil, or_false] at hc
    rcases hc with rfl | rfl <;> decide

theorem isWord_of_isRspamdFilename {name : Str} (h : isRspamdFilename name = true) :
    IsWord name := by
  unfold isRspamdFilename at h
  split at h
  · rename_i base extension e
    rw [Bool.and_eq_true] at h
    have hb := isWord_of_isRspamdName h.1
    have he := isWord_of_isRspamdName h.2
    have hname : name = base ++ '.' :: extension := (split_eq_pair.mp e).2.2
    refine ⟨by simp [hname], fun c hc => ?_⟩
    rw [hname, List.mem_append, List.mem_cons] at hc
    rcases hc with hc | rfl | hc
    · exact hb.noSpace c hc
    · decide
    · exact he.noSpace c hc
  · cases h

/-! ## Writing and reading back -/

/-- A directive as `_validate_rspamd_command` leaves it. -/
structure IsClean (d : Directive) : Prop where
  words : ∀ f ∈ d.kind.fields, f ≠ .value → IsWord (d.get f)
  rest : .value ∈ d.kind.fields → IsRest d.value
  unused : ∀ f, f ∉ d.kind.fields → d.get f = []

theorem isWord_kind (k : CommandKind) : IsWord k.text := by
  cases k <;> exact ⟨by decide, by decide⟩

theorem fields_ne (k : CommandKind) : k.fields ≠ [] := by
  cases k <;> decide

/-- The value ends the line. -/
theorem ne_value_of_mem_dropLast {k : CommandKind} {f : Field} (h : f ∈ k.fields.dropLast) :
    f ≠ .value := by
  revert h
  cases k <;> cases f <;> decide

theorem build_get {d : Directive} (h : ∀ f, f ∉ d.kind.fields → d.get f = []) :
    Directive.build d.kind (d.kind.fields.map fun f => (f, d.get f)) = d := by
  obtain ⟨k, t, o, v⟩ := d
  have ht := h .target
  have ho := h .option
  have hv := h .value
  cases k <;>
    simp_all [CommandKind.fields, Directive.get, Directive.build, Directive.set]

/-- The fields before the last, and the last. -/
theorem fields_split {d : Directive} (h : IsClean d) :
    ∃ ws v, d.kind.fields.map d.get = ws ++ [v] ∧ ws.length = d.kind.fields.length - 1 ∧
      (∀ w ∈ ws, IsWord w) ∧ IsRest v := by
  have hne := fields_ne d.kind
  refine ⟨d.kind.fields.dropLast.map d.get, d.get (d.kind.fields.getLast hne), ?_, ?_, ?_, ?_⟩
  · rw [← List.map_singleton, ← List.map_append, List.dropLast_append_getLast]
  · rw [List.length_map, List.length_dropLast]
  · intro w hw
    obtain ⟨f, hf, rfl⟩ := List.mem_map.mp hw
    exact h.words f (List.mem_of_mem_dropLast hf) (ne_value_of_mem_dropLast hf)
  · have hmem := List.getLast_mem hne
    by_cases hv : d.kind.fields.getLast hne = .value
    · rw [hv] at hmem ⊢
      exact h.rest hmem
    · exact (h.words _ hmem hv).isRest

theorem isRest_format {d : Directive} (h : IsClean d) : IsRest (formatRspamdCommand d) := by
  obtain ⟨ws, v, e, -, hw, hv⟩ := fields_split h
  rw [formatRspamdCommand, e, ← List.cons_append]
  exact isRest_join (List.forall_mem_cons.mpr ⟨isWord_kind d.kind, hw⟩) hv

theorem parse_format {d : Directive} (h : IsClean d) :
    parseRspamdCommand (formatRspamdCommand d) = some d := by
  obtain ⟨ws, v, e, hlen, hw, hv⟩ := fields_split h
  have hsplit : split1 (formatRspamdCommand d) = [d.kind.text, join [' '] (ws ++ [v])] := by
    rw [formatRspamdCommand, e, join_space (by simp)]
    have hrest := isRest_join hw hv
    exact split1_word (by decide) (isWord_kind d.kind).noSpace (isWord_kind d.kind).ne hrest.ne
      fun c hc => hrest.trim c (.inl hc)
  have hparts : splitMax (d.kind.fields.length - 1) (join [' '] (ws ++ [v])) =
      d.kind.fields.map d.get := by
    rw [← hlen, splitMax_join hw hv, e]
  have hstrip : (d.kind.fields.map d.get).map strip = d.kind.fields.map d.get := by
    have hself : ∀ w ∈ d.kind.fields.map d.get, strip w = id w := by
      intro w hm
      rw [e] at hm
      rcases List.mem_append.mp hm with hm | hm
      · exact (hw w hm).noSpace.strip_eq
      · rw [List.mem_singleton.mp hm]
        exact strip_eq_self hv.trim
    rw [List.map_congr_left hself, List.map_id]
  rw [parseRspamdCommand, hsplit]
  simp only [kindOf_text, List.head?_cons, Option.getD_some, hparts, List.length_map, ne_eq,
    not_true_eq_false, if_false, hstrip]
  rw [← List.map_prod_left_eq_zip, build_get h.unused]

theorem headed_format (d : Directive) : Headed (formatRspamdCommand d) := by
  have h : Headed d.kind.text := by
    cases d.kind <;> exact ⟨_, _, rfl, by decide, by decide⟩
  obtain ⟨c, t, e, hc, hh⟩ := h
  have hne : d.kind.fields.map d.get ≠ [] := by
    rw [ne_eq, List.map_eq_nil_iff]
    exact fields_ne d.kind
  rw [formatRspamdCommand, join_space hne, e]
  exact ⟨c, _, rfl, hc, hh⟩

/-! ## A value with a line boundary -/

/-- Only the value may hold a line boundary. -/
theorem oneLine_format {d : Directive} (h : ∀ f ∈ d.kind.fields, f ≠ .value → IsWord (d.get f))
    (hv : OneLine d.value) : OneLine (formatRspamdCommand d) := by
  refine oneLine_join (by decide) (List.forall_mem_cons.mpr ⟨(isWord_kind d.kind).noSpace.oneLine, ?_⟩)
  intro w hw
  obtain ⟨f, hf, rfl⟩ := List.mem_map.mp hw
  by_cases he : f = .value
  · rw [he]
    exact hv
  · exact (h f hf he).noSpace.oneLine

/-- The value is what the line ends with. -/
theorem format_value (d : Directive) (h : .value ∈ d.kind.fields) :
    ∃ c t, isSpace c = false ∧ ∀ v, formatRspamdCommand { d with value := v } = c :: (t ++ ' ' :: v) := by
  obtain ⟨k, t, o, w⟩ := d
  have hk : ∃ c u, k.text = c :: u ∧ isSpace c = false := by
    cases k <;> exact ⟨_, _, rfl, by decide⟩
  obtain ⟨c, u, e, hc⟩ := hk
  cases k with
  | setCommonOption | setOptionForController | setOptionForProxy =>
    refine ⟨c, u ++ ' ' :: o, hc, fun v => ?_⟩
    simp [formatRspamdCommand, join, List.intercalate, CommandKind.fields, Directive.get, e]
  | setOptionForModule =>
    refine ⟨c, u ++ ' ' :: (t ++ ' ' :: o), hc, fun v => ?_⟩
    simp [formatRspamdCommand, join, List.intercalate, CommandKind.fields, Directive.get, e]
  | addLine =>
    refine ⟨c, u ++ ' ' :: t, hc, fun v => ?_⟩
    simp [formatRspamdCommand, join, List.intercalate, CommandKind.fields, Directive.get, e]
  | enableModule | disableModule => exact absurd h (by simp [CommandKind.fields])

/-- The same directive with a value that a line may end with. -/
theorem IsClean.withValue {d : Directive} (h : IsClean d) (hm : .value ∈ d.kind.fields) {v : Str}
    (hv : IsRest v) : IsClean { d with value := v } where
  words f hf hne := by
    have e : Directive.get { d with value := v } f = d.get f := by
      cases f with
      | value => exact absurd rfl hne
      | target | option => rfl
    rw [e]
    exact h.words f hf hne
  rest _ := hv
  unused f hf := by
    cases f with
    | value => exact absurd hm hf
    | target => exact h.unused .target hf
    | option => exact h.unused .option hf

/-- A value with a boundary is read up to there, as another directive. -/
theorem broken_format {d : Directive} (h : IsClean d) (hn : ¬ OneLine d.value) :
    ∃ l c q b, formatRspamdCommand d = l ++ c :: q ∧ OneLine l ∧ isBreak c = true ∧
      parseRspamdCommand (strip l) = some b ∧ b ≠ d := by
  have hm : .value ∈ d.kind.fields := by
    by_contra hno
    have he : d.value = [] := h.unused .value hno
    rw [he] at hn
    exact hn fun _ hc => absurd hc List.not_mem_nil
  obtain ⟨l, c, q, e, hl, hc⟩ := exists_break hn
  obtain ⟨x, t, rfl, hx⟩ : ∃ x t, l = x :: t ∧ isSpace x = false := by
    cases l with
    | nil =>
      have hsp := (h.rest hm).trim c (.inl (by rw [e]; rfl))
      rw [isSpace_of_isBreak hc] at hsp
      cases hsp
    | cons x t => exact ⟨x, t, rfl, (h.rest hm).trim x (.inl (by rw [e]; rfl))⟩
  obtain ⟨y, u, hy, hformat⟩ := format_value d hm
  have hv : IsRest (x :: rstrip t) := by
    have hs : strip (x :: t) = x :: rstrip t := strip_append_cons [] t hx
    exact ⟨List.cons_ne_nil _ _, hs ▸ trim_strip (x :: t)⟩
  have hd : d = { d with value := x :: t ++ c :: q } := by rw [← e]
  refine ⟨formatRspamdCommand { d with value := x :: t }, c, q, { d with value := x :: rstrip t },
    ?_, oneLine_format ?_ hl, hc, ?_, fun he => ?_⟩
  · rw [hd, hformat, hformat]
    simp
  · intro f hf hne
    cases f with
    | value => exact absurd rfl hne
    | target => exact h.words .target hf hne
    | option => exact h.words .option hf hne
  · have hs : strip (formatRspamdCommand { d with value := x :: t }) =
        formatRspamdCommand { d with value := x :: rstrip t } := by
      have hcons : y :: (u ++ ' ' :: x :: t) = (y :: u ++ [' ']) ++ x :: t := by simp
      rw [hformat, hformat, hcons, strip_append_cons _ t hx, List.cons_append, lstrip_cons _ hy]
      simp
    rw [hs, parse_format (h.withValue hm hv)]
  · have hval : x :: rstrip t = x :: t ++ c :: q := (congrArg Directive.value he).trans e
    have hct : c ∈ x :: rstrip t := hval ▸ List.mem_append_right _ List.mem_cons_self
    have hcl : c ∈ x :: t := by
      rcases List.mem_cons.mp hct with rfl | hct
      · exact List.mem_cons_self
      · exact List.mem_cons_of_mem _ ((rstrip_isPrefix t).subset hct)
    rw [hl c hcl] at hc
    cases hc

/-- Directives written one a line are read back exactly when no value holds a
line boundary. -/
theorem read_written_commands_iff {ds : List Directive} (h : ∀ d ∈ ds, IsClean d) :
    (configLines (universalNewlines (managed (ds.map formatRspamdCommand)))).filterMap
        parseRspamdCommand = ds ↔ ∀ d ∈ ds, OneLine d.value := by
  refine read_written_iff (fun d _ => headed_format d) (fun d hd ho => ?_) fun d hd hn =>
    broken_format (h d hd) hn
  rw [strip_eq_self (isRest_format (h d hd)).trim]
  exact ⟨oneLine_format (h d hd).words ho, parse_format (h d hd)⟩

end MailserverUi.L1.RspamdCommands
