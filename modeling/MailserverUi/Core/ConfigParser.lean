import MailserverUi.Core.Dict
import MailserverUi.Core.Digits
import MailserverUi.Core.Lower

/-!
# INI files (`configparser.ConfigParser`)

`read_string` takes a text line by line: comments and blanks, section headers,
options, and lines of a value that are indented deeper than its first. A
value is interpolated when it is asked for, up to ten names deep.

Results:
* `readString_written`: options written as `name = value` below a header are
  read back.
* `interpolate_plain`: a value without a `%` is what it says.
-/
namespace MailserverUi.Py.ConfigParser

/-! ## Lines -/

/-- The header of a section, where there is one (`SECTCRE`): all up to the last
bracket. -/
def sectionHeader : Str → Option Str
  | '[' :: s => if ']' ∈ s ∧ beforeLast ']' s ≠ [] then some (beforeLast ']' s) else none
  | _ => none

def isDelimiter (c : Char) : Bool := c == '=' || c == ':'

/-- The name of an option and its value (`OPTCRE`), on a stripped line. -/
def optionLine (value : Str) : Option (Str × Str) :=
  if value.any isDelimiter then
    some (rstrip (value.takeWhile fun c => !isDelimiter c),
      strip ((value.dropWhile fun c => !isDelimiter c).tail))
  else none

/-- `DEFAULTSECT`. -/
def defaultSection : Str := "DEFAULT".toList

/-- `_ReadState`, with the values read so far. `optname` is empty where it is
`None`. -/
structure ReadState where
  values : Dict (Str × Str) (List Str)
  sections : List Str
  sectname : Option Str
  optname : Str
  indentLevel : Nat
  failed : Bool

def ReadState.init : ReadState := ⟨Dict.empty, [], none, [], 0, false⟩

/-- `cursect[optname].append(text)`. -/
def ReadState.append (st : ReadState) (sect text : Str) : ReadState :=
  { st with values :=
      st.values.set (sect, st.optname) ((st.values.get? (sect, st.optname)).getD [] ++ [text]) }

/-- `none` raises `DuplicateSectionError`. -/
def handleHeader (st : ReadState) (header : Str) : Option ReadState :=
  if header ∈ st.sections then none
  else if header = defaultSection then some { st with sectname := some header, optname := [] }
  else some { st with sections := header :: st.sections, sectname := some header, optname := [] }

/-- `none` raises `DuplicateOptionError`. A line that is no option, and one
without a name, raise at the end. -/
def handleOption (st : ReadState) (sect value : Str) : Option ReadState :=
  match optionLine value with
  | none => some { st with failed := true }
  | some (optname, optval) =>
    let optname' := lower optname
    if (sect, optname') ∈ st.values.keys then none
    else some { st with
      values := st.values.set (sect, optname') [optval]
      optname := optname'
      failed := st.failed || optname = [] }

/-- `none` raises `MissingSectionHeaderError` as well. -/
def handleRest (st : ReadState) (value : Str) : Option ReadState :=
  match sectionHeader value with
  | some header => handleHeader st header
  | none =>
    match st.sectname with
    | none => none
    | some sect => handleOption st sect value

def isComment (s : Str) : Bool := s.head? = some '#' || s.head? = some ';'

/-- One pass of the loop of `_read`. -/
def readLine (st : ReadState) (line : Str) : Option ReadState :=
  let trimmed := strip line
  if isComment trimmed then some st
  else
    let indent := (line.takeWhile isSpace).length
    match st.sectname with
    | none => if trimmed = [] then some st else handleRest { st with indentLevel := indent } trimmed
    | some sect =>
      if trimmed = [] then some (if st.optname = [] then st else st.append sect [])
      else if st.optname ≠ [] ∧ st.indentLevel < indent then some (st.append sect trimmed)
      else handleRest { st with indentLevel := indent } trimmed

/-- The lines of a `StringIO`. -/
def fileLines (s : Str) : List Str :=
  if (split '\n' s).getLast? = some [] then (split '\n' s).dropLast else split '\n' s

/-- A parsed file: the values of its options, by section. -/
structure Config where
  values : Dict (Str × Str) Str

/-- `'\n'.join(val).rstrip()`. -/
def joinValue (val : List Str) : Str := rstrip (join ['\n'] val)

/-- `parser.read_string(s)`; `none` is its `configparser.Error`. -/
def readString (s : Str) : Option Config :=
  match (fileLines s).foldlM readLine ReadState.init with
  | none => none
  | some st => if st.failed then none else some ⟨st.values.mapVal fun _ => joinValue⟩

/-- `parser.defaults()`. -/
def Config.defaults (config : Config) (option : Str) : Option Str :=
  config.values.get? (defaultSection, option)

/-! ## Interpolation -/

/-- A part of a value: a character, or `%(name)s`. -/
inductive Part where
  | char (c : Char)
  | name (s : Str)
  deriving DecidableEq, Repr

/-- Where in a value the scan is: outside, after a `%`, in a name, or after the
bracket that ends it. -/
inductive Mode where
  | text
  | percent
  | name (s : Str)
  | bracket (s : Str)
  deriving DecidableEq, Repr

/-- `none` raises `InterpolationSyntaxError`. -/
def scan : Mode → Char → Option (Mode × List Part)
  | .text, '%' => some (.percent, [])
  | .text, c => some (.text, [.char c])
  | .percent, '%' => some (.text, [.char '%'])
  | .percent, '(' => some (.name [], [])
  | .percent, _ => none
  | .name s, ')' => if s = [] then none else some (.bracket s, [])
  | .name s, c => some (.name (s ++ [c]), [])
  | .bracket s, 's' => some (.text, [.name s])
  | .bracket _, _ => none

/-- The parts of a value. -/
def partsFrom : Mode → Str → Option (List Part)
  | mode, [] => if mode = .text then some [] else none
  | mode, c :: s =>
    match scan mode c with
    | none => none
    | some (mode', parts) => (partsFrom mode' s).map (parts ++ ·)

/-- `MAX_INTERPOLATION_DEPTH`. -/
def maxInterpolationDepth : Nat := 10

/-- `BasicInterpolation.before_get`, so many names deep; `none` is an
`InterpolationError`. -/
def interpolate (defaults : Str → Option Str) : Nat → Str → Option Str
  | 0, _ => none
  | depth + 1, value => do
    let parts ← partsFrom .text value
    let texts ← parts.mapM fun
      | .char c => some [c]
      | .name s => (defaults (lower s)).bind fun v =>
          if '%' ∈ v then interpolate defaults depth v else some v
    return texts.flatten

/-- What `parser["DEFAULT"]` answers: `none` where the key is not there,
`some none` is an `InterpolationError`. -/
def Config.value (config : Config) (option : Str) : Option (Option Str) :=
  (config.defaults (lower option)).map (interpolate config.defaults maxInterpolationDepth)

/-- The blanks that `int` skips: `\x1c` to `\x1f` are not among them. -/
def isIntSpace (c : Char) : Bool :=
  c == ' ' || (9 ≤ c.toNat && c.toNat ≤ 13) || (127 ≤ c.toNat && isSpace c)

/-- `int(s)`; `none` is a `ValueError`. -/
def intOfText (s : Str) : Option Int :=
  signedInt ((s.dropWhile isIntSpace).rdropWhile isIntSpace)

/-- `parser["DEFAULT"].getint(option, fallback)`; `none` is an
`InterpolationError` or a `ValueError`. -/
def Config.getint (config : Config) (option : Str) (fallback : Int) : Option Int :=
  match config.value option with
  | none => some fallback
  | some value => value.bind intOfText

/-! ## Options that are written -/

/-- An option that `name = value` says. -/
structure IsOption (p : Str × Str) : Prop where
  ne : p.1 ≠ []
  noDelimiter : ∀ c ∈ p.1, isDelimiter c = false
  noNewline : '\n' ∉ p.1 ∧ '\n' ∉ p.2
  trim : Trim p.1 ∧ Trim p.2
  lower : lower p.1 = p.1
  head : ∀ c, p.1.head? = some c → c ≠ '#' ∧ c ≠ ';' ∧ c ≠ '['

/-- `f"{name} = {value}"`. -/
def written (p : Str × Str) : Str := p.1 ++ ' ' :: '=' :: ' ' :: p.2

section
variable {p : Str × Str} {sect optname : Str} {values : Dict (Str × Str) (List Str)}
  {sections : List Str}

theorem strip_written (h : IsOption p) :
    strip (written p) = p.1 ++ ' ' :: '=' :: rstrip (' ' :: p.2) := by
  have hl : lstrip (p.1 ++ [' ']) = p.1 ++ [' '] :=
    lstrip_eq_self fun c hc => by
      rw [List.head?_append_of_ne_nil _ h.ne] at hc
      exact h.trim.1 c (.inl hc)
  have hw : written p = (p.1 ++ [' ']) ++ '=' :: ' ' :: p.2 := by simp [written]
  rw [hw, strip_append_cons _ _ (by decide), hl, List.append_assoc]
  rfl

theorem optionLine_written (h : IsOption p) : optionLine (strip (written p)) = some p := by
  have hany : (p.1 ++ ' ' :: '=' :: rstrip (' ' :: p.2)).any isDelimiter = true :=
    List.any_eq_true.mpr ⟨'=', by simp, by decide⟩
  have hname : ∀ c ∈ p.1, (!isDelimiter c) = true := fun c hc => by
    rw [h.noDelimiter c hc]
    rfl
  have htake : (p.1 ++ ' ' :: '=' :: rstrip (' ' :: p.2)).takeWhile (fun c => !isDelimiter c) =
      p.1 ++ [' '] := List.takeWhile_append_of_pos hname
  have hdrop : (p.1 ++ ' ' :: '=' :: rstrip (' ' :: p.2)).dropWhile (fun c => !isDelimiter c) =
      '=' :: rstrip (' ' :: p.2) := List.dropWhile_append_of_pos hname
  have hopt : rstrip (p.1 ++ [' ']) = p.1 :=
    (List.rdropWhile_concat_pos _ _ _ (by decide)).trans (rstrip_eq_self h.trim.1)
  have hval : strip (rstrip (' ' :: p.2)) = p.2 := by
    rw [strip_rstrip, strip_cons_space _ (by decide), strip_eq_self h.trim.2]
  unfold optionLine
  rw [strip_written h, if_pos hany, htake, hdrop, hopt, List.tail_cons, hval]

theorem readLine_written (h : IsOption p) (hk : (sect, p.1) ∉ values.keys) :
    readLine ⟨values, sections, some sect, optname, 0, false⟩ (written p) =
      some ⟨values.set (sect, p.1) [p.2], sections, some sect, p.1, 0, false⟩ := by
  have hline := strip_written h
  obtain ⟨c, t, hp⟩ := List.exists_cons_of_ne_nil h.ne
  obtain ⟨hhash, hsemi, hbracket⟩ := h.head c (by rw [hp]; rfl)
  have hc : isSpace c = false := h.trim.1 c (.inl (by rw [hp]; rfl))
  have hcomment : isComment (strip (written p)) = false := by
    rw [hline, hp, isComment]
    simp [hhash, hsemi]
  have hne : strip (written p) ≠ [] := by
    rw [hline, hp]
    exact List.cons_ne_nil _ _
  have hindent : ((written p).takeWhile isSpace).length = 0 := by
    rw [written, hp, List.cons_append, List.takeWhile_cons_of_neg (by simp [hc])]
    rfl
  have hheader : sectionHeader (strip (written p)) = none := by
    rw [hline, hp, List.cons_append]
    unfold sectionHeader
    split
    · rename_i e
      cases e
      exact absurd rfl hbracket
    · rfl
  unfold readLine
  simp only [hcomment, hindent, if_neg hne, Nat.lt_irrefl, and_false, if_false, handleRest, hheader,
    handleOption, optionLine_written h, h.lower, if_neg hk, h.ne, decide_false, Bool.or_false,
    Bool.false_eq_true]

end

/-- A line that says nothing. -/
theorem readLine_comment {line : Str} (h : isComment (strip line) = true) (st : ReadState) :
    readLine st line = some st := if_pos h

/-- Options one a line, in the section they are below. -/
theorem foldlM_written {ps : List (Str × Str)} (h : ∀ p ∈ ps, IsOption p)
    (hnd : (ps.map Prod.fst).Nodup) (sect : Str) (sections : List Str) (optname : Str)
    (values : Dict (Str × Str) (List Str)) (hk : ∀ p ∈ ps, (sect, p.1) ∉ values.keys) :
    ∃ last, (ps.map written).foldlM readLine ⟨values, sections, some sect, optname, 0, false⟩ =
      some ⟨ps.foldl (fun d p => d.set (sect, p.1) [p.2]) values, sections, some sect, last, 0,
        false⟩ := by
  induction ps generalizing values optname with
  | nil => exact ⟨optname, rfl⟩
  | cons p ps ih =>
    obtain ⟨hp, hps⟩ := List.forall_mem_cons.mp h
    obtain ⟨hkp, hkps⟩ := List.forall_mem_cons.mp hk
    rw [List.map_cons, List.nodup_cons] at hnd
    rw [List.map_cons, List.foldlM_cons, readLine_written hp hkp]
    refine ih hps hnd.2 p.1 _ fun q hq hmem => ?_
    rcases Dict.mem_keys_set.mp hmem with e | hmem
    · exact hnd.1 (List.mem_map.mpr ⟨q, hq, (Prod.mk.inj e).2⟩)
    · exact hkps q hq hmem

theorem fileLines_unlines {ls : List Str} (h : ∀ l ∈ ls, '\n' ∉ l) : fileLines (unlines ls) = ls := by
  have hsplit : split '\n' (unlines ls) = ls ++ [[]] := by
    induction ls with
    | nil => rfl
    | cons l ls ih =>
      obtain ⟨hl, hls⟩ := List.forall_mem_cons.mp h
      have hu : unlines (l :: ls) = l ++ '\n' :: unlines ls := by
        simp [unlines]
      rw [hu, split, List.splitOn_append_cons_self_of_not_mem hl]
      exact congrArg _ (ih hls)
  unfold fileLines
  rw [hsplit, if_pos List.getLast?_concat, List.dropLast_concat]

theorem joinValue_singleton {v : Str} (h : Trim v) : joinValue [v] = v := by
  rw [joinValue, join, List.intercalate_singleton, rstrip_eq_self h]

/-- Options one a line, below a comment and the header of the defaults. -/
theorem readString_written {comment : Str} (hc : isComment (strip comment) = true)
    (hn : '\n' ∉ comment) {ps : List (Str × Str)} (h : ∀ p ∈ ps, IsOption p)
    (hnd : (ps.map Prod.fst).Nodup) :
    ∃ config, readString (unlines (comment :: "[DEFAULT]".toList :: ps.map written)) =
        some config ∧ ∀ k v, config.defaults k = some v ↔ (k, v) ∈ ps := by
  have hlines : ∀ l ∈ comment :: "[DEFAULT]".toList :: ps.map written, '\n' ∉ l := by
    refine List.forall_mem_cons.mpr ⟨hn, List.forall_mem_cons.mpr ⟨by decide, fun l hl => ?_⟩⟩
    obtain ⟨p, hp, rfl⟩ := List.mem_map.mp hl
    obtain ⟨h₁, h₂⟩ := (h p hp).noNewline
    simp [written, h₁, h₂]
  have hheader : readLine ReadState.init "[DEFAULT]".toList =
      some ⟨Dict.empty, [], some defaultSection, [], 0, false⟩ := by rfl
  obtain ⟨last, hread⟩ := foldlM_written h hnd defaultSection [] [] Dict.empty
    fun _ _ hm => absurd hm List.not_mem_nil
  have hfold : (comment :: "[DEFAULT]".toList :: ps.map written).foldlM readLine ReadState.init =
      some ⟨ps.foldl (fun d p => d.set (defaultSection, p.1) [p.2]) Dict.empty, [],
        some defaultSection, last, 0, false⟩ := by
    rw [List.foldlM_cons, readLine_comment hc]
    change (readLine ReadState.init "[DEFAULT]".toList >>= fun st => _) = _
    rw [hheader]
    exact hread
  have hpairs : ps.foldl (fun d p => d.set (defaultSection, p.1) [p.2]) Dict.empty =
      Dict.ofPairs (ps.map fun p => ((defaultSection, p.1), [p.2])) := by
    rw [Dict.ofPairs, List.foldl_map]
  have hkeys : ((ps.map fun p => ((defaultSection, p.1), [p.2])).map Prod.fst).Nodup := by
    have hpair := hnd.map (f := fun k => (defaultSection, k)) fun a b e => (Prod.mk.inj e).2
    rw [List.map_map] at hpair ⊢
    exact hpair
  unfold readString
  rw [fileLines_unlines hlines, hfold]
  refine ⟨_, rfl, fun k v => ?_⟩
  unfold Config.defaults
  dsimp only
  rw [Dict.get?_mapVal, hpairs, Option.map_eq_some_iff]
  constructor
  · rintro ⟨val, hval, rfl⟩
    rw [Dict.get?_ofPairs_eq_some hkeys] at hval
    obtain ⟨p, hp, e⟩ := List.mem_map.mp hval
    cases e
    rw [joinValue_singleton (h p hp).trim.2]
    exact hp
  · intro hp
    refine ⟨[v], (Dict.get?_ofPairs_eq_some hkeys).mpr (List.mem_map.mpr ⟨_, hp, rfl⟩), ?_⟩
    exact joinValue_singleton (h _ hp).trim.2

/-! ## Values without a name in them -/

theorem partsFrom_plain {v : Str} (h : '%' ∉ v) : partsFrom .text v = some (v.map .char) := by
  induction v with
  | nil => rfl
  | cons c v ih =>
    rw [List.mem_cons, not_or] at h
    have hscan : scan .text c = some (.text, [.char c]) := scan.eq_2 c fun e => h.1 e.symm
    rw [partsFrom, hscan]
    dsimp only
    rw [ih h.2]
    rfl

theorem interpolate_plain {v : Str} (h : '%' ∉ v) (defaults : Str → Option Str) (depth : Nat) :
    interpolate defaults (depth + 1) v = some v := by
  have hflat : (v.map fun c => [c]).flatten = v := by
    rw [← List.flatMap_def, List.flatMap_singleton']
  rw [interpolate, partsFrom_plain h]
  simp only [Option.bind_eq_bind, Option.bind_some, List.mapM_map]
  have hmap : v.mapM (fun c => some [c]) = some (v.map fun c => [c]) :=
    List.mapM_pure (m := Option) (f := fun c => [c])
  refine (congrArg (fun o => o.bind fun texts => pure texts.flatten) hmap).trans ?_
  exact congrArg some hflat

/-! ## Numbers -/

theorem isIntSpace_of_isSpace {c : Char} (h : isSpace c = false) : isIntSpace c = false := by
  refine Bool.eq_false_iff.mpr fun hi => ?_
  simp only [isIntSpace, Bool.or_eq_true, Bool.and_eq_true, beq_iff_eq, decide_eq_true_eq] at hi
  rcases hi with (rfl | hi) | ⟨-, hi⟩
  · revert h
    decide
  · simp only [isSpace, Bool.or_eq_false_iff, Bool.and_eq_false_iff, decide_eq_false_iff_not] at h
    omega
  · rw [h] at hi
    cases hi

theorem signedInt_str {n : Nat} (h : n < 10 ^ maxStrDigits) : signedInt (str n) = some (n : Int) := by
  have hdigits : digits (str n) = some n := by
    have hsplit : (str n).splitOn '_' = [str n] :=
      List.splitOn_eq_singleton (not_mem_str (by decide) n)
    have hne : str n ≠ [] := Nat.toDigits_ne_nil
    unfold digits
    dsimp only
    rw [hsplit, if_neg (by simpa using hne.symm), List.flatten_singleton, int_str h]
  unfold signedInt
  split
  · rename_i s e
    exact absurd (e ▸ List.mem_cons_self : '-' ∈ str n) (not_mem_str (by decide) n)
  · rename_i s e
    exact absurd (e ▸ List.mem_cons_self : '+' ∈ str n) (not_mem_str (by decide) n)
  · rw [hdigits]
    rfl

theorem intOfText_str {n : Nat} (h : n < 10 ^ maxStrDigits) : intOfText (str n) = some (n : Int) := by
  have hno : ∀ c ∈ str n, isIntSpace c = false := fun c hc =>
    isIntSpace_of_isSpace (noSpace_str n c hc)
  have hdrop : (str n).dropWhile isIntSpace = str n :=
    List.dropWhile_eq_self_iff.mpr fun hl => by simpa using hno _ (List.getElem_mem hl)
  have hrdrop : (str n).rdropWhile isIntSpace = str n :=
    List.rdropWhile_eq_self_iff.mpr fun hn => by simpa using hno _ (List.getLast_mem hn)
  rw [intOfText, hdrop, hrdrop, signedInt_str h]

end MailserverUi.Py.ConfigParser
