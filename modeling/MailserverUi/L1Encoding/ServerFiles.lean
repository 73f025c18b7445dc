import MailserverUi.Core.Dict
import MailserverUi.Core.Digits
import MailserverUi.Core.Lower

/-!
# Lines of the flat files of the mailserver service

The relay map, the SASL file, the access maps, the Dovecot masters, the system
aliases and the regex aliases are read as stripped lines without comments, and
written back as a managed header and one line each.

A parser that may raise returns an `Option`: `none` is a `ValueError` of `int`
or an `IndexError` of `parts[0]`.
-/
namespace MailserverUi.L1.ServerFiles

open Py

/-! ## Lines -/

/-- mirrors backend/app/services/mailserver_service.py:211-212 -/
def managedHeader : Str :=
  "# Managed by Mailserver UI — manual edits may be overwritten.\n".toList

/-- mirrors backend/app/services/mailserver_service.py:267-271 -/
def configLines (content : Str) : List Str :=
  ((splitlines content).filter fun l => strip l ≠ [] ∧ (lstrip l).head? ≠ some '#').map strip

/-- mirrors backend/app/services/mailserver_service.py:276 -/
def managed (lines : List Str) : Str := managedHeader ++ unlines lines

/-- A text without the header that it begins with, stripped. -/
def unheaded (header content : Str) : Str :=
  strip (if header.isPrefixOf content then content.drop header.length else content)

/-- What is written under a header is read without it, whatever it begins
with. -/
theorem unheaded_headed {header : Str} (h : '\r' ∉ header) (body : Str) :
    unheaded header (universalNewlines (header ++ body)) = strip (universalNewlines body) := by
  have hpre : header.isPrefixOf (header ++ universalNewlines body) = true :=
    List.isPrefixOf_iff_prefix.mpr (List.prefix_append _ _)
  rw [universalNewlines_append body h, unheaded, if_pos hpre, List.drop_left]

theorem unheaded_nil (header : Str) : unheaded header [] = [] := by
  unfold unheaded
  split <;> simp

/-- A line that is read as it stands: it begins with neither a blank nor `#`. -/
def Headed (l : Str) : Prop := ∃ c t, l = c :: t ∧ isSpace c = false ∧ c ≠ '#'

theorem Headed.prefix {p q : Str} {c : Char} (h : Headed (p ++ c :: q)) (hc : isBreak c = true) :
    Headed p := by
  obtain ⟨d, t, e, hd, hh⟩ := h
  cases p with
  | nil =>
    cases e
    exact absurd (isSpace_of_isBreak hc) (by simp [hd])
  | cons x p =>
    cases e
    exact ⟨d, p, rfl, hd, hh⟩

theorem Headed.kept {l : Str} (h : Headed l) :
    strip l ≠ [] ∧ (lstrip l).head? ≠ some '#' := by
  obtain ⟨c, t, rfl, hc, hh⟩ := h
  constructor
  · rw [← List.nil_append (c :: t), strip_append_cons [] t hc]
    exact List.cons_ne_nil _ _
  · rw [lstrip_cons t hc]
    simpa using hh

theorem filter_headed {ls : List Str} (h : ∀ l ∈ ls, Headed l) :
    ls.filter (fun l => strip l ≠ [] ∧ (lstrip l).head? ≠ some '#') = ls :=
  List.filter_eq_self.mpr fun l hl => decide_eq_true (h l hl).kept

/-- The header without its line break. -/
def headerLine : Str := managedHeader.dropLast

theorem managed_eq (ls : List Str) : managed ls = unlines (headerLine :: ls) := by
  have h : managedHeader = headerLine ++ ['\n'] := by decide
  rw [managed, h]
  rfl

theorem oneLine_headerLine : OneLine headerLine := by decide

theorem header_dropped (ls : List Str) :
    (headerLine :: ls).filter (fun l => strip l ≠ [] ∧ (lstrip l).head? ≠ some '#') =
      ls.filter fun l => strip l ≠ [] ∧ (lstrip l).head? ≠ some '#' :=
  List.filter_cons_of_neg (by decide)

/-- Lines of one line each are read back, less the blanks around them. -/
theorem configLines_managed {ls : List Str} (ho : ∀ l ∈ ls, OneLine l) (hh : ∀ l ∈ ls, Headed l) :
    configLines (universalNewlines (managed ls)) = ls.map strip := by
  have hall : ∀ l ∈ headerLine :: ls, OneLine l :=
    List.forall_mem_cons.mpr ⟨oneLine_headerLine, ho⟩
  rw [managed_eq, universalNewlines_eq_self (unlines_no_cr hall), configLines,
    splitlines_unlines hall, header_dropped, filter_headed hh]

/-- Text behind such lines is read on its own. -/
theorem configLines_managed_append {ls : List Str} (ho : ∀ l ∈ ls, OneLine l)
    (hh : ∀ l ∈ ls, Headed l) (s : Str) :
    configLines (universalNewlines (managed ls ++ s)) =
      ls.map strip ++ configLines (universalNewlines s) := by
  have hall : ∀ l ∈ headerLine :: ls, OneLine l :=
    List.forall_mem_cons.mpr ⟨oneLine_headerLine, ho⟩
  rw [managed_eq, universalNewlines_append _ (unlines_no_cr hall), configLines,
    splitlines_append hall, List.cons_append, header_dropped, List.filter_append, filter_headed hh,
    List.map_append, configLines]

/-- A line with a boundary inside is read as what stands before the boundary,
and something more. -/
theorem configLines_managed_broken {ls : List Str} (rest : List Str) {p q : Str} {c : Char}
    (ho : ∀ l ∈ ls, OneLine l) (hh : ∀ l ∈ ls, Headed l) (hp : OneLine p) (hc : isBreak c = true)
    (hl : Headed (p ++ c :: q)) :
    ∃ more, configLines (universalNewlines (managed (ls ++ (p ++ c :: q) :: rest))) =
      ls.map strip ++ strip p :: more := by
  have hall : ∀ l ∈ headerLine :: ls, OneLine l :=
    List.forall_mem_cons.mpr ⟨oneLine_headerLine, ho⟩
  have hp' := hl.prefix hc
  obtain ⟨more, hmore⟩ := splitlines_broken hall hp hc (q ++ '\n' :: unlines rest)
  have e : managed (ls ++ (p ++ c :: q) :: rest) =
      unlines (headerLine :: ls) ++ (p ++ c :: (q ++ '\n' :: unlines rest)) := by
    rw [managed_eq]
    simp [unlines]
  refine ⟨(more.filter fun l => strip l ≠ [] ∧ (lstrip l).head? ≠ some '#').map strip, ?_⟩
  rw [e, configLines, hmore, List.cons_append, header_dropped, List.filter_append,
    filter_headed hh, List.filter_cons_of_pos (by simpa using hp'.kept), List.map_append,
    List.map_cons]

/-- Entries written one a line are read back exactly when each is `good`, for a
format in which a good entry is one line, and another is read, up to its first
boundary, as a different entry. -/
theorem read_written_iff {β : Type} {parse : Str → Option β} {format : β → Str} {good : β → Prop}
    {ps : List β} (hh : ∀ p ∈ ps, Headed (format p))
    (hok : ∀ p ∈ ps, good p → OneLine (format p) ∧ parse (strip (format p)) = some p)
    (hbad : ∀ p ∈ ps, ¬ good p → ∃ l c q b, format p = l ++ c :: q ∧ OneLine l ∧
      isBreak c = true ∧ parse (strip l) = some b ∧ b ≠ p) :
    (configLines (universalNewlines (managed (ps.map format)))).filterMap parse = ps ↔
      ∀ p ∈ ps, good p := by
  have hlines {qs : List β} (hqs : ∀ p ∈ qs, p ∈ ps) : ∀ l ∈ qs.map format, Headed l := by
    intro l hl
    obtain ⟨p, hp, rfl⟩ := List.mem_map.mp hl
    exact hh p (hqs p hp)
  have hone {qs : List β} (hqs : ∀ p ∈ qs, p ∈ ps ∧ good p) : ∀ l ∈ qs.map format, OneLine l := by
    intro l hl
    obtain ⟨p, hp, rfl⟩ := List.mem_map.mp hl
    exact (hok p (hqs p hp).1 (hqs p hp).2).1
  have hread {qs : List β} (hqs : ∀ p ∈ qs, p ∈ ps ∧ good p) :
      ((qs.map format).map strip).filterMap parse = qs := by
    rw [List.map_map, List.filterMap_map]
    have h : ∀ p ∈ qs, (parse ∘ (strip ∘ format)) p = some p :=
      fun p hp => (hok p (hqs p hp).1 (hqs p hp).2).2
    rw [List.filterMap_congr h, List.filterMap_some]
  constructor
  · intro h
    by_contra hn
    obtain ⟨ps₁, p, ps₂, rfl, hall, hp⟩ := exists_first hn
    obtain ⟨l, c, q, b, e, hl, hc, hb, hne⟩ := hbad p (List.mem_append_right _ List.mem_cons_self) hp
    have hhead := hh p (List.mem_append_right _ List.mem_cons_self)
    have hqs : ∀ r ∈ ps₁, r ∈ ps₁ ++ p :: ps₂ ∧ good r :=
      fun r hr => ⟨List.mem_append_left _ hr, hall r hr⟩
    rw [e] at hhead
    rw [List.map_append, List.map_cons, e] at h
    obtain ⟨more, hmore⟩ := configLines_managed_broken (ps₂.map format) (hone hqs)
      (hlines fun p hp => (hqs p hp).1) hl hc hhead
    rw [hmore, List.filterMap_append, hread hqs, List.filterMap_cons_some hb] at h
    exact hne (List.cons.inj (List.append_cancel_left h)).1
  · intro hall
    have hqs : ∀ p ∈ ps, p ∈ ps ∧ good p := fun p hp => ⟨hp, hall p hp⟩
    rw [configLines_managed (hone hqs) (hlines fun _ hp => hp), hread hqs]

/-- `text.strip().lower()`. -/
def normalise (text : Str) : Str := lower (strip text)

/-! ## SMTP relays -/

/-- A relay host and its port; `none` opts the sender out of the global relay. -/
abbrev Target := Option (Str × Nat)

/-- The port a target names, 587 when it names none. -/
def portOf (text : Str) : Option Nat := if isdigit text then int text else some 587

/-- `[host]:port`, `host:port` or `host`.
mirrors backend/app/services/mailserver_service.py:304-319 -/
def parseRelayTarget (token : Str) : Option (Str × Nat) :=
  match strip token with
  | '[' :: rest => (portOf ((after ']' rest).dropWhile (· == ':'))).map (strip (before ']' rest), ·)
  | token =>
    if ':' ∈ token then (portOf (afterLast ':' token)).map (strip (beforeLast ':' token), ·)
    else some (strip token, 587)

/-- One line of the loop of `_parse_relaymap`. -/
def relayLine (relays : Dict Str Target) (line : Str) : Option (Dict Str Target) :=
  match words line with
  | [] => none
  | [sender] => some (relays.set (lower sender) none)
  | sender :: target :: _ =>
    (parseRelayTarget target).map fun t =>
      if t.1 ≠ [] then relays.set (lower sender) (some t) else relays

/-- mirrors backend/app/services/mailserver_service.py:329-339 -/
def relaysOf (lines : List Str) : Option (Dict Str Target) := lines.foldlM relayLine Dict.empty

/-- `f"{sender}\t[{host}]:{port}"`, or the sender alone. -/
def formatRelay (sender : Str) : Target → Str
  | none => sender
  | some (host, port) => sender ++ '\t' :: '[' :: host ++ ']' :: ':' :: str port

/-- mirrors backend/app/services/mailserver_service.py:360-363 -/
def relayLines (relays : Dict Str Target) : List Str :=
  relays.sortedItems.map fun p => formatRelay p.1 p.2

/-- One line of the loop of `_parse_sasl`. -/
def credsLine (creds : Dict Str (Str × Str)) (line : Str) : Dict Str (Str × Str) :=
  match split1 line with
  | sender :: login :: _ =>
    creds.set (lower sender) (strip (before ':' login), strip (after ':' login))
  | _ => creds

/-- `sender -> (username, password)`.
mirrors backend/app/services/mailserver_service.py:344-351 -/
def credsOf (lines : List Str) : Dict Str (Str × Str) := lines.foldl credsLine Dict.empty

/-- mirrors backend/app/services/mailserver_service.py:369-373 -/
def saslLines (creds : Dict Str (Str × Str)) : List Str :=
  (creds.sortedItems.filter fun p => p.2.1 ≠ []).map fun p =>
    p.1 ++ '\t' :: p.2.1 ++ ':' :: p.2.2

/-! ## Postfix overrides -/

/-- The body of the loops of `list_postfix_overrides` and
`list_postfix_master_overrides`.
mirrors backend/app/services/mailserver_service.py:496-499,531-534 -/
def parseOverride (line : Str) : Option (Str × Str) :=
  if strip (before '=' line) ≠ [] ∧ '=' ∈ line then
    some (strip (before '=' line), strip (after '=' line))
  else none

/-- `f"{key} = {value}"`, or `f"{key}={value}"`. -/
def formatOverride (spaced : Bool) (key value : Str) : Str :=
  if spaced then key ++ ' ' :: '=' :: ' ' :: value else key ++ '=' :: value

/-- A key that a line may begin with. -/
structure IsKey (key : Str) : Prop where
  ne : key ≠ []
  noSpace : NoSpace key
  noSign : '=' ∉ key
  noHash : '#' ∉ key

theorem parseOverride_strip (line : Str) : parseOverride (strip line) = parseOverride line := by
  have hs : isSpace '=' = false := by decide
  simp only [parseOverride, strip_before_strip line hs, strip_after_strip line hs,
    mem_strip_iff (s := line) hs]

section
variable {key : Str} (spaced : Bool) (value : Str)

/-- Whatever follows the sign is read as the value, stripped. -/
theorem parseOverride_format (h : IsKey key) :
    parseOverride (formatOverride spaced key value) = some (key, strip value) := by
  have hsp : isSpace ' ' = true := by decide
  unfold parseOverride formatOverride
  cases spaced with
  | true =>
    have e : key ++ ' ' :: '=' :: ' ' :: value = (key ++ [' ']) ++ '=' :: (' ' :: value) := by simp
    have hk : '=' ∉ key ++ [' '] := by simpa using h.noSign
    rw [if_pos rfl, e, before_append _ hk, after_append _ hk, strip_concat_space _ hsp,
      strip_cons_space _ hsp, h.noSpace.strip_eq]
    exact if_pos ⟨h.ne, List.mem_append_right _ List.mem_cons_self⟩
  | false =>
    rw [if_neg Bool.false_ne_true, before_append _ h.noSign, after_append _ h.noSign,
      h.noSpace.strip_eq]
    exact if_pos ⟨h.ne, List.mem_append_right _ List.mem_cons_self⟩

theorem headed_formatOverride (h : IsKey key) : Headed (formatOverride spaced key value) := by
  obtain ⟨c, t, rfl⟩ := List.exists_cons_of_ne_nil h.ne
  have hc : isSpace c = false := h.noSpace c List.mem_cons_self
  have hh : c ≠ '#' := fun e => h.noHash (e ▸ List.mem_cons_self)
  cases spaced with
  | true => exact ⟨c, t ++ ' ' :: '=' :: ' ' :: value, rfl, hc, hh⟩
  | false => exact ⟨c, t ++ '=' :: value, rfl, hc, hh⟩

theorem oneLine_formatOverride (h : IsKey key) (hv : OneLine value) :
    OneLine (formatOverride spaced key value) := by
  cases spaced with
  | true =>
    have e : formatOverride true key value = key ++ [' ', '=', ' '] ++ value := by
      simp [formatOverride]
    rw [e]
    exact (h.noSpace.oneLine.append (by decide)).append hv
  | false =>
    have e : formatOverride false key value = key ++ ['='] ++ value := by
      simp [formatOverride]
    rw [e]
    exact (h.noSpace.oneLine.append (by decide)).append hv

/-- What precedes a boundary in the value is a line with a shorter value. -/
theorem formatOverride_append (p : Str) (c : Char) (q : Str) :
    formatOverride spaced key (p ++ c :: q) = formatOverride spaced key p ++ c :: q := by
  cases spaced <;> simp [formatOverride]

end

theorem plain_of_mem_class {c : Char} (h : c.isAlphanum = true ∨ c ∈ ['_', '.', '-', '/']) :
    isSpace c = false ∧ c ≠ '=' ∧ c ≠ '#' := by
  rcases h with h | h
  · have hr := isAlphanum_range h
    refine ⟨isSpace_of_range (by omega) (by omega), ?_, ?_⟩
    · rintro rfl
      exact absurd h (by decide)
    · rintro rfl
      exact absurd h (by decide)
  · simp only [List.mem_cons, List.not_mem_nil, or_false] at h
    rcases h with rfl | rfl | rfl | rfl <;> decide

theorem IsKey.of_class {key : Str} (hne : key ≠ [])
    (h : ∀ c ∈ key, c.isAlphanum = true ∨ c ∈ ['_', '.', '-', '/']) : IsKey key where
  ne := hne
  noSpace c hc := (plain_of_mem_class (h c hc)).1
  noSign hc := (plain_of_mem_class (h _ hc)).2.1 rfl
  noHash hc := (plain_of_mem_class (h _ hc)).2.2 rfl

/-- `_POSTFIX_KEY_RE` on a stripped key.
mirrors backend/app/services/mailserver_service.py:215 -/
def isPostfixKey (key : Str) : Bool :=
  key ≠ [] && key.all fun c => c.isAlphanum || c = '_'

/-- `_POSTFIX_MASTER_KEY_RE` on a stripped key: none of the three classes has
the slash that separates them.
mirrors backend/app/services/mailserver_service.py:219 -/
def isPostfixMasterKey (key : Str) : Bool :=
  match split '/' key with
  | [service, type, parameter] =>
    (service ≠ [] && service.all fun c => c.isAlphanum || c ∈ ['_', '.', '-']) &&
      (type ≠ [] && type.all Char.isLower) &&
      (parameter ≠ [] && parameter.all fun c => c.isAlphanum || c = '_')
  | _ => false

theorem isKey_of_isPostfixKey {key : Str} (h : isPostfixKey key = true) : IsKey key := by
  simp only [isPostfixKey, Bool.and_eq_true, decide_eq_true_eq, List.all_eq_true,
    Bool.or_eq_true] at h
  refine .of_class h.1 fun c hc => (h.2 c hc).imp id ?_
  rintro rfl
  decide

theorem isKey_of_isPostfixMasterKey {key : Str} (h : isPostfixMasterKey key = true) :
    IsKey key := by
  unfold isPostfixMasterKey at h
  split at h
  · rename_i service type parameter e
    simp only [Bool.and_eq_true, decide_eq_true_eq, List.all_eq_true, Bool.or_eq_true] at h
    obtain ⟨⟨⟨hs, hsc⟩, -, htc⟩, -, hpc⟩ := h
    have hkey : key = service ++ '/' :: type ++ '/' :: parameter := by
      rw [← join_split '/' key, e]
      simp [join, List.intercalate]
    refine .of_class (by simp [hkey, hs]) fun c hc => ?_
    rw [hkey] at hc
    simp only [List.mem_append, List.mem_cons] at hc
    rcases hc with (hc | rfl | hc) | rfl | hc
    · refine (hsc c hc).imp id fun hm => ?_
      simp only [List.mem_cons] at hm ⊢
      tauto
    · exact .inr (by decide)
    · have hl : c.isLower = true := htc c hc
      exact .inl (by simp [Char.isAlphanum, Char.isAlpha, hl])
    · exact .inr (by decide)
    · refine (hpc c hc).imp id ?_
      rintro rfl
      decide
  · cases h

/-! ## Restrictions -/

/-- `line.split()[0].strip().lower()`. -/
def restrictedAddress (line : Str) : Option Str := (words line).head?.map normalise

/-- mirrors backend/app/services/mailserver_service.py:806-811 -/
def restrictedOf (lines : List Str) : Option (List Str) :=
  (lines.mapM restrictedAddress).map fun addresses => addresses.filter (· ≠ [])

/-- `[f"{addr}\tREJECT" for addr in sorted(set(addresses))]`. -/
def restrictionLines (addresses : List Str) : List Str :=
  (addresses.dedup.insertionSort (· ≤ ·)).map fun a => a ++ '\t' :: "REJECT".toList

/-! ## Dovecot masters -/

/-- mirrors backend/app/services/mailserver_service.py:1016-1018 -/
def splitMaster (line : Str) : Str := normalise (before '|' line)

/-! ## System aliases -/

/-- mirrors backend/app/models/mailserver_models.py:120-127 -/
structure SystemAlias where
  name : Str
  targets : List Str
  deriving DecidableEq, Repr

/-- `[target.strip() for target in targets if target.strip()]`. -/
def stripped (targets : List Str) : List Str := (targets.filter fun t => strip t ≠ []).map strip

/-- mirrors backend/app/services/mailserver_service.py:1065-1069 -/
def parseSystemAlias (line : Str) : SystemAlias :=
  ⟨normalise (before ':' line), stripped (split ',' (after ':' line))⟩

/-- `sorted(aliases, key=lambda alias: alias.name)`. -/
def sortByName (aliases : List SystemAlias) : List SystemAlias :=
  aliases.insertionSort fun a b => a.name ≤ b.name

/-- mirrors backend/app/services/mailserver_service.py:1074-1081 -/
def systemAliasesOf (lines : List Str) : List SystemAlias :=
  sortByName ((lines.map parseSystemAlias).filter fun a => a.name ≠ [] ∧ a.targets ≠ [])

def formatSystemAlias (a : SystemAlias) : Str :=
  a.name ++ ':' :: ' ' :: join ", ".toList a.targets

/-- mirrors backend/app/services/mailserver_service.py:1088-1091 -/
def systemAliasLines (aliases : List SystemAlias) : List Str :=
  (sortByName aliases).map formatSystemAlias

/-- `_SYSTEM_ALIAS_NAME_RE` on a stripped name.
mirrors backend/app/services/mailserver_service.py:225 -/
def isAliasName (name : Str) : Bool :=
  name ≠ [] && name.all fun c => c.isAlphanum || c ∈ ['.', '_', '-']

/-! ## Regex aliases -/

/-- mirrors backend/app/models/mailserver_models.py:137-142 -/
structure RegexAlias where
  pattern : Str
  targets : List Str
  deriving DecidableEq, Repr

/-- `[target.strip().lower() for target in targets if target.strip()]`. -/
def normalised (targets : List Str) : List Str :=
  (targets.filter fun t => strip t ≠ []).map normalise

/-- mirrors backend/app/services/mailserver_service.py:1136-1145 -/
def parseRegexAlias (line : Str) : Option RegexAlias :=
  match split1 line with
  | [] => none
  | pattern :: rest =>
    some ⟨strip pattern, (rest.head?.map fun t => normalised (split ',' t)).getD []⟩

/-- mirrors backend/app/services/mailserver_service.py:1150-1157 -/
def regexAliasesOf (lines : List Str) : Option (List RegexAlias) :=
  (lines.mapM parseRegexAlias).map fun aliases =>
    (aliases.filter fun a => a.pattern ≠ [] ∧ a.targets ≠ []).insertionSort
      fun a b => a.pattern ≤ b.pattern

/-- mirrors backend/app/services/mailserver_service.py:1164 -/
def regexAliasLines (aliases : List RegexAlias) : List Str :=
  aliases.map fun a => a.pattern ++ '\t' :: join [','] a.targets

/-- `_REGEX_ALIAS_PATTERN_RE` on a stripped pattern: the text between the first
and the last slash, when it is one line and not empty, and only flags follow.
mirrors backend/app/services/mailserver_service.py:228,1171-1176 -/
def patternBody : Str → Option Str
  | '/' :: rest =>
    let body := beforeLast '/' rest
    if '/' ∈ rest ∧ body ≠ [] ∧ '\n' ∉ body ∧ (afterLast '/' rest).all (· ∈ ['i', 'm', 'x', 's'])
    then some body else none
  | _ => none

end MailserverUi.L1.ServerFiles
