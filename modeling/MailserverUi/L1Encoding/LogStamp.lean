import MailserverUi.Core.Datetime
import MailserverUi.Core.Digits

/-!
# The timestamps of a mail log (`_parse_log_timestamp`)

A line begins with an RFC 3339 stamp or with a traditional one, which has no
year. `strptime` reads the latter in the year 1900, so that it knows no
29 February.

Results:
* `isoStamp_text`, `bsdStamp_text`: a line that begins with a traditional stamp
  is read by that stamp, whatever follows.
* `strptime_text`: it is read as the date that it has in 1900, if any.
-/
namespace MailserverUi.L1.LogStamp

open Py

/-! ## Regular expressions -/

/-- What one character class after another matches, and the rest. -/
def matchChars : List (Char → Bool) → Str → Option (Str × Str)
  | [], s => some ([], s)
  | _ :: _, [] => none
  | p :: ps, c :: s => if p c then (matchChars ps s).map fun r => (c :: r.1, r.2) else none

/-- `\d`. -/
def isDecimalChar (c : Char) : Bool := (decimalValue c).isSome

/-- `\d{2}:\d{2}:\d{2}`. -/
def clockClasses : List (Char → Bool) :=
  [isDecimalChar, isDecimalChar, (· == ':'), isDecimalChar, isDecimalChar, (· == ':'),
    isDecimalChar, isDecimalChar]

/-- `\d{4}-\d{2}-\d{2}[T ]` and a clock. -/
def isoClasses : List (Char → Bool) :=
  [isDecimalChar, isDecimalChar, isDecimalChar, isDecimalChar, (· == '-'), isDecimalChar,
    isDecimalChar, (· == '-'), isDecimalChar, isDecimalChar, fun c => c == 'T' || c == ' '] ++
    clockClasses

/-- `(?:\.\d+)?`. -/
def fraction : Str → Str
  | '.' :: s => if s.takeWhile isDecimalChar = [] then [] else '.' :: s.takeWhile isDecimalChar
  | _ => []

/-- `(?:Z|[+-]\S+)?`. -/
def zone : Str → Str
  | 'Z' :: _ => ['Z']
  | c :: s =>
    if (c = '+' ∨ c = '-') ∧ s.takeWhile (fun c => !isSpace c) ≠ [] then
      c :: s.takeWhile fun c => !isSpace c
    else []
  | [] => []

/-- The group of `_LOG_ISO_DATE_RE`.
mirrors backend/app/services/mailserver_service.py:237-239 -/
def isoStamp (line : Str) : Option Str :=
  (matchChars isoClasses line).map fun r =>
    r.1 ++ fraction r.2 ++ zone (r.2.drop (fraction r.2).length)

/-- `\d{1,2} `, less the space. -/
def dayPart : Str → Option (Str × Str)
  | a :: ' ' :: s => if isDecimalChar a then some ([a], s) else none
  | a :: b :: ' ' :: s => if isDecimalChar a && isDecimalChar b then some ([a, b], s) else none
  | _ => none

/-- The group of `_LOG_BSD_DATE_RE`.
mirrors backend/app/services/mailserver_service.py:240 -/
def bsdStamp (line : Str) : Option Str := do
  let (month, r) ← matchChars [Char.isUpper, Char.isLower, Char.isLower] line
  let gap := r.takeWhile isSpace
  if gap = [] then none
  else
    let (day, r) ← dayPart (r.dropWhile isSpace)
    let (clock, _) ← matchChars clockClasses r
    return month ++ gap ++ day ++ ' ' :: clock

/-! ## `strptime` -/

def monthNames : List Str :=
  ["jan", "feb", "mar", "apr", "may", "jun", "jul", "aug", "sep", "oct", "nov", "dec"].map
    String.toList

/-- `%b`, in the C locale. -/
def monthNumber (name : Str) : Option Nat :=
  (monthNames.findIdx? (· = name.map Char.toLower)).map (· + 1)

def inRange (lo hi c : Char) : Bool := lo ≤ c && c ≤ hi

/-- `%d`. -/
def dayNumber : Str → Option Nat
  | [a] => if inRange '1' '9' a then decimalValue a else none
  | [a, b] =>
    if (a == '3' && inRange '0' '1' b) || (inRange '1' '2' a && isDecimalChar b) ||
        (a == '0' && inRange '1' '9' b) then int [a, b]
    else none
  | _ => none

/-- One digit, or two that pass the test. -/
def clockNumber (two : Char → Char → Bool) : Str → Option Nat
  | [a] => decimalValue a
  | [a, b] => if two a b then int [a, b] else none
  | _ => none

/-- `%H`, `%M` and `%S`. -/
def hourNumber : Str → Option Nat := clockNumber fun a b =>
  (a == '2' && inRange '0' '3' b) || (inRange '0' '1' a && isDecimalChar b)

def minuteNumber : Str → Option Nat := clockNumber fun a b => inRange '0' '5' a && isDecimalChar b

def secondNumber : Str → Option Nat := clockNumber fun a b =>
  (a == '6' && inRange '0' '1' b) || (inRange '0' '5' a && isDecimalChar b)

/-- `datetime.strptime(text, "%b %d %H:%M:%S")`; `none` is its `ValueError`. -/
def strptime (text : Str) : Option Datetime := do
  let month ← monthNumber (text.take 3)
  let r := text.drop 3
  let day := (r.dropWhile isSpace).takeWhile fun c => !isSpace c
  let r' := (r.dropWhile isSpace).dropWhile fun c => !isSpace c
  if r.takeWhile isSpace = [] ∨ r'.takeWhile isSpace = [] then none
  else
    match split ':' (r'.dropWhile isSpace) with
    | [hour, minute, second] =>
      Datetime.of ⟨1900, month, ← dayNumber day, ← hourNumber hour, ← minuteNumber minute,
        ← secondNumber second, 0⟩
    | _ => none

/-- `none` raises `ValueError`. `fromisoformat` is `datetime.fromisoformat` of an
RFC 3339 stamp, in UTC, and its `ValueError`.
mirrors backend/app/services/mailserver_service.py:910-936 -/
def parseLogTimestamp (fromisoformat : Str → Option Datetime) (line : Str) (now : Datetime) :
    Option (Option Datetime) :=
  match isoStamp line with
  | some text => some (fromisoformat text)
  | none =>
    match bsdStamp line with
    | none => some none
    | some text =>
      match (strptime text).bind fun t => t.replaceYear now.year with
      | none => some none
      | some parsed =>
        if now < parsed then (parsed.replaceYear (now.year - 1)).map some else some (some parsed)

/-! ## Traditional stamps -/

/-- The day, as one digit or as two. -/
inductive DayText where
  | one (day : Fin 10)
  | two (day : Fin 100)

def twoDigits (n : Fin 100) : Str := [(n.val / 10).digitChar, (n.val % 10).digitChar]

def DayText.text : DayText → Str
  | .one day => [day.val.digitChar]
  | .two day => twoDigits day

def DayText.value : DayText → Nat
  | .one day => day
  | .two day => day

/-- `Mon DD HH:MM:SS`. -/
structure BsdStamp where
  month : Char × Char × Char
  gap : Str
  day : DayText
  hour : Fin 100
  minute : Fin 100
  second : Fin 100
  month_letters : month.1.isUpper = true ∧ month.2.1.isLower = true ∧ month.2.2.isLower = true
  gap_blank : gap ≠ [] ∧ ∀ c ∈ gap, isSpace c = true

namespace BsdStamp

def name (st : BsdStamp) : Str := [st.month.1, st.month.2.1, st.month.2.2]

def clock (st : BsdStamp) : Str :=
  twoDigits st.hour ++ ':' :: twoDigits st.minute ++ ':' :: twoDigits st.second

def text (st : BsdStamp) : Str := st.name ++ st.gap ++ st.day.text ++ ' ' :: st.clock

/-- The fields of the stamp in a year. -/
def fields (st : BsdStamp) (year month : Nat) : DateFields :=
  ⟨year, month, st.day.value, st.hour, st.minute, st.second, 0⟩

/-- The instant that has the month, day and time of the stamp in a year. -/
def inYear (st : BsdStamp) (year : Nat) : Option Datetime :=
  (monthNumber st.name).bind fun month => Datetime.of (st.fields year month)

end BsdStamp

/-! ### Digits -/

theorem decimalValue_digitChar : ∀ n : Fin 10, decimalValue n.val.digitChar = some n.val := by
  decide

theorem isDecimalChar_digitChar {n : Nat} (h : n < 10) : isDecimalChar n.digitChar = true := by
  rw [isDecimalChar, decimalValue_digitChar ⟨n, h⟩]
  rfl

theorem isSpace_digitChar : ∀ n : Fin 10, isSpace n.val.digitChar = false := by decide

theorem dayNumber_one : ∀ n : Fin 10, dayNumber [n.val.digitChar] =
    if 1 ≤ n.val then some n.val else none := by decide

theorem dayNumber_two : ∀ n : Fin 100, dayNumber (twoDigits n) =
    if 1 ≤ n.val ∧ n.val ≤ 31 then some n.val else none := by decide

theorem hourNumber_two : ∀ n : Fin 100, hourNumber (twoDigits n) =
    if n.val < 24 then some n.val else none := by decide

theorem minuteNumber_two : ∀ n : Fin 100, minuteNumber (twoDigits n) =
    if n.val < 60 then some n.val else none := by decide

theorem secondNumber_two : ∀ n : Fin 100, secondNumber (twoDigits n) =
    if n.val < 62 then some n.val else none := by decide

theorem isSpace_of_mem_two {n : Fin 100} {c : Char} (h : c ∈ twoDigits n) : isSpace c = false := by
  simp only [twoDigits, List.mem_cons, List.not_mem_nil, or_false] at h
  rcases h with rfl | rfl
  · exact isSpace_digitChar ⟨n.val / 10, by omega⟩
  · exact isSpace_digitChar ⟨n.val % 10, by omega⟩

theorem colon_not_mem_two (n : Fin 100) : ':' ∉ twoDigits n := by
  revert n
  decide

theorem DayText.noSpace (day : DayText) {c : Char} (h : c ∈ day.text) : isSpace c = false := by
  cases day with
  | one n =>
    rw [DayText.text, List.mem_singleton] at h
    exact h ▸ isSpace_digitChar n
  | two n => exact isSpace_of_mem_two h

/-- No letter is a digit. -/
theorem isDecimalChar_of_isUpper {c : Char} (h : c.isUpper = true) : isDecimalChar c = false := by
  have hr : 65 ≤ c.toNat ∧ c.toNat ≤ 90 := by
    simpa [Char.isUpper, UInt32.le_iff_toNat_le] using h
  have hz : ∀ n < 91, 65 ≤ n → ∀ z ∈ zeros, ¬ (z ≤ n ∧ n < z + 10) := by decide
  have hnone : zeros.find? (fun z => z ≤ c.toNat && c.toNat < z + 10) = none := by
    refine List.find?_eq_none.mpr fun z hm hc => ?_
    rw [Bool.and_eq_true, decide_eq_true_eq, decide_eq_true_eq] at hc
    exact hz c.toNat (by omega) hr.1 z hm hc
  unfold isDecimalChar decimalValue
  rw [hnone]
  rfl

/-! ### Reading the stamp -/

section
variable (st : BsdStamp) (rest : Str)

theorem matchChars_append {ps : List (Char → Bool)} {s : Str}
    (h : List.Forall₂ (fun p c => p c = true) ps s) : matchChars ps (s ++ rest) = some (s, rest) := by
  induction h with
  | nil => rfl
  | cons hc _ ih =>
    rw [List.cons_append, matchChars, if_pos hc, ih]
    rfl

theorem isoStamp_text : isoStamp (st.text ++ rest) = none := by
  have hd := isDecimalChar_of_isUpper st.month_letters.1
  have hm : matchChars isoClasses (st.text ++ rest) = none := by
    change (if isDecimalChar st.month.1 then _ else none) = none
    rw [hd]
    rfl
  rw [isoStamp, hm]
  rfl

theorem dayPart_text (day : DayText) : dayPart (day.text ++ ' ' :: rest) = some (day.text, rest) := by
  cases day with
  | one n =>
    change (if isDecimalChar n.val.digitChar then _ else none) = _
    rw [if_pos (isDecimalChar_digitChar n.isLt)]
    rfl
  | two n =>
    have ha := isDecimalChar_digitChar (n := n.val / 10) (by omega)
    have hb := isDecimalChar_digitChar (n := n.val % 10) (by omega)
    have hsp : (n.val % 10).digitChar ≠ ' ' := fun e => by
      have := isSpace_digitChar ⟨n.val % 10, by omega⟩
      rw [e] at this
      cases this
    simp only [DayText.text, twoDigits, List.cons_append, List.nil_append]
    unfold dayPart
    split
    · rename_i h
      simp only [List.cons.injEq] at h
      exact absurd h.2.1 hsp
    · rename_i h
      simp only [List.cons.injEq] at h
      obtain ⟨rfl, rfl, -, rfl⟩ := h
      rw [ha, hb]
      rfl
    · rename_i h
      exact absurd rfl (h _ _ _)

theorem forall₂_clock : List.Forall₂ (fun p c => p c = true) clockClasses st.clock := by
  have hd {n : Nat} (h : n < 10) := isDecimalChar_digitChar h
  unfold clockClasses BsdStamp.clock twoDigits
  simp only [List.cons_append, List.nil_append, List.forall₂_cons, List.Forall₂.nil, and_true,
    beq_self_eq_true, true_and]
  exact ⟨hd (by omega), hd (by omega), hd (by omega), hd (by omega), hd (by omega), hd (by omega)⟩

/-- Blanks, and then something else. -/
theorem takeWhile_blank {gap s : Str} (hg : ∀ c ∈ gap, isSpace c = true)
    (hs : ∀ c ∈ s.head?, isSpace c = false) :
    (gap ++ s).takeWhile isSpace = gap ∧ (gap ++ s).dropWhile isSpace = s := by
  rw [List.takeWhile_append_of_pos hg, List.dropWhile_append_of_pos hg]
  cases s with
  | nil => simp
  | cons c s =>
    have hc : ¬ isSpace c = true := by simpa using hs c rfl
    rw [List.takeWhile_cons_of_neg hc, List.dropWhile_cons_of_neg hc, List.append_nil]
    exact ⟨rfl, rfl⟩

theorem DayText.head_text (day : DayText) (s : Str) :
    ∀ c ∈ (day.text ++ s).head?, isSpace c = false := by
  intro c hc
  cases day with
  | one n => exact Option.some.inj hc ▸ isSpace_digitChar n
  | two n => exact Option.some.inj hc ▸ isSpace_digitChar ⟨n.val / 10, by omega⟩

theorem bsdStamp_text : bsdStamp (st.text ++ rest) = some st.text := by
  have hname : matchChars [Char.isUpper, Char.isLower, Char.isLower] (st.text ++ rest) =
      some (st.name, st.gap ++ (st.day.text ++ ' ' :: (st.clock ++ rest))) := by
    have hassoc : st.text ++ rest =
        st.name ++ (st.gap ++ (st.day.text ++ ' ' :: (st.clock ++ rest))) := by
      simp [BsdStamp.text]
    rw [hassoc]
    refine matchChars_append _ ?_
    obtain ⟨h₁, h₂, h₃⟩ := st.month_letters
    exact .cons h₁ (.cons h₂ (.cons h₃ .nil))
  obtain ⟨htake, hdrop⟩ := takeWhile_blank st.gap_blank.2
    (st.day.head_text (' ' :: (st.clock ++ rest)))
  have hclock := matchChars_append rest (forall₂_clock st)
  simp only [bsdStamp, hname, Option.bind_eq_bind, Option.bind_some, htake, hdrop,
    if_neg st.gap_blank.1, dayPart_text, hclock]
  rfl

theorem dayNumber_text (day : DayText) : dayNumber day.text =
    if 1 ≤ day.value ∧ day.value ≤ 31 then some day.value else none := by
  cases day with
  | one n =>
    refine (dayNumber_one n).trans (if_congr ?_ rfl rfl)
    exact ⟨fun h => ⟨h, by change n.val ≤ 31; omega⟩, fun h => h.1⟩
  | two n => exact dayNumber_two n

theorem split_clock : split ':' st.clock =
    [twoDigits st.hour, twoDigits st.minute, twoDigits st.second] := by
  have hj : st.clock = join [':'] [twoDigits st.hour, twoDigits st.minute, twoDigits st.second] := by
    simp [BsdStamp.clock, join, List.intercalate]
  rw [hj]
  refine split_join (List.cons_ne_nil _ _) fun p hp => ?_
  simp only [List.mem_cons, List.not_mem_nil, or_false] at hp
  rcases hp with rfl | rfl | rfl <;> exact colon_not_mem_two _

theorem head_clock : ∀ c ∈ st.clock.head?, isSpace c = false := by
  intro c hc
  exact isSpace_of_mem_two (n := st.hour) (Option.some.inj hc ▸ List.mem_cons_self)

/-- The date that the stamp has in 1900. -/
theorem strptime_text : strptime st.text = st.inYear 1900 := by
  have hsplit : st.text = st.name ++ (st.gap ++ (st.day.text ++ ' ' :: st.clock)) := by
    simp [BsdStamp.text]
  have htake : st.text.take 3 = st.name := by
    rw [hsplit]
    exact List.take_left' rfl
  have hdrop : st.text.drop 3 = st.gap ++ (st.day.text ++ ' ' :: st.clock) := by
    rw [hsplit]
    exact List.drop_left' rfl
  obtain ⟨hg, hr⟩ := takeWhile_blank st.gap_blank.2 (st.day.head_text (' ' :: st.clock))
  have hday : (st.day.text ++ ' ' :: st.clock).takeWhile (fun c => !isSpace c) = st.day.text ∧
      (st.day.text ++ ' ' :: st.clock).dropWhile (fun c => !isSpace c) = ' ' :: st.clock := by
    have hns : ∀ c ∈ st.day.text, (!isSpace c) = true := fun c hc => by
      rw [st.day.noSpace hc]
      rfl
    rw [List.takeWhile_append_of_pos hns, List.dropWhile_append_of_pos hns]
    exact ⟨List.append_nil _, rfl⟩
  have hsp : ∀ c ∈ [' '], isSpace c = true := fun c hc => by
    rw [List.mem_singleton.mp hc]
    rfl
  obtain ⟨hb, hc⟩ := takeWhile_blank hsp (head_clock st)
  rw [List.singleton_append] at hb hc
  have hblank : ¬ (st.gap = [] ∨ [' '] = ([] : Str)) := fun h =>
    h.elim st.gap_blank.1 (List.cons_ne_nil _ _)
  unfold strptime BsdStamp.inYear
  simp only [htake, hdrop, hg, hr, hday.1, hday.2, hb, hc, if_neg hblank, split_clock,
    dayNumber_text, hourNumber_two, minuteNumber_two, secondNumber_two]
  cases monthNumber st.name with
  | none => rfl
  | some month =>
    have hno {f : DateFields} (h : ¬ f.Valid) : Datetime.of f = none := dif_neg h
    simp only [Option.bind_eq_bind, Option.bind_some]
    by_cases hd : 1 ≤ st.day.value ∧ st.day.value ≤ 31
    · by_cases ht : st.hour.val < 24 ∧ st.minute.val < 60 ∧ st.second.val < 60
      · obtain ⟨hh, hm, hs⟩ := ht
        rw [if_pos hd, if_pos hh, if_pos hm, if_pos (by omega)]
        rfl
      · rw [hno fun hv : (st.fields 1900 month).Valid => ht hv.time, if_pos hd]
        split
        · split
          · split
            · exact hno fun hv => ht hv.time
            · rfl
          · rfl
        · rfl
    · rw [if_neg hd]
      refine (hno fun hv : (st.fields 1900 month).Valid => hd ?_).symm
      exact ⟨hv.day.1, hv.day.2.trans (DateFields.daysInMonth_le _ _)⟩

end

end MailserverUi.L1.LogStamp
