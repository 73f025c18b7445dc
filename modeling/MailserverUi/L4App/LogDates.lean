import MailserverUi.L1Encoding.LogStamp
import MailserverUi.L3Service.MailStatistics

/-!
# The year of a log line

A traditional stamp is read in the year 1900, moved to this year, and back by one
year when it would be in the future.

Results:
* `parse_latest_iff`: what is answered is the latest date of the stamp in this
  year or the year before, and nothing raises, except for a 29 February and in
  the year 1.
* `not_inWindow_leapDay`: no window has a line of a 29 February.
* `leapDay_lost`: on 1 March, a line of the day before has no date.
-/
namespace MailserverUi.L4.LogDates

open Py L1.LogStamp L3.MailStatistics

/-! ## What a stamp may mean -/

/-- The instants not after `now`, in its year or the year before, that have the
month, day and time of the stamp. -/
def past (st : BsdStamp) (now : Datetime) : Set Datetime :=
  {t | t ≤ now ∧ ∃ year, (year = now.year ∨ year + 1 = now.year) ∧ st.inYear year = some t}

/-- The latest of them is answered, or there is none. -/
def Latest (st : BsdStamp) (now : Datetime) (r : Option (Option Datetime)) : Prop :=
  (∃ t, r = some (some t) ∧ IsGreatest (past st now) t) ∨ (r = some none ∧ past st now = ∅)

def IsLeapDay (st : BsdStamp) : Prop :=
  ∃ m, monthNumber st.name = some m ∧ Datetime.LeapDay m st.day.value

/-- The stamp is of no 29 February, and of no later day of the year 1. -/
structure Datable (st : BsdStamp) (now : Datetime) : Prop where
  leapDay : IsLeapDay st → past st now = ∅
  yearOne : now.year = 1 → ∀ t, st.inYear 1 = some t → t ≤ now

section
variable {st : BsdStamp} {now t : Datetime} {year year' : Nat}

theorem inYear_eq_some : st.inYear year = some t ↔
    ∃ m, monthNumber st.name = some m ∧ t.toDateFields = st.fields year m := by
  unfold BsdStamp.inYear
  rw [Option.bind_eq_some_iff]
  exact exists_congr fun m => and_congr_right fun _ => Datetime.of_eq_some

theorem year_of_inYear (h : st.inYear year = some t) : t.year = year := by
  obtain ⟨m, -, he⟩ := inYear_eq_some.mp h
  rw [he]
  rfl

theorem year_range (h : st.inYear year = some t) : 1 ≤ year ∧ year ≤ 9999 :=
  year_of_inYear h ▸ t.valid.year

/-- Any other date may be moved to another year. -/
theorem replaceYear_inYear (hd : ¬ IsLeapDay st) (h : st.inYear year = some t)
    (hy : 1 ≤ year' ∧ year' ≤ 9999) :
    ∃ u, t.replaceYear year' = some u ∧ st.inYear year' = some u := by
  obtain ⟨m, hm, he⟩ := inYear_eq_some.mp h
  have hleap : ¬ Datetime.LeapDay t.month t.day := fun hl => by
    rw [he] at hl
    exact hd ⟨m, hm, hl⟩
  have hv := Datetime.valid_withYear t.valid hy hleap
  refine ⟨⟨_, hv⟩, Datetime.of_eq_some.mpr rfl, inYear_eq_some.mpr ⟨m, hm, ?_⟩⟩
  change ({ t.toDateFields with year := year' } : DateFields) = _
  rw [he]
  rfl

theorem bind_replaceYear (hd : ¬ IsLeapDay st) (hy : 1 ≤ year ∧ year ≤ 9999)
    (hy' : 1 ≤ year' ∧ year' ≤ 9999) :
    ((st.inYear year).bind fun t => t.replaceYear year') = st.inYear year' := by
  cases h : st.inYear year with
  | some t =>
    obtain ⟨u, hu, hin⟩ := replaceYear_inYear hd h hy'
    rw [Option.bind_some, hu, hin]
  | none =>
    cases h' : st.inYear year' with
    | none => rfl
    | some u =>
      obtain ⟨v, -, hv⟩ := replaceYear_inYear hd h' hy
      rw [h] at hv
      cases hv

/-- The year 1900 has no 29 February. -/
theorem inYear_leapDay (h : IsLeapDay st) : st.inYear 1900 = none := by
  obtain ⟨m, hm, hmonth, hday⟩ := h
  rw [BsdStamp.inYear, hm, Option.bind_some]
  refine dif_neg fun hv => ?_
  have hle : st.day.value ≤ daysInMonth 1900 m := hv.day.2
  rw [hmonth, hday, Datetime.leapDay_le_iff] at hle
  exact absurd hle (by decide)

/-- What the parser makes of a line. -/
theorem parse_text (fromisoformat : Str → Option Datetime) (st : BsdStamp) (rest : Str)
    (now : Datetime) : parseLogTimestamp fromisoformat (st.text ++ rest) now =
      match (st.inYear 1900).bind fun t => t.replaceYear now.year with
      | none => some none
      | some parsed =>
        if now < parsed then (parsed.replaceYear (now.year - 1)).map some
        else some (some parsed) := by
  have h : strptime st.text = st.inYear 1900 := strptime_text st
  unfold parseLogTimestamp
  rw [isoStamp_text, bsdStamp_text]
  dsimp only
  generalize st.inYear 1900 = o at h ⊢
  subst h
  rfl

theorem parse_leapDay (fromisoformat : Str → Option Datetime) (h : IsLeapDay st) (rest : Str) :
    parseLogTimestamp fromisoformat (st.text ++ rest) now = some none := by
  rw [parse_text, inYear_leapDay h]
  rfl

theorem latest_none : Latest st now (some none) ↔ past st now = ∅ := by
  unfold Latest
  constructor
  · rintro (⟨t, h, -⟩ | ⟨-, h⟩)
    · cases h
    · exact h
  · exact fun h => .inr ⟨rfl, h⟩

theorem latest_some : Latest st now (some (some t)) ↔ IsGreatest (past st now) t := by
  unfold Latest
  constructor
  · rintro (⟨u, h, hu⟩ | ⟨h, -⟩)
    · cases h
      exact hu
    · cases h
  · exact fun h => .inl ⟨t, rfl, h⟩

theorem past_eq_empty (hd : ¬ IsLeapDay st) (h : st.inYear now.year = none) : past st now = ∅ := by
  refine Set.eq_empty_iff_forall_notMem.mpr ?_
  rintro t ⟨-, year, -, ht⟩
  obtain ⟨u, -, hu⟩ := replaceYear_inYear hd ht now.valid.year
  rw [h] at hu
  cases hu

/-- The date of this year, when it is not in the future. -/
theorem isGreatest_thisYear (h : st.inYear now.year = some t) (hle : t ≤ now) :
    IsGreatest (past st now) t := by
  refine ⟨⟨hle, now.year, .inl rfl, h⟩, ?_⟩
  rintro u ⟨-, year, rfl | hy, hu⟩
  · rw [h] at hu
    cases hu
    exact le_rfl
  · refine (Datetime.lt_of_year_lt ?_).le
    rw [year_of_inYear hu, year_of_inYear h]
    omega

/-- The date of the year before, when that of this year is in the future. -/
theorem isGreatest_yearBefore {p : Datetime} (h : st.inYear now.year = some p) (hlt : now < p)
    (ht : st.inYear (now.year - 1) = some t) : IsGreatest (past st now) t := by
  have hpos := (year_range ht).1
  refine ⟨⟨(Datetime.lt_of_year_lt ?_).le, now.year - 1, .inr (by omega), ht⟩, ?_⟩
  · rw [year_of_inYear ht]
    omega
  · rintro u ⟨hu, year, rfl | hy, hin⟩
    · rw [h] at hin
      cases hin
      exact absurd hu (not_le.mpr hlt)
    · obtain rfl : year = now.year - 1 := by omega
      rw [ht] at hin
      cases hin
      exact le_rfl

end

/-! ## The parser -/

/-- A line that begins with a stamp is answered with the latest date that it may
mean, exactly when the stamp may be dated. -/
theorem parse_latest_iff (fromisoformat : Str → Option Datetime) (st : BsdStamp) (rest : Str)
    (now : Datetime) :
    Latest st now (parseLogTimestamp fromisoformat (st.text ++ rest) now) ↔ Datable st now := by
  by_cases hd : IsLeapDay st
  · rw [parse_leapDay _ hd, latest_none]
    refine ⟨fun h => ⟨fun _ => h, fun hy t ht => ?_⟩, fun h => h.leapDay hd⟩
    -- the year 1 is no leap year
    obtain ⟨m, hm, he⟩ := inYear_eq_some.mp ht
    obtain ⟨m', hm', hmonth, hday⟩ := hd
    rw [hm] at hm'
    cases hm'
    have hle := t.valid.day.2
    rw [he] at hle
    change st.day.value ≤ daysInMonth 1 m at hle
    rw [hmonth, hday, Datetime.leapDay_le_iff] at hle
    exact absurd hle (by decide)
  · have hiff : Datable st now ↔ (now.year = 1 → ∀ t, st.inYear 1 = some t → t ≤ now) :=
      ⟨Datable.yearOne, fun h => ⟨fun hl => absurd hl hd, h⟩⟩
    rw [parse_text, bind_replaceYear hd (by decide) now.valid.year, hiff]
    cases hp : st.inYear now.year with
    | none =>
      refine iff_of_true (latest_none.mpr (past_eq_empty hd hp)) fun hy t ht => ?_
      rw [hy, ht] at hp
      cases hp
    | some p =>
      dsimp only
      split
      · rename_i hlt
        by_cases hy : now.year = 1
        · -- there is no year 0 to move the date to
          have hno : p.replaceYear (now.year - 1) = none := dif_neg fun hv => by
            have := hv.year.1
            change 1 ≤ now.year - 1 at this
            omega
          rw [hno]
          refine iff_of_false ?_ fun h => absurd (h hy p (hy ▸ hp)) (not_le.mpr hlt)
          rintro (⟨t, h, -⟩ | ⟨h, -⟩) <;> cases h
        · have hpos := now.valid.year
          have hbefore : 1 ≤ now.year - 1 ∧ now.year - 1 ≤ 9999 := by omega
          obtain ⟨t, ht, hin⟩ := replaceYear_inYear hd hp hbefore
          rw [ht]
          exact iff_of_true (latest_some.mpr (isGreatest_yearBefore hp hlt hin)) fun h => absurd h hy
      · rename_i hle
        have hle := not_lt.mp hle
        refine iff_of_true (latest_some.mpr (isGreatest_thisYear hp hle)) fun hy t ht => ?_
        rw [hy, ht] at hp
        cases hp
        exact hle

/-- A line of a 29 February is in no window of the statistics. -/
theorem not_inWindow_leapDay (fromisoformat : Str → Option Datetime) {st : BsdStamp}
    (h : IsLeapDay st) (rest : Str) (now cutoff : Datetime) :
    inWindow (fun line => (parseLogTimestamp fromisoformat line now).join) cutoff
      (st.text ++ rest) = false := by
  rw [inWindow, parse_leapDay fromisoformat h]
  rfl

/-! ## A leap day -/

/-- `Feb 29 23:30:00`. -/
def leapDayStamp : BsdStamp where
  month := ('F', 'e', 'b')
  gap := [' ']
  day := .two 29
  hour := 23
  minute := 30
  second := 0
  month_letters := by decide
  gap_blank := by simp [isSpace]

/-- Half past midnight on 1 March 2024. -/
def firstOfMarch : Datetime := ⟨⟨2024, 3, 1, 0, 30, 0, 0⟩, by decide⟩

/-- An hour before. -/
def lastOfFebruary : Datetime := ⟨⟨2024, 2, 29, 23, 30, 0, 0⟩, by decide⟩

/-- A line of an hour before has no date. -/
theorem leapDay_lost : ¬ Latest leapDayStamp firstOfMarch
    (parseLogTimestamp (fun _ => none) "Feb 29 23:30:00 mail postfix/smtp: status=sent".toList
      firstOfMarch) := by
  have hline : "Feb 29 23:30:00 mail postfix/smtp: status=sent".toList =
      leapDayStamp.text ++ " mail postfix/smtp: status=sent".toList := by decide
  have hleap : IsLeapDay leapDayStamp := ⟨2, by decide, rfl, rfl⟩
  have hmem : lastOfFebruary ∈ past leapDayStamp firstOfMarch :=
    ⟨by decide, 2024, .inl rfl, by decide⟩
  rw [hline, parse_leapDay _ hleap, latest_none]
  exact fun h => Set.notMem_empty _ (h ▸ hmem)

end MailserverUi.L4.LogDates
