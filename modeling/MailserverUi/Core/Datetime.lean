import Mathlib

/-!
# Dates with a time of day (`datetime`)

The proleptic Gregorian calendar of the years 1 to 9999. `Datetime` has valid
fields only, and is ordered as the fields are.

Results:
* `lt_of_year_lt`: a later year is later.
* `valid_withYear`: every date but 29 February is in every year.
-/
namespace MailserverUi.Py

def isLeap (year : Nat) : Bool := year % 4 = 0 && (year % 100 ≠ 0 || year % 400 = 0)

/-- `datetime._days_in_month`. -/
def daysInMonth (year month : Nat) : Nat :=
  if month = 2 then (if isLeap year then 29 else 28)
  else if month ∈ [4, 6, 9, 11] then 30
  else 31

structure DateFields where
  year : Nat
  month : Nat
  day : Nat
  hour : Nat
  minute : Nat
  second : Nat
  microsecond : Nat
  deriving DecidableEq, Repr

namespace DateFields

/-- What `datetime.datetime` accepts. -/
structure Valid (f : DateFields) : Prop where
  year : 1 ≤ f.year ∧ f.year ≤ 9999
  month : 1 ≤ f.month ∧ f.month ≤ 12
  day : 1 ≤ f.day ∧ f.day ≤ daysInMonth f.year f.month
  time : f.hour < 24 ∧ f.minute < 60 ∧ f.second < 60
  microsecond : f.microsecond < 1000000

instance (f : DateFields) : Decidable f.Valid :=
  decidable_of_iff ((1 ≤ f.year ∧ f.year ≤ 9999) ∧ (1 ≤ f.month ∧ f.month ≤ 12) ∧
      (1 ≤ f.day ∧ f.day ≤ daysInMonth f.year f.month) ∧
      (f.hour < 24 ∧ f.minute < 60 ∧ f.second < 60) ∧ f.microsecond < 1000000)
    ⟨fun ⟨y, m, d, t, u⟩ => ⟨y, m, d, t, u⟩, fun ⟨y, m, d, t, u⟩ => ⟨y, m, d, t, u⟩⟩

/-- The part of the fields below the year, as one number. -/
def inYear (f : DateFields) : Nat :=
  ((((f.month * 32 + f.day) * 24 + f.hour) * 60 + f.minute) * 60 + f.second) * 1000000 +
    f.microsecond

/-- Valid fields are in their order as these numbers are. -/
def rank (f : DateFields) : Nat := f.year * 40000000000000 + f.inYear

theorem daysInMonth_le (year month : Nat) : daysInMonth year month ≤ 31 := by
  unfold daysInMonth
  split
  · split <;> decide
  · split <;> decide

section
variable {f g : DateFields}

theorem Valid.inYear_lt (h : f.Valid) : f.inYear < 40000000000000 := by
  have hd := h.day.2.trans (daysInMonth_le f.year f.month)
  obtain ⟨hh, hm, hs⟩ := h.time
  have := h.month.2
  have := h.microsecond
  unfold inYear
  omega

theorem eq_of_inYear (hf : f.Valid) (hg : g.Valid) (hy : f.year = g.year)
    (h : f.inYear = g.inYear) : f = g := by
  have hfd := hf.day.2.trans (daysInMonth_le f.year f.month)
  have hgd := hg.day.2.trans (daysInMonth_le g.year g.month)
  obtain ⟨hfh, hfm, hfs⟩ := hf.time
  obtain ⟨hgh, hgm, hgs⟩ := hg.time
  have hfu := hf.microsecond
  have hgu := hg.microsecond
  unfold inYear at h
  have hu : f.microsecond = g.microsecond := by omega
  have hs : f.second = g.second := by omega
  have hm : f.minute = g.minute := by omega
  have hh : f.hour = g.hour := by omega
  have hd : f.day = g.day := by omega
  have hmo : f.month = g.month := by omega
  cases f
  cases g
  simp_all

theorem eq_of_rank (hf : f.Valid) (hg : g.Valid) (h : f.rank = g.rank) : f = g := by
  have hfl := hf.inYear_lt
  have hgl := hg.inYear_lt
  unfold rank at h
  exact eq_of_inYear hf hg (by omega) (by omega)

end

end DateFields

/-- A `datetime.datetime` in UTC. -/
structure Datetime extends DateFields where
  valid : toDateFields.Valid
  deriving DecidableEq

namespace Datetime

def number (t : Datetime) : Nat := t.toDateFields.rank

theorem toDateFields_injective : Function.Injective toDateFields := fun t u h => by
  cases t
  cases u
  cases h
  rfl

theorem number_injective : Function.Injective number := fun t u h =>
  toDateFields_injective (DateFields.eq_of_rank t.valid u.valid h)

instance : LinearOrder Datetime := LinearOrder.lift' number number_injective

/-- `datetime.datetime(...)`; `none` is its `ValueError`. -/
def of (f : DateFields) : Option Datetime := if h : f.Valid then some ⟨f, h⟩ else none

/-- `t.replace(year=year)`. -/
def replaceYear (t : Datetime) (year : Nat) : Option Datetime :=
  of { t.toDateFields with year := year }

section
variable {t u : Datetime} {f : DateFields} {year : Nat}

theorem of_eq_some : of f = some t ↔ t.toDateFields = f := by
  unfold of
  split
  · rw [Option.some_inj]
    exact ⟨fun e => e ▸ rfl, fun e => toDateFields_injective e.symm⟩
  · rename_i h
    exact ⟨nofun, fun e => absurd (e ▸ t.valid) h⟩

theorem lt_of_year_lt (h : t.year < u.year) : t < u := by
  have ht := t.valid.inYear_lt
  change t.toDateFields.rank < u.toDateFields.rank
  unfold DateFields.rank
  omega

end

/-! ## Another year -/

/-- 29 February. -/
def LeapDay (month day : Nat) : Prop := month = 2 ∧ day = 29

instance (month day : Nat) : Decidable (LeapDay month day) := inferInstanceAs (Decidable (_ ∧ _))

/-- But for 29 February, each year has the same days. -/
theorem le_daysInMonth_iff {month day : Nat} (year year' : Nat) (h : ¬ LeapDay month day) :
    day ≤ daysInMonth year month ↔ day ≤ daysInMonth year' month := by
  unfold LeapDay at h
  unfold daysInMonth
  by_cases hm : month = 2
  · simp only [if_pos hm]
    split <;> split <;> omega
  · simp only [if_neg hm]

theorem leapDay_le_iff {year : Nat} : 29 ≤ daysInMonth year 2 ↔ isLeap year = true := by
  unfold daysInMonth
  rw [if_pos rfl]
  split <;> simp_all

/-- Valid fields are valid in another year, but for 29 February. -/
theorem valid_withYear {f : DateFields} {year : Nat} (h : f.Valid) (hy : 1 ≤ year ∧ year ≤ 9999)
    (hd : ¬ LeapDay f.month f.day) : DateFields.Valid { f with year := year } where
  year := hy
  month := h.month
  day := ⟨h.day.1, (le_daysInMonth_iff f.year year hd).mp h.day.2⟩
  time := h.time
  microsecond := h.microsecond

end Datetime

end MailserverUi.Py
