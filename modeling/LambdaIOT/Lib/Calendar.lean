import Mathlib.Tactic.NormNum

/-!
# The Gregorian calendar, counted from March

With the leap day at the end of a year, the days of a year and of its months follow one
formula. `MarchDay.toDays` counts the days from 1 March of year 0, and `MarchDay.ofDays` finds
the day again through the cycles of 400, 100, 4 and 1 years.
-/

namespace Calendar

/-- A day: its year (from March on), its month (March is 0), and its day of the month from 0. -/
structure MarchDay where
  year : Int
  month : Int
  day : Int
  deriving DecidableEq, Repr

/-- The months and the days of a month that there are. -/
structure MarchDay.Valid (d : MarchDay) : Prop where
  month_nonneg : 0 ≤ d.month
  month_le : d.month ≤ 11
  day_nonneg : 0 ≤ d.day
  day_le : d.day ≤ 30

/-- Days from 1 March of year 0 to the first day of `year`. -/
def daysToYear (year : Int) : Int := year * 365 + year / 4 - year / 100 + year / 400

/-- Days from the first day of a year to the first day of `month`. -/
def daysToMonth (month : Int) : Int := (153 * month + 2) / 5

/-- Days from 1 March of year 0. -/
def MarchDay.toDays (d : MarchDay) : Int := daysToYear d.year + daysToMonth d.month + d.day

/-- A day as full cycles of 400, 100, 4 and 1 years and a rest. -/
structure Cycles where
  era : Int
  century : Int
  leap : Int
  year : Int
  dayOfYear : Int

/-- The last century of an era and the last year of a leap cycle are one day longer. -/
def Cycles.ofDays (n : Int) : Cycles :=
  let inEra := n % 146097
  let century := min (inEra / 36524) 3
  let inCentury := inEra - 36524 * century
  let leap := inCentury / 1461
  let inLeap := inCentury - 1461 * leap
  let year := min (inLeap / 365) 3
  ⟨n / 146097, century, leap, year, inLeap - 365 * year⟩

/-- What a year is the sum of. -/
def Cycles.years (c : Cycles) : Int := 400 * c.era + 100 * c.century + 4 * c.leap + c.year

/-- The day that is `n` days after 1 March of year 0. -/
def MarchDay.ofDays (n : Int) : MarchDay :=
  let cycles := Cycles.ofDays n
  let month := (5 * cycles.dayOfYear + 2) / 153
  ⟨cycles.years, month, cycles.dayOfYear - daysToMonth month⟩

structure Cycles.Valid (c : Cycles) : Prop where
  century : 0 ≤ c.century ∧ c.century ≤ 3
  leap : 0 ≤ c.leap ∧ c.leap ≤ 24
  year : 0 ≤ c.year ∧ c.year ≤ 3
  dayOfYear : 0 ≤ c.dayOfYear ∧ c.dayOfYear ≤ 365

theorem Cycles.ofDays_valid (n : Int) : (Cycles.ofDays n).Valid := by
  constructor <;> simp only [Cycles.ofDays] <;> omega

/-- The cycles add up. -/
theorem Cycles.ofDays_sum (n : Int) :
    146097 * (Cycles.ofDays n).era + 36524 * (Cycles.ofDays n).century +
      1461 * (Cycles.ofDays n).leap + 365 * (Cycles.ofDays n).year +
        (Cycles.ofDays n).dayOfYear = n := by
  simp only [Cycles.ofDays]
  omega

/-- The days in front of a year are those of its cycles. -/
theorem Cycles.Valid.daysToYear {c : Cycles} (h : c.Valid) :
    daysToYear c.years = 146097 * c.era + 36524 * c.century + 1461 * c.leap + 365 * c.year := by
  have hcentury := h.century
  have hleap := h.leap
  have hyear := h.year
  unfold Calendar.daysToYear Cycles.years
  omega

theorem MarchDay.ofDays_valid (n : Int) : (MarchDay.ofDays n).Valid := by
  have hday := (Cycles.ofDays_valid n).dayOfYear
  constructor <;> simp only [MarchDay.ofDays, daysToMonth] <;> omega

/-- A count of days is found again from its day. -/
theorem MarchDay.toDays_ofDays (n : Int) : (MarchDay.ofDays n).toDays = n := by
  have hyear := (Cycles.ofDays_valid n).daysToYear
  have hsum := Cycles.ofDays_sum n
  simp only [MarchDay.toDays, MarchDay.ofDays]
  omega

end Calendar
