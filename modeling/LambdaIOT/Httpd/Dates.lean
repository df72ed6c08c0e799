import LambdaIOT.Lib.Calendar
import LambdaIOT.Httpd.Utils

/-!
# Dates in header lines

`gmt4http` of `sys_arch.c`, the other side of `parseHttpDate`, with `gmtime` of the C library.
-/

namespace Httpd

open CMem

/-- `struct tm`, as far as dates in header lines need it. -/
structure Tm where
  tmSec : Int
  tmMin : Int
  tmHour : Int
  tmMday : Int
  tmMon : Int
  tmYear : Int
  tmWday : Int
  deriving DecidableEq, Repr

/-- `gmtime(t)`. -/
def gmtime (t : Int) : Tm :=
  let days := t / 86400
  let inDay := t % 86400
  let day := Calendar.MarchDay.ofDays (days + 719468)
  { tmSec := inDay % 60
    tmMin := inDay / 60 % 60
    tmHour := inDay / 3600
    tmMday := day.day + 1
    tmMon := if day.month < 10 then day.month + 2 else day.month - 10
    tmYear := (if day.month < 10 then day.year else day.year + 1) - 1900
    tmWday := (days + 4) % 7 }

/-- `wday_name`. -/
def wdayName : List Bytes :=
  [ascii "Sun", ascii "Mon", ascii "Tue", ascii "Wed", ascii "Thu", ascii "Fri", ascii "Sat"]

/-- `%02d` of a number that is not negative. -/
def twoDigits (n : Int) : Bytes := zeroPad 2 (decimal n)

/-- The text that `gmt4http` formats. -/
def gmtText (tm : Tm) : Bytes :=
  wdayName.getD tm.tmWday.toNat [] ++ ascii ", " ++ twoDigits tm.tmMday ++ ascii " " ++
    monName.getD tm.tmMon.toNat [] ++ ascii " " ++ decimal (1900 + tm.tmYear) ++ ascii " " ++
    twoDigits tm.tmHour ++ ascii ":" ++ twoDigits tm.tmMin ++ ascii ":" ++ twoDigits tm.tmSec ++
    ascii " GMT"

/-- What `snprintf(out, size, …)` writes of a text. -/
def snprintf (size : Nat) (text : Bytes) : Bytes :=
  if size = 0 then [] else text.take (size - 1) ++ [0]

/-- `gmt4http(t, out, maxSize)`: `out` after the call. The size is a `size_t`. -/
def gmt4http (t : Int) (out : Bytes) (maxSize : Int) : Bytes :=
  store out 0 (snprintf ((maxSize - 1) % 4294967296).toNat (gmtText (gmtime t)))

example : cstr (gmt4http 1443770880 (List.replicate 40 7) 31) =
    ascii "Fri, 02 Oct 2015 07:28:00 GMT" := by
  decide +kernel

/-! ## Lemmas -/

/-- The fields of a date that there is. -/
structure Tm.Valid (tm : Tm) : Prop where
  sec : 0 ≤ tm.tmSec ∧ tm.tmSec ≤ 59
  min : 0 ≤ tm.tmMin ∧ tm.tmMin ≤ 59
  hour : 0 ≤ tm.tmHour ∧ tm.tmHour ≤ 23
  mday : 1 ≤ tm.tmMday ∧ tm.tmMday ≤ 31
  mon : 0 ≤ tm.tmMon ∧ tm.tmMon ≤ 11
  wday : 0 ≤ tm.tmWday ∧ tm.tmWday ≤ 6

theorem gmtime_valid (t : Int) : (gmtime t).Valid := by
  have hday := Calendar.MarchDay.ofDays_valid (t / 86400 + 719468)
  have hmonth := hday.month_nonneg
  have hmonth' := hday.month_le
  have hmday := hday.day_nonneg
  have hmday' := hday.day_le
  constructor <;> simp only [gmtime] <;> omega

/-- The day count of `mktime` is the calendar's. -/
theorem daysBeforeMonth_eq {month : Int} (year : Int) (hmonth : 0 ≤ month) (hmonth' : month ≤ 11) :
    daysBeforeMonth (if month < 10 then year else year + 1)
        (if month < 10 then month + 2 else month - 10) =
      Calendar.daysToYear year + Calendar.daysToMonth month - 719468 := by
  have hdiv : ∀ a : Int, a.fdiv 12 = a / 12 := fun a => Int.fdiv_eq_ediv_of_nonneg a (by decide)
  have hmod : ∀ a : Int, a.fmod 12 = a % 12 := fun a => Int.fmod_eq_emod_of_nonneg a (by decide)
  have h4 : ∀ a : Int, a.fdiv 4 = a / 4 := fun a => Int.fdiv_eq_ediv_of_nonneg a (by decide)
  have h100 : ∀ a : Int, a.fdiv 100 = a / 100 := fun a => Int.fdiv_eq_ediv_of_nonneg a (by decide)
  have h400 : ∀ a : Int, a.fdiv 400 = a / 400 := fun a => Int.fdiv_eq_ediv_of_nonneg a (by decide)
  unfold daysBeforeMonth Calendar.daysToYear Calendar.daysToMonth
  simp only [hdiv, hmod, h4, h100, h400]
  by_cases hm : month < 10
  · rw [if_pos hm, if_pos hm]
    have hy : (month + 2) / 12 = 0 := by omega
    have hmon : (month + 2) % 12 + 1 = month + 3 := by omega
    rw [hy, hmon, if_neg (by omega), if_neg (by omega)]
    omega
  · rw [if_neg hm, if_neg hm]
    have hy : (month - 10) / 12 = 0 := by omega
    have hmon : (month - 10) % 12 + 1 = month - 9 := by omega
    rw [hy, hmon, if_pos (by omega), if_pos (by omega)]
    have hyear : year + 1 + 0 - 1 = year := by omega
    have hback : month - 9 + 9 = month := by omega
    rw [hyear, hback]

/-- `mktime` and `gmtime` are inverse. -/
theorem mktime_gmtime (t : Int) :
    mktime (1900 + (gmtime t).tmYear) (gmtime t).tmMon (gmtime t).tmMday (gmtime t).tmHour
      (gmtime t).tmMin (gmtime t).tmSec = t := by
  have hday := Calendar.MarchDay.ofDays_valid (t / 86400 + 719468)
  have hdays := daysBeforeMonth_eq (Calendar.MarchDay.ofDays (t / 86400 + 719468)).year
    hday.month_nonneg hday.month_le
  have hback := Calendar.MarchDay.toDays_ofDays (t / 86400 + 719468)
  unfold Calendar.MarchDay.toDays at hback
  unfold mktime
  simp only [gmtime]
  rw [show ∀ a : Int, 1900 + (a - 1900) = a by intro a; omega, hdays]
  omega

end Httpd
