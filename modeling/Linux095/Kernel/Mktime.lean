import Linux095.Calendar.Gregorian
import Linux095.Words.Signed

/-!
# `Kernel.Mktime` — the calendar of the kernel (`kernel/mktime.c`)

* `Tm`, `kernelMktime` — the source's function; an `int` that overflows gives no result;
* `epoch`, `last`, `tmOf` — the moments a `long` of seconds reaches, and how the caller gives them;
* `kernelMktime_eq` — what the two offsets for leap years come to;
* `kernelMktime_exact` — **it counts the seconds, and later is more**.
-/

namespace Linux095
namespace Kernel
namespace Mktime

open Calendar
open Words.Signed (Fits fits_int fit fit_eq bind_eq)

/-! ## The source's function -/

/-- What the function reads of `struct tm`. -/
structure Tm where
  tmSec : ℤ
  tmMin : ℤ
  tmHour : ℤ
  tmMday : ℤ
  tmMon : ℤ
  tmYear : ℤ

def MINUTE : ℤ := 60

def HOUR : ℤ := 60 * MINUTE

def DAY : ℤ := 24 * HOUR

def YEAR : ℤ := 365 * DAY

/-- "interestingly, we assume leap-years". -/
def MONTH : List ℤ :=
  [0, DAY * 31, DAY * (31 + 29), DAY * (31 + 29 + 31), DAY * (31 + 29 + 31 + 30), DAY * (31 + 29 + 31 + 30 + 31),
    DAY * (31 + 29 + 31 + 30 + 31 + 30), DAY * (31 + 29 + 31 + 30 + 31 + 30 + 31),
    DAY * (31 + 29 + 31 + 30 + 31 + 30 + 31 + 31), DAY * (31 + 29 + 31 + 30 + 31 + 30 + 31 + 31 + 30),
    DAY * (31 + 29 + 31 + 30 + 31 + 30 + 31 + 31 + 30 + 31),
    DAY * (31 + 29 + 31 + 30 + 31 + 30 + 31 + 31 + 30 + 31 + 30)]

/-- `month[i]`; there is nothing outside the table. -/
def month (i : ℤ) : Option ℤ := if 0 ≤ i then MONTH[i.toNat]? else none

/-- The sums and products of an `int`. -/
abbrev add := Words.Signed.add 32
abbrev sub := Words.Signed.sub 32
abbrev mul := Words.Signed.mul 32
abbrev div := Words.Signed.div 32
abbrev mod := Words.Signed.mod 32

/-- "if (tm->tm_mon>1 && ((year+2)%4)) res -= DAY". -/
def adjust (tm : Tm) (year res : ℤ) : Option ℤ :=
  if 1 < tm.tmMon then do
    let y ← add year 2
    let r ← mod y 4
    if r ≠ 0 then sub res DAY else return res
  else return res

/-- `kernel_mktime`. -/
def kernelMktime (tm : Tm) : Option ℤ := do
  let year ← sub tm.tmYear 70
  let years ← mul YEAR year
  -- magic offsets (y+1) needed to get leapyears right
  let y ← add year 1
  let q ← div y 4
  let leaps ← mul DAY q
  let res ← add years leaps
  let before ← month tm.tmMon
  let res ← add res before
  -- and (y+2) here: if it was not a leap year, we have to adjust
  let res ← adjust tm year res
  let d ← sub tm.tmMday 1
  let days ← mul DAY d
  let res ← add res days
  let hours ← mul HOUR tm.tmHour
  let res ← add res hours
  let minutes ← mul MINUTE tm.tmMin
  let res ← add res minutes
  add res tm.tmSec

/-! ## The moments it is for -/

/-- The first second of 1970. -/
def epoch : Moment := Moment.firstOf 1970 0 (by decide)

/-- 2038-01-19 03:14:07. -/
def last : Moment where
  year := 2038
  month := 0
  day := 19
  hour := 3
  minute := 14
  second := 7
  month_lt := by decide
  one_le_day := by decide
  day_le := by decide
  hour_lt := by decide
  minute_lt := by decide
  second_lt := by decide

/-- A moment as a `struct tm`. -/
def tmOf (m : Moment) : Tm where
  tmSec := m.second
  tmMin := m.minute
  tmHour := m.hour
  tmMday := m.day
  tmMon := m.month
  tmYear := m.year - 1900

/-! ## The offsets for leap years -/

/-- Up to 2099 every fourth year is a leap year. -/
theorem isLeap_iff {n : ℕ} (hn : n < 130) : IsLeap (1970 + n) ↔ (n + 2) % 4 = 0 := by
  simp only [IsLeap]
  omega

/-- The first offset counts the leap years before this one. -/
theorem daysBeforeYear_eq {n : ℕ} (hn : n ≤ 130) :
    daysBeforeYear (1970 + n) = daysBeforeYear 1970 + 365 * n + (n + 1) / 4 := by
  induction n with
  | zero => simp
  | succ n ih =>
      have hprev := ih (by omega)
      have hleap := isLeap_iff (n := n) (by omega)
      have hstep : daysBeforeYear (1970 + (n + 1)) = daysBeforeYear (1970 + n) + yearLength (1970 + n) := rfl
      rw [hstep, hprev, yearLength_eq]
      split_ifs with h
      · have hmod := hleap.mp h
        omega
      · have hmod := mt hleap.mpr h
        omega

/-- The table is that of a leap year. -/
theorem month_eq {m : ℕ} (hm : m < 12) : month m = some (86400 * (daysBeforeMonth True m : ℤ)) := by
  have table : ∀ n < 12, month (n : ℕ) = some (86400 * (daysBeforeMonth True n : ℤ)) := by decide
  exact table m hm

/-- The second offset takes the day back that the table has too many. -/
theorem adjust_eq {m : Moment} {n : ℕ} {res : ℤ} (hn : n < 130) (hy : m.year = 1970 + n)
    (hres : Fits 32 (res - 86400)) :
    adjust (tmOf m) n res = some (res - if 1 < m.month ∧ ¬IsLeap m.year then 86400 else 0) := by
  have hyear : add n 2 = some (n + 2 : ℤ) := fit_eq (fits_int.mpr (by omega))
  have hmod : mod (n + 2) 4 = some ((n + 2 : ℤ) % 4) :=
    Words.Signed.mod_eq (by omega) (by omega) (fits_int.mpr (by omega))
  have hleap : IsLeap m.year ↔ ((n : ℤ) + 2) % 4 = 0 := by
    rw [hy, isLeap_iff hn]
    omega
  have hmonth : (1 : ℤ) < (tmOf m).tmMon ↔ 1 < m.month := by
    simp only [tmOf]
    omega
  by_cases hm : 1 < m.month
  · rw [adjust, if_pos (hmonth.mpr hm), hyear, Option.bind_eq_bind, Option.bind_some, hmod, Option.bind_some]
    by_cases hl : IsLeap m.year
    · rw [if_neg (not_not.mpr (hleap.mp hl)), if_neg (fun h => h.2 hl), sub_zero]
      rfl
    · rw [if_pos (mt hleap.mpr hl), if_pos ⟨hm, hl⟩]
      exact fit_eq hres
  · rw [adjust, if_neg (mt hmonth.mp hm), if_neg (fun h => hm h.1), sub_zero]
    rfl

/-! ## The sum -/

/-- The seconds since the epoch, by the year counted from 1970. -/
theorem since_eq {m : Moment} {n : ℕ} (hn : n ≤ 130) (hy : m.year = 1970 + n) :
    Moment.since epoch m = 31536000 * n + 86400 * ((n + 1) / 4 : ℕ) + 86400 * daysBeforeMonth (IsLeap m.year) m.month
      + 86400 * (m.day - 1) + 3600 * m.hour + 60 * m.minute + m.second := by
  have hday := m.one_le_day
  have hyears := daysBeforeYear_eq hn
  have hepoch : epoch.seconds = 86400 * daysBeforeYear 1970 := by
    rw [epoch, Moment.seconds_firstOf, Moment.days_firstOf, daysBeforeMonth, Nat.add_zero]
  have hdays : m.days = daysBeforeYear (1970 + n) + daysBeforeMonth (IsLeap m.year) m.month + (m.day - 1) := by
    rw [Moment.days, ← hy]
  rw [Moment.since, hepoch, Moment.seconds, hdays, hyears]
  omega

/-- The last second a `long` holds. -/
theorem since_last : Moment.since epoch last = 2147483647 := by
  rw [since_eq (n := 68) (by decide) rfl]
  decide

theorem since_le {m : Moment} (hm : m ≤ last) : Moment.since epoch m ≤ 2147483647 := by
  have hle := Moment.seconds_le hm
  have hlast := since_last
  simp only [Moment.since] at hlast ⊢
  omega

/-- The days before a month, of a year of 366 days. -/
theorem daysBeforeMonth_le {m : ℕ} (hm : m < 12) : daysBeforeMonth True m ≤ 335 :=
  daysBeforeMonth_mono True (Nat.le_of_lt_succ hm)

/-- A product with one of the units. -/
theorem mul_units (x : ℤ) :
    mul YEAR x = fit 32 (31536000 * x) ∧ mul DAY x = fit 32 (86400 * x) ∧
      mul HOUR x = fit 32 (3600 * x) ∧ mul MINUTE x = fit 32 (60 * x) := by
  have hyear : YEAR = 31536000 := by decide
  have hday : DAY = 86400 := by decide
  have hhour : HOUR = 3600 := by decide
  have hminute : MINUTE = 60 := by decide
  simp only [mul, Words.Signed.mul, hyear, hday, hhour, hminute, and_self]

/-- The sum goes through no number that does not fit. -/
theorem kernelMktime_eq {m : Moment} (h0 : epoch ≤ m) (h1 : m ≤ last) :
    kernelMktime (tmOf m) = some (Moment.since epoch m) := by
  have hfit : ∀ {x : ℤ}, -2147483648 ≤ x → x ≤ 2147483647 → fit 32 x = some x := fun hlo hhi =>
    fit_eq (fits_int.mpr ⟨hlo, hhi⟩)
  have hlow : 1970 ≤ m.year := Moment.year_le_of_le h0
  have hhigh : m.year ≤ 2038 := Moment.year_le_of_le h1
  obtain ⟨n, hn⟩ : ∃ n, m.year = 1970 + n := ⟨m.year - 1970, by omega⟩
  have htotal := since_le h1
  have hsum := since_eq (m := m) (by omega) hn
  have hmonths := daysBeforeMonth_leap m.month_lt.le (IsLeap m.year)
  have hbefore := daysBeforeMonth_le m.month_lt
  -- the last year is January only, so that its table entry is 0
  have hjanuary : n = 68 → daysBeforeMonth True m.month = 0 := by
    intro h68
    have hmonth : m.month ≤ 0 := Moment.month_le_of_le h1 (by rw [hn, h68]; rfl)
    rw [Nat.le_zero.mp hmonth]
    rfl
  have hd := m.one_le_day
  have hdle := m.day_le.trans (monthLength_le _ _)
  have hh := m.hour_lt
  have hmi := m.minute_lt
  have hs := m.second_lt
  generalize hc : (if 1 < m.month ∧ ¬IsLeap m.year then 1 else 0) = c at hmonths
  have hc1 : c ≤ 1 := by
    rw [← hc]
    split_ifs <;> omega
  have hcz : (if 1 < m.month ∧ ¬IsLeap m.year then 86400 else 0 : ℤ) = 86400 * c := by
    rw [← hc]
    split_ifs <;> rfl
  have hmon := month_eq m.month_lt
  generalize daysBeforeMonth True m.month = b at *
  generalize daysBeforeMonth (IsLeap m.year) m.month = b' at *
  -- the sums of the source, one after the other
  have hyear : sub (tmOf m).tmYear 70 = some (n : ℤ) := by
    have heq : (tmOf m).tmYear - 70 = n := by simp only [tmOf]; omega
    rw [sub, Words.Signed.sub, heq]
    exact hfit (by omega) (by omega)
  have hyears : mul YEAR n = some (31536000 * n : ℤ) := by
    rw [(mul_units n).1]
    exact hfit (by omega) (by omega)
  have hy1 : add n 1 = some (n + 1 : ℤ) := hfit (by omega) (by omega)
  have hdiv : div (n + 1) 4 = some ((n + 1 : ℤ) / 4) :=
    Words.Signed.div_eq (by omega) (by omega) (fits_int.mpr (by omega))
  have hleaps : mul DAY ((n + 1 : ℤ) / 4) = some (86400 * ((n + 1 : ℤ) / 4)) := by
    rw [(mul_units _).2.1]
    exact hfit (by omega) (by omega)
  generalize hq : (n + 1 : ℤ) / 4 = q at hdiv hleaps
  have hr1 : add (31536000 * n) (86400 * q) = some (31536000 * n + 86400 * q) := hfit (by omega) (by omega)
  have hr2 : add (31536000 * n + 86400 * q) (86400 * b) = some (31536000 * n + 86400 * q + 86400 * b) :=
    hfit (by omega) (by omega)
  have hadj : adjust (tmOf m) n (31536000 * n + 86400 * q + 86400 * b)
      = some (31536000 * n + 86400 * q + 86400 * b') := by
    rw [adjust_eq (by omega) hn (fits_int.mpr (by omega)), hcz]
    exact congrArg some (by omega)
  have hd1 : sub (tmOf m).tmMday 1 = some (m.day - 1 : ℤ) :=
    hfit (by simp only [tmOf]; omega) (by simp only [tmOf]; omega)
  have hdays : mul DAY (m.day - 1) = some (86400 * (m.day - 1) : ℤ) := by
    rw [(mul_units _).2.1]
    exact hfit (by omega) (by omega)
  have hr3 : add (31536000 * n + 86400 * q + 86400 * b') (86400 * (m.day - 1))
      = some (31536000 * n + 86400 * q + 86400 * b' + 86400 * (m.day - 1)) := hfit (by omega) (by omega)
  have hhours : mul HOUR m.hour = some (3600 * m.hour : ℤ) := by
    rw [(mul_units _).2.2.1]
    exact hfit (by omega) (by omega)
  have hr4 : add (31536000 * n + 86400 * q + 86400 * b' + 86400 * (m.day - 1)) (3600 * m.hour)
      = some (31536000 * n + 86400 * q + 86400 * b' + 86400 * (m.day - 1) + 3600 * m.hour) :=
    hfit (by omega) (by omega)
  have hminutes : mul MINUTE m.minute = some (60 * m.minute : ℤ) := by
    rw [(mul_units _).2.2.2]
    exact hfit (by omega) (by omega)
  have hr5 : add (31536000 * n + 86400 * q + 86400 * b' + 86400 * (m.day - 1) + 3600 * m.hour) (60 * m.minute)
      = some (31536000 * n + 86400 * q + 86400 * b' + 86400 * (m.day - 1) + 3600 * m.hour + 60 * m.minute) :=
    hfit (by omega) (by omega)
  have hr6 : add (31536000 * n + 86400 * q + 86400 * b' + 86400 * (m.day - 1) + 3600 * m.hour + 60 * m.minute) m.second
      = some (Moment.since epoch m) := by
    have heq : Moment.since epoch m = 31536000 * n + 86400 * q + 86400 * b' + 86400 * (m.day - 1) + 3600 * m.hour
        + 60 * m.minute + m.second := by omega
    rw [heq]
    exact hfit (by omega) (by omega)
  have hfields : (tmOf m).tmMon = m.month ∧ (tmOf m).tmHour = m.hour ∧ (tmOf m).tmMin = m.minute ∧
      (tmOf m).tmSec = m.second := ⟨rfl, rfl, rfl, rfl⟩
  obtain ⟨hmonEq, hhourEq, hminEq, hsecEq⟩ := hfields
  rw [kernelMktime, hmonEq, hhourEq, hminEq, hsecEq]
  refine bind_eq hyear (bind_eq hyears (bind_eq hy1 (bind_eq hdiv (bind_eq hleaps (bind_eq hr1 (bind_eq hmon ?_))))))
  refine bind_eq hr2 (bind_eq hadj (bind_eq hd1 (bind_eq hdays (bind_eq hr3 ?_))))
  exact bind_eq hhours (bind_eq hr4 (bind_eq hminutes (bind_eq hr5 hr6)))

/-! ## The seconds -/

/-- **From 1970 to the last second of a `long`, `kernel_mktime` counts the seconds without an overflow, and a later
    moment has a larger count.** -/
theorem kernelMktime_exact {m m' : Moment} (hm : m ∈ Set.Icc epoch last) (hm' : m' ∈ Set.Icc epoch last) :
    kernelMktime (tmOf m) = some (Moment.since epoch m) ∧
      (m < m' → ∃ x x', kernelMktime (tmOf m) = some x ∧ kernelMktime (tmOf m') = some x' ∧ x < x') := by
  refine ⟨kernelMktime_eq hm.1 hm.2, fun hlt => ?_⟩
  refine ⟨_, _, kernelMktime_eq hm.1 hm.2, kernelMktime_eq hm'.1 hm'.2, ?_⟩
  have hsec := Moment.seconds_lt hlt
  simp only [Moment.since]
  omega

/-- The first and the last of them. -/
theorem kernelMktime_exact_ends :
    kernelMktime (tmOf epoch) = some 0 ∧
      ∃ x x', kernelMktime (tmOf epoch) = some x ∧ kernelMktime (tmOf last) = some x' ∧ x < x' := by
  have hlt : epoch < last := by decide
  have h := @kernelMktime_exact epoch last ⟨le_rfl, hlt.le⟩ ⟨hlt.le, le_rfl⟩
  rw [Moment.since_self] at h
  exact ⟨h.1, h.2 hlt⟩

theorem since_ticks (k : ℕ) : Moment.since epoch (Moment.tick^[k] epoch) = k := by
  induction k with
  | zero => exact Moment.since_self epoch
  | succ k ih => rw [Function.iterate_succ_apply', Moment.since_tick, ih, Nat.cast_succ]

/-- **`k` seconds after the epoch it returns `k`**, through every carry of the calendar. -/
theorem kernelMktime_ticks {k : ℕ} (hk : k < 2 ^ 31) : kernelMktime (tmOf (Moment.tick^[k] epoch)) = some (k : ℤ) := by
  have hsince := since_ticks k
  have hlast := since_last
  unfold Moment.since at hsince hlast
  have h0 : epoch ≤ Moment.tick^[k] epoch := not_lt.1 fun hlt => by
    have hsec := Moment.seconds_lt hlt
    omega
  have h1 : Moment.tick^[k] epoch ≤ last := not_lt.1 fun hlt => by
    have hsec := Moment.seconds_lt hlt
    omega
  rw [kernelMktime_eq h0 h1, since_ticks]

theorem kernelMktime_ticks_leap_day :
    kernelMktime (tmOf (Moment.tick^[68169600] epoch)) = some 68169600 := kernelMktime_ticks (by decide)

end Mktime
end Kernel
end Linux095
