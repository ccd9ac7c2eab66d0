import Mathlib.Data.Prod.Lex
import Mathlib.Order.Interval.Set.Defs

/-!
# `Calendar.Gregorian` — dates, times and seconds

A moment is a date of the Gregorian calendar and a time of the day; one that does not exist cannot be built.

* `Moment`, `tick` — a moment, and the one a second later by the clock on the wall;
* `seconds`, `since` — how many seconds a moment is after the beginning of the year 0, and after another one;
* `since_tick` — **the clock counts them**;
* `seconds_lt`, `seconds_le` — **later is more**, where later is the order of the components.
-/

namespace Calendar

/-! ## Years and months -/

def IsLeap (y : ℕ) : Prop := y % 4 = 0 ∧ (y % 100 ≠ 0 ∨ y % 400 = 0)

instance (y : ℕ) : Decidable (IsLeap y) := inferInstanceAs (Decidable (_ ∧ _))

/-- Months are counted from 0. -/
def monthLength (leap : Prop) [Decidable leap] : ℕ → ℕ
  | 1 => if leap then 29 else 28
  | 3 | 5 | 8 | 10 => 30
  | _ => 31

/-- The days of a year before a month. -/
def daysBeforeMonth (leap : Prop) [Decidable leap] : ℕ → ℕ
  | 0 => 0
  | m + 1 => daysBeforeMonth leap m + monthLength leap m

def yearLength (y : ℕ) : ℕ := daysBeforeMonth (IsLeap y) 12

/-- The days before a year. -/
def daysBeforeYear : ℕ → ℕ
  | 0 => 0
  | y + 1 => daysBeforeYear y + yearLength y

section
variable (leap : Prop) [Decidable leap]

theorem monthLength_pos (m : ℕ) : 1 ≤ monthLength leap m := by
  unfold monthLength
  repeat' split
  all_goals omega

/-- February has 28 days, or 29. -/
theorem monthLength_le (m : ℕ) : monthLength leap m ≤ 31 := by
  unfold monthLength
  repeat' split
  all_goals omega

theorem daysBeforeMonth_mono : Monotone (daysBeforeMonth leap) :=
  monotone_nat_of_le_succ fun _ => Nat.le_add_right _ _

end

theorem daysBeforeYear_mono : Monotone daysBeforeYear :=
  monotone_nat_of_le_succ fun _ => Nat.le_add_right _ _

/-- The only month that knows of leap years is February. -/
theorem daysBeforeMonth_leap {m : ℕ} (hm : m ≤ 12) (leap : Prop) [Decidable leap] :
    daysBeforeMonth True m = daysBeforeMonth leap m + if 1 < m ∧ ¬leap then 1 else 0 := by
  by_cases h : leap
  · simp [h]
  · have table : ∀ n ≤ 12, daysBeforeMonth True n = daysBeforeMonth False n + if 1 < n then 1 else 0 := by decide
    simpa [h] using table m hm

theorem yearLength_eq (y : ℕ) : yearLength y = if IsLeap y then 366 else 365 := by
  by_cases h : IsLeap y
  · simp only [yearLength, h, if_true]
    decide
  · simp only [yearLength, h, if_false]
    decide

/-! ## Moments -/

/-- A date and a time. -/
@[ext]
structure Moment where
  year : ℕ
  month : ℕ
  day : ℕ
  hour : ℕ
  minute : ℕ
  second : ℕ
  month_lt : month < 12
  one_le_day : 1 ≤ day
  day_le : day ≤ monthLength (IsLeap year) month
  hour_lt : hour < 24
  minute_lt : minute < 60
  second_lt : second < 60

namespace Moment

/-- Midnight of the first day of a month. -/
def firstOf (y m : ℕ) (hm : m < 12) : Moment where
  year := y
  month := m
  day := 1
  hour := 0
  minute := 0
  second := 0
  month_lt := hm
  one_le_day := le_rfl
  day_le := monthLength_pos _ _
  hour_lt := by omega
  minute_lt := by omega
  second_lt := by omega

/-- The first second of the next day. -/
def nextDay (m : Moment) : Moment :=
  if hd : m.day < monthLength (IsLeap m.year) m.month then
    { m with
      day := m.day + 1, hour := 0, minute := 0, second := 0
      one_le_day := by omega, day_le := hd, hour_lt := by omega, minute_lt := by omega, second_lt := by omega }
  else if hm : m.month + 1 < 12 then firstOf m.year (m.month + 1) hm
  else firstOf (m.year + 1) 0 (by omega)

/-- A second later. -/
def tick (m : Moment) : Moment :=
  if hs : m.second + 1 < 60 then { m with second := m.second + 1, second_lt := hs }
  else if hm : m.minute + 1 < 60 then
    { m with minute := m.minute + 1, second := 0, minute_lt := hm, second_lt := by omega }
  else if hh : m.hour + 1 < 24 then
    { m with hour := m.hour + 1, minute := 0, second := 0
             hour_lt := hh, minute_lt := by omega, second_lt := by omega }
  else m.nextDay

/-! ## Seconds -/

/-- The days before a moment's. -/
def days (m : Moment) : ℕ := daysBeforeYear m.year + daysBeforeMonth (IsLeap m.year) m.month + (m.day - 1)

def seconds (m : Moment) : ℕ := 86400 * m.days + 3600 * m.hour + 60 * m.minute + m.second

/-- The seconds from `e` to `m`. -/
def since (e m : Moment) : ℤ := m.seconds - e.seconds

theorem days_firstOf (y m : ℕ) (hm : m < 12) :
    (firstOf y m hm).days = daysBeforeYear y + daysBeforeMonth (IsLeap y) m :=
  rfl

theorem seconds_firstOf (y m : ℕ) (hm : m < 12) : (firstOf y m hm).seconds = 86400 * (firstOf y m hm).days := by
  simp [seconds, firstOf]

theorem seconds_nextDay (m : Moment) : m.nextDay.seconds = 86400 * (m.days + 1) := by
  have hd := m.one_le_day
  have hl := m.day_le
  have hm := m.month_lt
  unfold nextDay
  split_ifs with hday hmonth
  · simp only [seconds, days]
    omega
  · have hnext : daysBeforeMonth (IsLeap m.year) (m.month + 1)
        = daysBeforeMonth (IsLeap m.year) m.month + monthLength (IsLeap m.year) m.month := rfl
    rw [seconds_firstOf, days_firstOf, hnext, days]
    omega
  · have hlast : m.month = 11 := by omega
    have hnext : daysBeforeYear (m.year + 1)
        = daysBeforeYear m.year
          + (daysBeforeMonth (IsLeap m.year) m.month + monthLength (IsLeap m.year) m.month) := by
      rw [hlast]
      rfl
    have hzero : daysBeforeMonth (IsLeap (m.year + 1)) 0 = 0 := rfl
    rw [seconds_firstOf, days_firstOf, hnext, hzero, days]
    omega

theorem seconds_tick (m : Moment) : m.tick.seconds = m.seconds + 1 := by
  have hs := m.second_lt
  have hm := m.minute_lt
  have hh := m.hour_lt
  unfold tick
  split_ifs with h1 h2 h3
  · simp only [seconds, days]
    omega
  · simp only [seconds, days]
    omega
  · simp only [seconds, days]
    omega
  · rw [seconds_nextDay, seconds]
    omega

theorem since_self (e : Moment) : since e e = 0 := by
  simp [since]

/-- **Every tick of the clock is one second.** -/
theorem since_tick (e m : Moment) : since e m.tick = since e m + 1 := by
  simp only [since, seconds_tick]
  omega

/-! ## Earlier and later -/

/-- The components, the largest unit first. -/
def components (m : Moment) : ℕ ×ₗ ℕ ×ₗ ℕ ×ₗ ℕ ×ₗ ℕ ×ₗ ℕ :=
  toLex (m.year, toLex (m.month, toLex (m.day, toLex (m.hour, toLex (m.minute, m.second)))))

theorem components_injective : Function.Injective components := by
  intro a b h
  simp only [components, EmbeddingLike.apply_eq_iff_eq, Prod.mk.injEq] at h
  exact Moment.ext h.1 h.2.1 h.2.2.1 h.2.2.2.1 h.2.2.2.2.1 h.2.2.2.2.2

/-- The order of a diary: by year, then by month, and so on. -/
instance : LinearOrder Moment := LinearOrder.lift' components components_injective

theorem lt_iff (a b : Moment) : a < b ↔ a.components < b.components := Iff.rfl

theorem year_le_of_le {a b : Moment} (h : a ≤ b) : a.year ≤ b.year := by
  by_contra hlt
  refine absurd h (not_le_of_gt ?_)
  simp only [lt_iff, components, Prod.Lex.toLex_lt_toLex]
  exact Or.inl (by omega)

theorem month_le_of_le {a b : Moment} (h : a ≤ b) (hy : a.year = b.year) : a.month ≤ b.month := by
  by_contra hlt
  refine absurd h (not_le_of_gt ?_)
  simp only [lt_iff, components, Prod.Lex.toLex_lt_toLex]
  exact Or.inr ⟨hy.symm, Or.inl (by omega)⟩

/-- A day is within its month. -/
theorem days_lt_month (m : Moment) :
    m.days < daysBeforeYear m.year + daysBeforeMonth (IsLeap m.year) (m.month + 1) := by
  have hd := m.one_le_day
  have hl := m.day_le
  simp only [days, daysBeforeMonth]
  omega

/-- A day is within its year. -/
theorem days_lt_year (m : Moment) : m.days < daysBeforeYear (m.year + 1) := by
  have hmonth := daysBeforeMonth_mono (IsLeap m.year) (Nat.succ_le_of_lt m.month_lt)
  exact lt_of_lt_of_le m.days_lt_month (Nat.add_le_add_left hmonth _)

theorem le_days (m : Moment) : daysBeforeYear m.year + daysBeforeMonth (IsLeap m.year) m.month ≤ m.days :=
  Nat.le_add_right _ _

theorem days_lt_of_year {a b : Moment} (h : a.year < b.year) : a.days < b.days := by
  have ha := a.days_lt_year
  have hy : daysBeforeYear (a.year + 1) ≤ daysBeforeYear b.year := daysBeforeYear_mono (Nat.succ_le_of_lt h)
  have hb := b.le_days
  omega

theorem days_lt_of_month {a b : Moment} (hy : a.year = b.year) (h : a.month < b.month) : a.days < b.days := by
  have ha := a.days_lt_month
  have hm : daysBeforeMonth (IsLeap b.year) (a.month + 1) ≤ daysBeforeMonth (IsLeap b.year) b.month :=
    daysBeforeMonth_mono _ (Nat.succ_le_of_lt h)
  have hb := b.le_days
  simp only [hy] at ha
  omega

theorem days_lt_of_day {a b : Moment} (hy : a.year = b.year) (hm : a.month = b.month) (h : a.day < b.day) :
    a.days < b.days := by
  have ha := a.one_le_day
  simp only [days, hy, hm]
  omega

/-- **A later moment has more seconds.** -/
theorem seconds_lt {a b : Moment} (h : a < b) : a.seconds < b.seconds := by
  have hs := a.second_lt
  have hm := a.minute_lt
  have hh := a.hour_lt
  -- a day is longer than what the clock shows
  have later : a.days < b.days → a.seconds < b.seconds := by
    intro hd
    simp only [seconds]
    omega
  simp only [lt_iff, components, Prod.Lex.toLex_lt_toLex] at h
  rcases h with hyear | ⟨hy, hmonth | ⟨hmo, hday | ⟨hd, hrest⟩⟩⟩
  · exact later (days_lt_of_year hyear)
  · exact later (days_lt_of_month hy hmonth)
  · exact later (days_lt_of_day hy hmo hday)
  · have hdays : a.days = b.days := by simp only [days, hy, hmo, hd]
    simp only [seconds, hdays]
    omega

theorem seconds_le {a b : Moment} (h : a ≤ b) : a.seconds ≤ b.seconds := by
  rcases h.eq_or_lt with rfl | hlt
  · exact le_rfl
  · exact (seconds_lt hlt).le

end Moment
end Calendar
