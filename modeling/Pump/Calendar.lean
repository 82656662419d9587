import Mathlib.Tactic

/-! # The calendar

    Dates of the Gregorian calendar, counted from 1970-01-01, and the time of
    day. A day is followed by the next one, and that is all there is to a date. -/

namespace Pump

/-- A month is from 1 on, and so is a day. -/
structure Date where
  year : Int
  month : Nat
  day : Nat
  deriving DecidableEq, Repr

def is_leap (year : Int) : Bool := year % 4 = 0 && (year % 100 ≠ 0 || year % 400 = 0)

def days_in_month (year : Int) (month : Nat) : Nat :=
  if month = 2 then if is_leap year then 29 else 28
  else if month = 4 ∨ month = 6 ∨ month = 9 ∨ month = 11 then 30
  else 31

namespace Date

def next (d : Date) : Date :=
  if d.day < days_in_month d.year d.month then { d with day := d.day + 1 }
  else if d.month < 12 then ⟨d.year, d.month + 1, 1⟩
  else ⟨d.year + 1, 1, 1⟩

def prev (d : Date) : Date :=
  if 1 < d.day then { d with day := d.day - 1 }
  else if 1 < d.month then ⟨d.year, d.month - 1, days_in_month d.year (d.month - 1)⟩
  else ⟨d.year - 1, 12, 31⟩

def epoch : Date := ⟨1970, 1, 1⟩

/-- The date of a day, counted from the epoch. -/
def of_day : Int → Date
  | .ofNat n => next^[n] epoch
  | .negSucc n => prev^[n + 1] epoch

example : (⟨2100, 2, 28⟩ : Date).next = ⟨2100, 3, 1⟩ ∧
    (⟨2000, 3, 1⟩ : Date).prev = ⟨2000, 2, 29⟩ := by decide

theorem year_le_next (d : Date) : d.year ≤ d.next.year := by
  unfold next
  split
  · exact le_refl _
  · split
    · exact le_refl _
    · exact Int.le_add_one (le_refl _)

theorem year_of_day {day : Int} (h : 0 ≤ day) : 1970 ≤ (of_day day).year := by
  obtain ⟨n, rfl⟩ := Int.eq_ofNat_of_zero_le h
  show 1970 ≤ (next^[n] epoch).year
  induction n with
  | zero => exact le_refl _
  | succ n ih =>
    rw [Function.iterate_succ_apply']
    exact le_trans (ih (Int.natCast_nonneg n)) (year_le_next _)

theorem days_in_month_le (year : Int) (month : Nat) : days_in_month year month ≤ 31 := by
  unfold days_in_month
  split
  · split <;> omega
  · split <;> omega

/-- A year is not over before its last day. -/
theorem next_le {d : Date} (hmonth : d.month ≤ 12) (hday : d.day ≤ 31) :
    d.next.year ≤ d.year + 1 ∧ d.next.month ≤ 12 ∧ d.next.day ≤ 31 := by
  have hdays := days_in_month_le d.year d.month
  unfold next
  split
  · exact ⟨Int.le_add_one (le_refl _), hmonth, by dsimp only; omega⟩
  · split
    · exact ⟨Int.le_add_one (le_refl _), by dsimp only; omega, by dsimp only; omega⟩
    · exact ⟨le_refl _, by dsimp only; omega, by dsimp only; omega⟩

theorem of_day_le {day : Int} (h : 0 ≤ day) :
    (of_day day).year ≤ 1970 + day ∧ (of_day day).month ≤ 12 ∧ (of_day day).day ≤ 31 := by
  obtain ⟨n, rfl⟩ := Int.eq_ofNat_of_zero_le h
  show (next^[n] epoch).year ≤ 1970 + n ∧ (next^[n] epoch).month ≤ 12 ∧ (next^[n] epoch).day ≤ 31
  induction n with
  | zero => exact ⟨le_refl _, by decide, by decide⟩
  | succ n ih =>
    obtain ⟨hyear, hmonth, hday⟩ := ih (Int.natCast_nonneg n)
    rw [Function.iterate_succ_apply']
    obtain ⟨hyear', hmonth', hday'⟩ := next_le hmonth hday
    exact ⟨by omega, hmonth', hday'⟩

end Date

/-! ## The time of day -/

/-- Seconds in a day. -/
def day_seconds : Int := 86400

/-- The date and the time of day `seconds` after the epoch. -/
structure DateTime where
  date : Date
  hour : Nat
  minute : Nat
  second : Nat
  deriving DecidableEq, Repr

def DateTime.of_seconds (seconds : Int) : DateTime :=
  let s := (seconds % day_seconds).toNat
  ⟨Date.of_day (seconds / day_seconds), s / 3600, s % 3600 / 60, s % 60⟩

theorem DateTime.hour_lt (seconds : Int) : (of_seconds seconds).hour < 24 := by
  show (seconds % 86400).toNat / 3600 < 24
  omega

theorem DateTime.minute_lt (seconds : Int) : (of_seconds seconds).minute < 60 := by
  show (seconds % 86400).toNat % 3600 / 60 < 60
  omega

theorem DateTime.second_lt (seconds : Int) : (of_seconds seconds).second < 60 :=
  Nat.mod_lt _ (by decide)

/-- Some hours earlier on the same day. -/
theorem DateTime.of_seconds_sub {seconds : Int} {k : Nat} (h : k ≤ (of_seconds seconds).hour) :
    of_seconds (seconds - k * 3600) =
      { of_seconds seconds with hour := (of_seconds seconds).hour - k } := by
  have hk : k ≤ (seconds % 86400).toNat / 3600 := h
  have hday : (seconds - k * 3600) / 86400 = seconds / 86400 := by omega
  have hsec : ((seconds - k * 3600) % 86400).toNat = (seconds % 86400).toNat - k * 3600 := by omega
  have hhour : ((seconds % 86400).toNat - k * 3600) / 3600 =
      (seconds % 86400).toNat / 3600 - k := by omega
  have hrest : ((seconds % 86400).toNat - k * 3600) % 3600 = (seconds % 86400).toNat % 3600 := by
    omega
  have hlast : ((seconds % 86400).toNat - k * 3600) % 60 = (seconds % 86400).toNat % 60 := by omega
  simp only [of_seconds, day_seconds, hday, hsec, hhour, hrest, hlast]

end Pump
