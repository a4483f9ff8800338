import DatahubEdge.Timestamp

/-!
# Dates and instants

An instant is the number of seconds since the start of the year 0.  `mktime`
followed by `gmtime_r` turns the members `strptime` has read into the date of
the same instant.

## Main results

* `instant_carry`, `valid_carry` — the date `carry` yields.
* `eq_of_instant_eq` — an instant has one date.
* `carry_eq_of_valid` — so it is the date of the instant.
-/

namespace DatahubEdge.Timestamp

/-! ## Counting days -/

def daysInYear (year : Nat) : Nat := if isLeap year then 366 else 365

/-- The days before a year. -/
def yearStart : Nat → Nat
  | 0 => 0
  | year + 1 => yearStart year + daysInYear year

/-- The days of a year before a month. -/
def monthStart (year : Nat) : Nat → Nat
  | 0 => 0
  | mon + 1 =>
      monthStart year mon + if mon = 0 then 0 else daysInMonth year mon

/-- The number of a day, counted from 1. -/
def dayNumber (tm : Tm) : Nat :=
  yearStart tm.year + monthStart tm.year tm.mon + tm.mday

/-- The seconds up to a point of time. -/
def instant (tm : Tm) : Nat :=
  ((dayNumber tm * 24 + tm.hour) * 60 + tm.min) * 60 + tm.sec

/-- A date of the calendar and a time of day. -/
structure Tm.Valid (tm : Tm) : Prop where
  mon_pos : 1 ≤ tm.mon
  mon_le : tm.mon ≤ 12
  mday_pos : 1 ≤ tm.mday
  mday_le : tm.mday ≤ daysInMonth tm.year tm.mon
  hour_lt : tm.hour < 24
  min_lt : tm.min < 60
  sec_lt : tm.sec < 60

/-- The ranges of the fields `strptime` reads. -/
structure Tm.InRange (tm : Tm) : Prop where
  year_le : tm.year ≤ 9999
  mon_pos : 1 ≤ tm.mon
  mon_le : tm.mon ≤ 12
  mday_pos : 1 ≤ tm.mday
  mday_le : tm.mday ≤ 31
  hour_le : tm.hour ≤ 23
  min_le : tm.min ≤ 59
  sec_le : tm.sec ≤ 61

theorem daysInMonth_bounds (year mon : Nat) :
    28 ≤ daysInMonth year mon ∧ daysInMonth year mon ≤ 31 := by
  unfold daysInMonth
  split
  · split <;> omega
  · split <;> omega

theorem monthStart_succ (year : Nat) {mon : Nat} (h : 1 ≤ mon) :
    monthStart year (mon + 1) =
      monthStart year mon + daysInMonth year mon := by
  rw [monthStart, if_neg (by omega)]

/-- The months make up the year. -/
theorem monthStart_thirteen (year : Nat) :
    monthStart year 13 = daysInYear year := by
  by_cases h : isLeap year = true
  · simp [monthStart, daysInMonth, daysInYear, h]
  · simp [monthStart, daysInMonth, daysInYear, h]

theorem monthStart_mono (year : Nat) {m n : Nat} (h : m ≤ n) :
    monthStart year m ≤ monthStart year n := by
  induction n with
  | zero =>
      have hm : m = 0 := by omega
      rw [hm]
  | succ n ih =>
      by_cases heq : m = n + 1
      · rw [heq]
      · have hle := ih (by omega)
        rw [monthStart]
        omega

theorem yearStart_mono {m n : Nat} (h : m ≤ n) :
    yearStart m ≤ yearStart n := by
  induction n with
  | zero =>
      have hm : m = 0 := by omega
      rw [hm]
  | succ n ih =>
      by_cases heq : m = n + 1
      · rw [heq]
      · have hle := ih (by omega)
        rw [yearStart]
        omega

/-- A day lies in its month. -/
theorem Tm.Valid.day_le {tm : Tm} (h : tm.Valid) :
    monthStart tm.year tm.mon + tm.mday ≤
      monthStart tm.year (tm.mon + 1) := by
  have hle := h.mday_le
  rw [monthStart_succ tm.year h.mon_pos]
  omega

/-- A day lies in its year. -/
theorem Tm.Valid.dayNumber_bounds {tm : Tm} (h : tm.Valid) :
    yearStart tm.year < dayNumber tm ∧
      dayNumber tm ≤ yearStart (tm.year + 1) := by
  have hday := h.day_le
  have hpos := h.mday_pos
  have hmon := monthStart_mono tm.year (show tm.mon + 1 ≤ 13 from
    Nat.succ_le_succ h.mon_le)
  rw [monthStart_thirteen] at hmon
  rw [yearStart, dayNumber]
  omega

/-! ## An instant has one date -/

theorem year_le_of_dayNumber_le {a b : Tm} (ha : a.Valid) (hb : b.Valid)
    (h : dayNumber a ≤ dayNumber b) : a.year ≤ b.year := by
  by_contra hlt
  have hmono := yearStart_mono (show b.year + 1 ≤ a.year by omega)
  have hda := ha.dayNumber_bounds
  have hdb := hb.dayNumber_bounds
  omega

theorem mon_le_of_day_le {a b : Tm} (ha : a.Valid) (hb : b.Valid)
    (hyear : a.year = b.year)
    (h : monthStart a.year a.mon + a.mday ≤
      monthStart b.year b.mon + b.mday) : a.mon ≤ b.mon := by
  by_contra hlt
  have hmono := monthStart_mono b.year (show b.mon + 1 ≤ a.mon by omega)
  have hday := hb.day_le
  have hpos := ha.mday_pos
  rw [hyear] at h
  omega

theorem eq_of_instant_eq {a b : Tm} (ha : a.Valid) (hb : b.Valid)
    (h : instant a = instant b) : a = b := by
  have hha := ha.hour_lt
  have hma := ha.min_lt
  have hsa := ha.sec_lt
  have hhb := hb.hour_lt
  have hmb := hb.min_lt
  have hsb := hb.sec_lt
  unfold instant at h
  have hday : dayNumber a = dayNumber b := by omega
  have hhour : a.hour = b.hour := by omega
  have hmin : a.min = b.min := by omega
  have hsec : a.sec = b.sec := by omega
  have hyear : a.year = b.year := Nat.le_antisymm
    (year_le_of_dayNumber_le ha hb (Nat.le_of_eq hday))
    (year_le_of_dayNumber_le hb ha (Nat.le_of_eq hday.symm))
  unfold dayNumber at hday
  rw [hyear] at hday
  have hmonth : monthStart a.year a.mon + a.mday =
      monthStart b.year b.mon + b.mday := by
    rw [hyear]
    omega
  have hmon : a.mon = b.mon := Nat.le_antisymm
    (mon_le_of_day_le ha hb hyear (Nat.le_of_eq hmonth))
    (mon_le_of_day_le hb ha hyear.symm (Nat.le_of_eq hmonth.symm))
  have hmday : a.mday = b.mday := by
    rw [hmon] at hday
    omega
  cases a
  cases b
  rw [Tm.mk.injEq]
  exact ⟨hyear, hmon, hmday, hhour, hmin, hsec⟩

/-! ## `mktime` followed by `gmtime_r` -/

/-- The day of the month with the carry from the time of day. -/
def carriedMday (tm : Tm) : Nat :=
  tm.mday + (tm.hour + (tm.min + tm.sec / 60) / 60) / 24

section Carry

variable {tm : Tm}

/-- No carry into the month. -/
theorem carry_of_le (h : tm.InRange)
    (hle : carriedMday tm ≤ daysInMonth tm.year tm.mon) :
    (carry tm).year = tm.year ∧ (carry tm).mon = tm.mon ∧
      (carry tm).mday = carriedMday tm := by
  have hmon := h.mon_le
  have hpast : ¬ daysInMonth tm.year tm.mon < carriedMday tm := by omega
  unfold carriedMday at hpast
  unfold carry carriedMday
  simp only [hpast, if_false]
  rw [if_neg (by omega), if_neg (by omega)]
  exact ⟨rfl, rfl, trivial⟩

/-- A carry into the next month of the year. -/
theorem carry_of_month (hlt : daysInMonth tm.year tm.mon < carriedMday tm)
    (hmon : tm.mon < 12) :
    (carry tm).year = tm.year ∧ (carry tm).mon = tm.mon + 1 ∧
      (carry tm).mday = carriedMday tm - daysInMonth tm.year tm.mon := by
  unfold carriedMday at hlt
  unfold carry carriedMday
  simp only [hlt, if_true]
  rw [if_neg (by omega), if_neg (by omega)]
  exact ⟨rfl, rfl, trivial⟩

/-- A carry into the next year. -/
theorem carry_of_year (hlt : daysInMonth tm.year tm.mon < carriedMday tm)
    (hmon : tm.mon = 12) :
    (carry tm).year = tm.year + 1 ∧ (carry tm).mon = 1 ∧
      (carry tm).mday = carriedMday tm - daysInMonth tm.year tm.mon := by
  unfold carriedMday at hlt
  unfold carry carriedMday
  simp only [hlt, if_true]
  rw [if_pos (by omega), if_pos (by omega)]
  exact ⟨rfl, rfl, trivial⟩

/-- The days are those of the carried day of the month. -/
theorem dayNumber_carry (h : tm.InRange) :
    dayNumber (carry tm) =
      yearStart tm.year + monthStart tm.year tm.mon + carriedMday tm := by
  unfold dayNumber
  by_cases hle : carriedMday tm ≤ daysInMonth tm.year tm.mon
  · have hcarry := carry_of_le h hle
    rw [hcarry.1, hcarry.2.1, hcarry.2.2]
  · have hlt : daysInMonth tm.year tm.mon < carriedMday tm := by omega
    have hsucc := monthStart_succ tm.year h.mon_pos
    by_cases hmon : tm.mon = 12
    · have hcarry := carry_of_year hlt hmon
      have hyear := monthStart_thirteen tm.year
      rw [hmon] at hsucc hlt
      rw [hcarry.1, hcarry.2.1, hcarry.2.2, hmon, yearStart, ← hyear, hsucc]
      show _ + _ + 0 + _ = _
      omega
    · have hmon_lt : tm.mon < 12 := by
        have hmon_le := h.mon_le
        omega
      have hcarry := carry_of_month hlt hmon_lt
      rw [hcarry.1, hcarry.2.1, hcarry.2.2, hsucc]
      omega

theorem instant_carry (h : tm.InRange) :
    instant (carry tm) = instant tm := by
  have hday := dayNumber_carry h
  unfold carriedMday at hday
  have hhour : (carry tm).hour =
      (tm.hour + (tm.min + tm.sec / 60) / 60) % 24 := rfl
  have hmin : (carry tm).min = (tm.min + tm.sec / 60) % 60 := rfl
  have hsec : (carry tm).sec = tm.sec % 60 := rfl
  have htm : dayNumber tm =
      yearStart tm.year + monthStart tm.year tm.mon + tm.mday := rfl
  unfold instant
  omega

/-- The month and the day after a carry. -/
theorem carry_day_bounds (h : tm.InRange) :
    1 ≤ (carry tm).mon ∧ (carry tm).mon ≤ 12 ∧ 1 ≤ (carry tm).mday ∧
      (carry tm).mday ≤ daysInMonth (carry tm).year (carry tm).mon := by
  have hmon_pos := h.mon_pos
  have hmon_le := h.mon_le
  have hmday : 1 ≤ carriedMday tm ∧ carriedMday tm ≤ 32 := by
    have hmday_pos := h.mday_pos
    have hmday_le := h.mday_le
    have hhour := h.hour_le
    have hmin := h.min_le
    have hsec := h.sec_le
    unfold carriedMday
    omega
  by_cases hle : carriedMday tm ≤ daysInMonth tm.year tm.mon
  · have hcarry := carry_of_le h hle
    rw [hcarry.1, hcarry.2.1, hcarry.2.2]
    omega
  · -- at most four days are carried into the next month
    have hlt : daysInMonth tm.year tm.mon < carriedMday tm := by omega
    have hlast := daysInMonth_bounds tm.year tm.mon
    have hnext := daysInMonth_bounds (carry tm).year (carry tm).mon
    by_cases hmon : tm.mon = 12
    · have hcarry := carry_of_year hlt hmon
      omega
    · have hcarry := carry_of_month hlt (by omega)
      omega

theorem valid_carry (h : tm.InRange) : (carry tm).Valid := by
  have hday := carry_day_bounds h
  exact
    { mon_pos := hday.1
      mon_le := hday.2.1
      mday_pos := hday.2.2.1
      mday_le := hday.2.2.2
      hour_lt := Nat.mod_lt _ (by decide)
      min_lt := Nat.mod_lt _ (by decide)
      sec_lt := Nat.mod_lt _ (by decide) }

/-- Carrying yields the date of the instant. -/
theorem carry_eq_of_valid (h : tm.InRange) {date : Tm} (hdate : date.Valid)
    (heq : instant date = instant tm) : carry tm = date :=
  eq_of_instant_eq (valid_carry h) hdate ((instant_carry h).trans heq.symm)

end Carry

end DatahubEdge.Timestamp
