import Mathlib.Logic.Function.Iterate

/-! The seconds since 1970 that `linux_epoch_seconds` makes of the clock, against a calendar that
counts the days one by one. -/
namespace YartOS.Clock

open List Function

structure Date where
  year : Nat
  month : Nat
  day : Nat

/-- `rtc_time_t`. -/
structure RtcTime where
  second : UInt8
  minute : UInt8
  hour : UInt8
  day : UInt8
  month : UInt8
  year : UInt16

def RtcTime.date (t : RtcTime) : Date := ⟨t.year.toNat, t.month.toNat, t.day.toNat⟩

def mdays : List Nat := [31, 28, 31, 30, 31, 30, 31, 31, 30, 31, 30, 31]

def leap (year : Nat) : Bool := year % 4 = 0 ∧ year % 100 ≠ 0 ∨ year % 400 = 0

/-- The days before a year, with the divisions of C. -/
def yearStart (year : Int) : Int :=
  (year - 1970) * 365 + ((year - 1969).tdiv 4 - (year - 1901).tdiv 100 + (year - 1601).tdiv 400)

/-- The days of the year before a month; the loop adds up the table. -/
def monthStart (leap : Bool) (month : Nat) : Nat :=
  (mdays.take (month - 1)).foldl (· + ·) 0 + if 2 < month ∧ leap then 1 else 0

def epochDays (d : Date) : Int := yearStart d.year + monthStart (leap d.year) d.month + (d.day - 1)

def linuxEpochSeconds (t : RtcTime) : UInt64 :=
  UInt64.ofInt (epochDays t.date) * 86400 + t.hour.toUInt64 * 3600 + t.minute.toUInt64 * 60 +
    t.second.toUInt64

/-! The calendar. -/

def monthDays (leap : Bool) (month : Nat) : Nat :=
  mdays.getD (month - 1) 0 + if month = 2 ∧ leap then 1 else 0

/-- A day of the calendar from 1970 on. -/
structure Date.Valid (d : Date) : Prop where
  year : 1970 ≤ d.year
  month : 0 < d.month ∧ d.month < 13
  day : 0 < d.day ∧ d.day ≤ monthDays (leap d.year) d.month

def Date.next (d : Date) : Date :=
  if d.day < monthDays (leap d.year) d.month then { d with day := d.day + 1 }
  else if d.month < 12 then ⟨d.year, d.month + 1, 1⟩
  else ⟨d.year + 1, 1, 1⟩

variable {d d' : Date} {t : RtcTime}

/-- A year has the days before its thirteenth month. -/
lemma yearStart_succ {year : Nat} (h : 1970 ≤ year) :
    yearStart (year + 1 : Nat) = yearStart year + monthStart (leap year) 13 := by
  have hYear : ∀ leap : Bool, monthStart leap 13 = 365 + leap.toNat := by decide
  rw [hYear, yearStart, yearStart, leap]
  repeat rw [Int.tdiv_eq_ediv_of_nonneg (by omega)]
  by_cases hLeap : year % 4 = 0 ∧ year % 100 ≠ 0 ∨ year % 400 = 0
  · rw [decide_eq_true hLeap, Bool.toNat_true]
    omega
  · rw [decide_eq_false hLeap, Bool.toNat_false]
    omega

lemma yearStart_le {year year' : Nat} (h : 1970 ≤ year) (le : year ≤ year') :
    yearStart year ≤ yearStart year' := by
  induction le with
  | refl => exact Int.le_refl _
  | @step year' le ih =>
    rw [yearStart_succ (Nat.le_trans h le)]
    omega

lemma monthStart_succ : ∀ leap, ∀ m < 13, 0 < m → 0 < monthDays leap m ∧
    monthStart leap (m + 1) = monthStart leap m + monthDays leap m := by
  decide

lemma monthStart_le : ∀ leap, ∀ m' ≤ 13, ∀ m < m', monthStart leap (m + 1) ≤ monthStart leap m' := by
  decide

/-- A day lies in its year. -/
lemma epochDays_mem (valid : d.Valid) :
    yearStart d.year ≤ epochDays d ∧ epochDays d < yearStart (d.year + 1 : Nat) := by
  obtain ⟨hYear, hMonth, hDay⟩ := valid
  have hEnd := (monthStart_succ (leap d.year) d.month hMonth.2 hMonth.1).2
  have hLast := monthStart_le (leap d.year) 13 (Nat.le_refl _) d.month hMonth.2
  rw [yearStart_succ hYear, epochDays]
  omega

lemma epochDays_nonneg (valid : d.Valid) : 0 ≤ epochDays d := by
  have hZero : yearStart (1970 : Nat) = 0 := by decide
  exact hZero ▸ Int.le_trans (yearStart_le (Nat.le_refl _) valid.year) (epochDays_mem valid).1

def Date.Before (d d' : Date) : Prop := [d.year, d.month, d.day] < [d'.year, d'.month, d'.day]

/-- Later days have higher numbers. -/
lemma epochDays_lt (valid : d.Valid) (valid' : d'.Valid) (before : d.Before d') :
    epochDays d < epochDays d' := by
  simp only [Date.Before, cons_lt_cons_iff, not_lt_nil, and_false, or_false] at before
  rcases before with hYear | ⟨hYear, hMonth | ⟨hMonth, hDay⟩⟩
  · have hStart := yearStart_le (Nat.le_trans valid.year (Nat.le_succ _)) hYear
    have hThis := (epochDays_mem valid).2
    have hThat := (epochDays_mem valid').1
    exact Int.lt_of_lt_of_le hThis (Int.le_trans hStart hThat)
  · have hEnd := (monthStart_succ (leap d.year) d.month valid.month.2 valid.month.1).2
    have hNext := monthStart_le (leap d.year) d'.month (Nat.le_of_lt valid'.month.2) d.month hMonth
    have hDay := valid.day.2
    have hDay' := valid'.day.1
    rw [epochDays, epochDays, ← hYear]
    omega
  · rw [epochDays, epochDays, ← hYear, ← hMonth]
    omega

lemma eq_of_epochDays (valid : d.Valid) (valid' : d'.Valid) (same : epochDays d = epochDays d') :
    d = d' := by
  have hNot : ¬ d.Before d' := fun h => by have := epochDays_lt valid valid' h; omega
  have hNot' : ¬ d'.Before d := fun h => by have := epochDays_lt valid' valid h; omega
  obtain ⟨y, m, n⟩ := d
  obtain ⟨y', m', n'⟩ := d'
  simp only [Date.Before, cons_lt_cons_iff, not_lt_nil, and_false, or_false] at hNot hNot'
  simp only [Date.mk.injEq]
  omega

/-- A step of the calendar is one more in the closed form. -/
lemma epochDays_next (valid : d.Valid) : d.next.Valid ∧ epochDays d.next = epochDays d + 1 := by
  obtain ⟨hYear, hMonth, hDay⟩ := valid
  obtain ⟨-, hEnd⟩ := monthStart_succ (leap d.year) d.month hMonth.2 hMonth.1
  unfold Date.next
  by_cases hShort : d.day < monthDays (leap d.year) d.month
  · rw [if_pos hShort]
    refine ⟨⟨hYear, hMonth, Nat.succ_pos _, hShort⟩, ?_⟩
    simp only [epochDays]
    omega
  rw [if_neg hShort]
  by_cases hLess : d.month < 12
  · rw [if_pos hLess]
    have hPos := (monthStart_succ (leap d.year) (d.month + 1) (by omega) (by omega)).1
    refine ⟨⟨hYear, ⟨Nat.succ_pos _, by simp only; omega⟩, Nat.one_pos, hPos⟩, ?_⟩
    simp only [epochDays, hEnd]
    omega
  · rw [if_neg hLess]
    have hPos := (monthStart_succ (leap (d.year + 1)) 1 (by omega) (by omega)).1
    have hMonth : d.month = 12 := by omega
    rw [hMonth] at hEnd hShort hDay
    refine ⟨⟨Nat.le_succ_of_le hYear, ⟨Nat.one_pos, Nat.one_lt_succ_succ _⟩, Nat.one_pos, hPos⟩, ?_⟩
    simp only [epochDays, yearStart_succ hYear, hEnd, hMonth,
      show ∀ leap, monthStart leap 1 = 0 by decide]
    omega

lemma epochDays_iterate (n : Nat) :
    (Date.next^[n] ⟨1970, 1, 1⟩).Valid ∧ epochDays (Date.next^[n] ⟨1970, 1, 1⟩) = n := by
  induction n with
  | zero => exact ⟨⟨by decide, by decide, by decide⟩, by decide⟩
  | succ n ih =>
    obtain ⟨hValid, hDays⟩ := epochDays_next ih.1
    rw [iterate_succ_apply']
    exact ⟨hValid, by rw [hDays, ih.2]; rfl⟩

namespace RtcTime

def secondOfDay (t : RtcTime) : Nat := t.hour.toNat * 3600 + t.minute.toNat * 60 + t.second.toNat

structure Valid (t : RtcTime) : Prop where
  date : t.date.Valid
  time : t.hour.toNat < 24 ∧ t.minute.toNat < 60 ∧ t.second.toNat < 60

/-- The calendar order. -/
def Before (t t' : RtcTime) : Prop := t.date.Before t'.date ∨ t.date = t'.date ∧
  [t.hour.toNat, t.minute.toNat, t.second.toNat] < [t'.hour.toNat, t'.minute.toNat, t'.second.toNat]

end RtcTime

/-- Nothing wraps in 64 bits. -/
lemma linuxEpochSeconds_toNat (valid : t.Valid) :
    ((linuxEpochSeconds t).toNat : Int) = 86400 * epochDays t.date + t.secondOfDay := by
  obtain ⟨hDate, hTime⟩ := valid
  have hLow := epochDays_nonneg hDate
  have hMost : yearStart (2 ^ 16 : Nat) < 2 ^ 32 := by decide
  have hHigh := Int.lt_of_lt_of_le (epochDays_mem hDate).2
    (yearStart_le (Nat.le_trans hDate.year (Nat.le_succ _)) t.year.toNat_lt)
  have hDays : (UInt64.ofInt (epochDays t.date)).toNat = (epochDays t.date).toNat := by
    rw [UInt64.ofInt, UInt64.toNat_ofNat']
    omega
  rw [linuxEpochSeconds, RtcTime.secondOfDay]
  simp only [UInt64.toNat_add, UInt64.toNat_mul, hDays, UInt8.toNat_toUInt64, UInt64.reduceToNat]
  omega

/-- The closed form counts the days one by one, and later times have higher numbers. -/
theorem epochSeconds_counts (t : RtcTime) (valid : t.Valid) :
    (∃ n, (∀ k, Date.next^[k] ⟨1970, 1, 1⟩ = t.date ↔ k = n) ∧
        (linuxEpochSeconds t).toNat = 86400 * n + t.secondOfDay) ∧
      ∀ t' : RtcTime, t'.Valid → t.Before t' → linuxEpochSeconds t < linuxEpochSeconds t' := by
  have hSeconds := linuxEpochSeconds_toNat valid
  constructor
  · have hLow := epochDays_nonneg valid.date
    refine ⟨(epochDays t.date).toNat, fun k => ⟨fun h => ?_, ?_⟩, by omega⟩
    · have hDays := (epochDays_iterate k).2
      rw [h] at hDays
      omega
    · rintro rfl
      obtain ⟨hValid, hDays⟩ := epochDays_iterate (epochDays t.date).toNat
      exact eq_of_epochDays hValid valid.date (by omega)
  · intro t' valid' before
    have hSeconds' := linuxEpochSeconds_toNat valid'
    have hTime := valid.time
    rw [RtcTime.secondOfDay] at hSeconds hSeconds'
    rw [UInt64.lt_iff_toNat_lt]
    rcases before with hDate | ⟨hDate, hLess⟩
    · have hDays := epochDays_lt valid.date valid'.date hDate
      omega
    · simp only [cons_lt_cons_iff, not_lt_nil, and_false, or_false] at hLess
      rw [← hDate] at hSeconds'
      have hTime' := valid'.time
      omega

/-- 29 February 2024, one second before midnight. -/
theorem leapDay_counts : linuxEpochSeconds ⟨59, 59, 23, 29, 2, 2024⟩ = 1709251199 ∧
    linuxEpochSeconds ⟨59, 59, 23, 29, 2, 2024⟩ < linuxEpochSeconds ⟨0, 0, 0, 1, 3, 2024⟩ := by
  have hValid : RtcTime.Valid ⟨59, 59, 23, 29, 2, 2024⟩ :=
    ⟨⟨by decide, by decide, by decide⟩, by decide⟩
  have hValid' : RtcTime.Valid ⟨0, 0, 0, 1, 3, 2024⟩ :=
    ⟨⟨by decide, by decide, by decide⟩, by decide⟩
  have hBefore : Date.Before ⟨2024, 2, 29⟩ ⟨2024, 3, 1⟩ := by
    unfold Date.Before
    decide
  exact ⟨by decide, (epochSeconds_counts _ hValid).2 _ hValid' (.inl hBefore)⟩

end YartOS.Clock
