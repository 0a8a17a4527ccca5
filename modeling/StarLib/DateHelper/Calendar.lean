import Mathlib.Logic.Function.Iterate
import StarLib.DateHelper

/-! # Days of the calendar

A `COleDateTime` some days later, and the number of a day. Months are counted from year 0, so that month `k` is month
`k % 12 + 1` of year `k / 12`; `dateAt` is the date on a day of it, at the time of day of a given date.
-/

namespace StarLib.DateHelper
set_option autoImplicit false
set_option maxHeartbeats 250000
set_option maxRecDepth 120000

/-- Another day, at the same time. -/
def Date.onDay (d : Date) (year month day : ℕ) : COleDateTime :=
  if h : Valid year month day d.hour d.minute d.second then some ⟨year, month, day, d.hour, d.minute, d.second, h⟩ else none

def Date.next (d : Date) : COleDateTime :=
  if d.day < monthLength d.year d.month then d.onDay d.year d.month (d.day + 1)
  else if d.month < 12 then d.onDay d.year (d.month + 1) 1
  else d.onDay (d.year + 1) 1 1

def Date.prev (d : Date) : COleDateTime :=
  if 1 < d.day then d.onDay d.year d.month (d.day - 1)
  else if 1 < d.month then d.onDay d.year (d.month - 1) (monthLength d.year (d.month - 1))
  else d.onDay (d.year - 1) 12 31

/-- `COleDateTime::operator+=` with a number of days. -/
def plusDays (date : COleDateTime) : ℤ → COleDateTime
  | .ofNat n => (fun date : COleDateTime => date.bind Date.next)^[n] date
  | .negSucc n => (fun date : COleDateTime => date.bind Date.prev)^[n + 1] date

/-! ## The number of a day -/

/-- The days of the years before `year`. -/
def yearOffset (year : ℕ) : ℕ := 365 * (year - 1) + (year - 1) / 4 - (year - 1) / 100 + (year - 1) / 400

/-- The days of the months before `month`. -/
def monthOffset (year : ℕ) : ℕ → ℕ
  | 0 => 0
  | 1 => 0
  | month + 2 => monthOffset year (month + 1) + monthLength year (month + 1)

/-- The days since 30 December 1899: `m_dt`, but for the time. -/
def Date.serial (d : Date) : ℤ := yearOffset d.year + monthOffset d.year d.month + d.day - 693594

/-- 30 December 1899, 0:00. -/
def dayZero : Date := ⟨1899, 12, 30, 0, 0, 0, by decide⟩

/-- `COleDateTime(n)`, for a whole number `n`. -/
def ofSerial (n : ℤ) : COleDateTime := plusDays (some dayZero) n

/-! ## Months one after another -/

/-- The month is one of the years 100 to 9999. -/
def InYears (k : ℕ) : Prop := 1200 ≤ k ∧ k < 120000

def lengthOf (k : ℕ) : ℕ := monthLength (k / 12) (k % 12 + 1)

def Date.monthIndex (d : Date) : ℕ := 12 * d.year + (d.month - 1)

def Date.dateAt (d : Date) (k day : ℕ) : COleDateTime := d.onDay (k / 12) (k % 12 + 1) day

theorem lengthOf_bounds (k : ℕ) : 28 ≤ lengthOf k ∧ lengthOf k ≤ 31 := monthLength_bounds _ _

section Months
variable {d : Date} {k day : ℕ}

theorem Date.monthIndex_inYears (d : Date) : InYears d.monthIndex := by
  have hyears := d.valid.inYears
  have hyear := d.valid.inYear
  unfold InYears Date.monthIndex
  omega

theorem Date.monthIndex_split (d : Date) : d.monthIndex / 12 = d.year ∧ d.monthIndex % 12 + 1 = d.month := by
  have hyear := d.valid.inYear
  unfold Date.monthIndex
  omega

theorem lengthOf_monthIndex (d : Date) : lengthOf d.monthIndex = monthLength d.year d.month := by
  unfold lengthOf
  rw [d.monthIndex_split.1, d.monthIndex_split.2]

theorem valid_at (d : Date) (hk : InYears k) (hday : 1 ≤ day ∧ day ≤ lengthOf k) :
    Valid (k / 12) (k % 12 + 1) day d.hour d.minute d.second := by
  unfold InYears at hk
  exact ⟨by omega, by omega, hday, d.valid.inDay⟩

theorem dateAt_eq (d : Date) (hk : InYears k) (hday : 1 ≤ day ∧ day ≤ lengthOf k) :
    d.dateAt k day = some ⟨k / 12, k % 12 + 1, day, d.hour, d.minute, d.second, valid_at d hk hday⟩ :=
  dif_pos (valid_at d hk hday)

theorem dateAt_self (d : Date) : d.dateAt d.monthIndex d.day = some d := by
  obtain ⟨hyear, hmonth⟩ := d.monthIndex_split
  unfold Date.dateAt Date.onDay
  rw [hyear, hmonth]
  exact dif_pos d.valid

theorem next_dateAt (d : Date) (hk : InYears k) (hday : 1 ≤ day ∧ day ≤ lengthOf k) :
    (d.dateAt k day).bind Date.next = if day < lengthOf k then d.dateAt k (day + 1) else d.dateAt (k + 1) 1 := by
  rw [dateAt_eq d hk hday]
  show Date.next _ = _
  unfold Date.next
  by_cases hwithin : day < lengthOf k
  · rw [if_pos hwithin]
    exact if_pos hwithin
  · rw [if_neg hwithin]
    refine (if_neg hwithin).trans ?_
    dsimp only
    by_cases hmonth : k % 12 + 1 < 12
    · rw [if_pos hmonth]
      have hyear : (k + 1) / 12 = k / 12 := by omega
      have hnext : (k + 1) % 12 = k % 12 + 1 := by omega
      unfold Date.dateAt
      rw [hyear, hnext]
      rfl
    · rw [if_neg hmonth]
      have hyear : (k + 1) / 12 = k / 12 + 1 := by omega
      have hnext : (k + 1) % 12 = 0 := by omega
      unfold Date.dateAt
      rw [hyear, hnext]
      rfl

theorem prev_first (d : Date) (hk : InYears (k + 1)) :
    (d.dateAt (k + 1) 1).bind Date.prev = d.dateAt k (lengthOf k) := by
  have hlength := lengthOf_bounds (k + 1)
  rw [dateAt_eq d hk ⟨Nat.le_refl 1, by omega⟩]
  show Date.prev _ = _
  unfold Date.prev
  rw [if_neg (Nat.lt_irrefl 1)]
  dsimp only
  by_cases hmonth : 1 < (k + 1) % 12 + 1
  · rw [if_pos hmonth]
    have hyear : (k + 1) / 12 = k / 12 := by omega
    have hprev : (k + 1) % 12 + 1 - 1 = k % 12 + 1 := by omega
    show d.onDay ((k + 1) / 12) _ (monthLength ((k + 1) / 12) _) = _
    rw [hyear, hprev]
    rfl
  · rw [if_neg hmonth]
    have hyear : (k + 1) / 12 - 1 = k / 12 := by omega
    have hprev : k % 12 + 1 = 12 := by omega
    have hlast : lengthOf k = 31 := by
      unfold lengthOf
      rw [hprev]
      rfl
    show d.onDay ((k + 1) / 12 - 1) 12 31 = d.onDay (k / 12) (k % 12 + 1) (lengthOf k)
    rw [hyear, hprev, hlast]

theorem prev_within (d : Date) (hk : InYears k) (hday : 1 ≤ day ∧ day + 1 ≤ lengthOf k) :
    (d.dateAt k (day + 1)).bind Date.prev = d.dateAt k day := by
  rw [dateAt_eq d hk ⟨by omega, hday.2⟩]
  exact if_pos (Nat.lt_succ_of_le hday.1)

/-- Some days later, at most as many as the shortest month has. -/
theorem plusDays_dateAt (d : Date) (hlow : 1200 ≤ k) (hhigh : k + 1 < 120000) (hday : 1 ≤ day ∧ day ≤ lengthOf k) (n : ℕ)
    (hn : n ≤ 28) :
    plusDays (d.dateAt k day) n =
      if day + n ≤ lengthOf k then d.dateAt k (day + n) else d.dateAt (k + 1) (day + n - lengthOf k) := by
  have hlength := lengthOf_bounds (k + 1)
  have hthis : InYears k := ⟨hlow, by omega⟩
  have hnext : InYears (k + 1) := ⟨by omega, hhigh⟩
  induction n with
  | zero => exact (if_pos hday.2).symm
  | succ n ih =>
    have hstep : plusDays (d.dateAt k day) (n + 1 : ℕ) = (plusDays (d.dateAt k day) n).bind Date.next :=
      Function.iterate_succ_apply' _ _ _
    rw [hstep, ih (by omega)]
    by_cases hwithin : day + n ≤ lengthOf k
    · rw [if_pos hwithin, next_dateAt d hthis ⟨by omega, hwithin⟩]
      by_cases hlast : day + n < lengthOf k
      · rw [if_pos hlast, if_pos (by omega)]
        rfl
      · have hfirst : day + (n + 1) - lengthOf k = 1 := by omega
        rw [if_neg hlast, if_neg (by omega), hfirst]
    · have hlater : day + (n + 1) - lengthOf k = day + n - lengthOf k + 1 := by omega
      rw [if_neg hwithin, if_neg (by omega), next_dateAt d hnext ⟨by omega, by omega⟩, if_pos (by omega), hlater]

/-- As many days back as the day of the month. -/
theorem plusDays_back (d : Date) (hk : InYears (k + 1)) (hday : 1 ≤ day ∧ day ≤ lengthOf (k + 1)) :
    plusDays (d.dateAt (k + 1) day) (-day) = d.dateAt k (lengthOf k) := by
  obtain ⟨n, rfl⟩ : ∃ n, day = n + 1 := ⟨day - 1, by omega⟩
  show (fun date : COleDateTime => date.bind Date.prev)^[n + 1] (d.dateAt (k + 1) (n + 1)) = _
  induction n with
  | zero => exact prev_first d hk
  | succ n ih =>
    rw [Function.iterate_succ_apply, prev_within d hk ⟨by omega, hday.2⟩]
    exact ih ⟨by omega, by omega⟩

end Months

/-! ## Numbers of days one after another -/

/-- The days before month `k`. -/
def monthStart (k : ℕ) : ℤ := yearOffset (k / 12) + monthOffset (k / 12) (k % 12 + 1)

theorem serial_eq (d : Date) : d.serial = monthStart d.monthIndex + d.day - 693594 := by
  unfold monthStart
  rw [d.monthIndex_split.1, d.monthIndex_split.2]
  rfl

theorem monthOffset_december (year : ℕ) : monthOffset year 12 + 31 = if isLeapYear year then 366 else 365 := by
  have hfebruary : monthLength year 2 = if isLeapYear year then 29 else 28 := (getDaysInMonth_eq ⟨by decide, by decide⟩).symm
  have hother : ∀ m, m ≠ 2 → monthLength year m = if m ∈ [4, 6, 9, 11] then 30 else 31 := fun m hm => if_neg hm
  simp [monthOffset, hfebruary, hother]
  split <;> rfl

theorem yearOffset_succ {year : ℕ} (h : 1 ≤ year) :
    yearOffset (year + 1) = yearOffset year + if isLeapYear year then 366 else 365 := by
  obtain ⟨n, rfl⟩ : ∃ n, year = n + 1 := ⟨year - 1, by omega⟩
  have hfewer : n / 100 ≤ n / 4 := Nat.div_le_div_left (by decide) (by decide)
  have hcentury : 100 ∣ n + 1 → 4 ∣ n + 1 := Nat.dvd_trans (by decide)
  have hgreat : 400 ∣ n + 1 → 100 ∣ n + 1 := Nat.dvd_trans (by decide)
  unfold yearOffset
  simp only [Nat.add_sub_cancel, Nat.succ_div, isLeapYear_iff]
  generalize n / 4 = a at hfewer
  generalize n / 100 = b at hfewer
  generalize n / 400 = c
  by_cases h4 : 4 ∣ n + 1
  · by_cases h100 : 100 ∣ n + 1
    · by_cases h400 : 400 ∣ n + 1
      · rw [if_pos h4, if_pos h100, if_pos h400, if_pos ⟨h4, fun _ => h400⟩]
        omega
      · rw [if_pos h4, if_pos h100, if_neg h400, if_neg fun hleap => h400 (hleap.2 h100)]
        omega
    · rw [if_pos h4, if_neg h100, if_neg (mt hgreat h100), if_pos ⟨h4, fun h => absurd h h100⟩]
      omega
  · have h100 := mt hcentury h4
    rw [if_neg h4, if_neg h100, if_neg (mt hgreat h100), if_neg fun hleap => h4 hleap.1]
    omega

theorem monthStart_succ {k : ℕ} (hk : 12 ≤ k) : monthStart (k + 1) = monthStart k + lengthOf k := by
  unfold monthStart lengthOf
  by_cases hmonth : k % 12 = 11
  · have hyear : (k + 1) / 12 = k / 12 + 1 := by omega
    have hnext : (k + 1) % 12 = 0 := by omega
    have hdecember := monthOffset_december (k / 12)
    have hlength : monthLength (k / 12) 12 = 31 := rfl
    rw [hyear, hnext, hmonth, yearOffset_succ (by omega), hlength, ← hdecember]
    simp [monthOffset]
    omega
  · have hyear : (k + 1) / 12 = k / 12 := by omega
    have hnext : (k + 1) % 12 = k % 12 + 1 := by omega
    rw [hyear, hnext]
    simp [monthOffset]
    omega

theorem monthStart_le {j k : ℕ} (hj : 12 ≤ j) (h : j ≤ k) : monthStart j ≤ monthStart k := by
  induction k, h using Nat.le_induction with
  | base => exact le_rfl
  | succ k hjk ih =>
    rw [monthStart_succ (by omega)]
    omega

theorem dayZero_month : monthStart 22799 + 30 = 693594 := by decide

/-- The date of a number: counting from 30 December 1899 ends on the day with that number. -/
theorem ofSerial_eq {k day : ℕ} (hk : InYears k) (hday : 1 ≤ day ∧ day ≤ lengthOf k)
    (hlate : 693594 ≤ monthStart k + day) : ofSerial (monthStart k + day - 693594) = dayZero.dateAt k day := by
  obtain ⟨n, hn⟩ := Int.eq_ofNat_of_zero_le (show 0 ≤ monthStart k + day - 693594 by omega)
  rw [hn]
  show (fun date : COleDateTime => date.bind Date.next)^[n] (some dayZero) = _
  have hzero := dayZero_month
  induction n generalizing k day with
  | zero =>
    -- the number 0 belongs to one day only
    have hmonth : k = 22799 := by
      unfold InYears at hk
      rcases Nat.lt_trichotomy k 22799 with hlt | heq | hgt
      · have hnext := monthStart_succ (k := k) (by omega)
        have hle := monthStart_le (j := k + 1) (k := 22799) (by omega) hlt
        omega
      · exact heq
      · have hnext := monthStart_succ (k := 22799) (by omega)
        have hlength : lengthOf 22799 = 31 := rfl
        have hle := monthStart_le (j := 22799 + 1) (k := k) (by omega) hgt
        omega
    subst hmonth
    have hlast : day = 30 := by omega
    subst hlast
    rfl
  | succ n ih =>
    rw [Function.iterate_succ_apply']
    by_cases hfirst : day = 1
    · subst hfirst
      have hlow : 22799 < k := by
        by_contra hle
        unfold InYears at hk
        have := monthStart_le (j := k) (k := 22799) (by omega) (by omega)
        omega
      obtain ⟨j, rfl⟩ : ∃ j, k = j + 1 := ⟨k - 1, by omega⟩
      have hj : InYears j := by
        unfold InYears at hk ⊢
        omega
      have hnext := monthStart_succ (k := j) (by omega)
      have hlength := lengthOf_bounds j
      rw [ih hj (show 1 ≤ lengthOf j ∧ lengthOf j ≤ lengthOf j from ⟨by omega, le_rfl⟩) (by omega) (by omega)]
      rw [next_dateAt dayZero hj ⟨by omega, le_rfl⟩, if_neg (Nat.lt_irrefl _)]
    · obtain ⟨j, rfl⟩ : ∃ j, day = j + 1 := ⟨day - 1, by omega⟩
      rw [ih hk (show 1 ≤ j ∧ j ≤ lengthOf k from ⟨by omega, by omega⟩) (by omega) (by omega)]
      rw [next_dateAt dayZero hk ⟨by omega, by omega⟩, if_pos (by omega)]

end StarLib.DateHelper
