import StarLib.DateHelper.Calendar
import StarLib.Foundations.Loop

/-! # `CDateHelper::GetDate`

The ends of weeks and months that lie ahead. A loop gets a number of turns, and has no result as long as it wants more
of them. `GetCurrentTime` is `now`, and `nFirstDOW` is the number that the locale gives for the first day of the week.
-/

namespace StarLib.DateHelper
open Foundations
set_option autoImplicit false
set_option maxHeartbeats 250000
set_option maxRecDepth 120000

inductive DH_DATE
  | DHD_TODAY
  | DHD_TOMORROW
  | DHD_ENDTHISWEEK
  | DHD_ENDNEXTWEEK
  | DHD_ENDTHISMONTH
  | DHD_ENDNEXTMONTH
  | DHD_ENDTHISYEAR
  | DHD_ENDNEXTYEAR

/-! ## Days of the week -/

def firstDayOfWeek (nFirstDOW : ℤ) : ℤ :=
  match nFirstDOW with
  | 0 => 2
  | 1 => 3
  | 2 => 4
  | 3 => 5
  | 4 => 6
  | 5 => 7
  | 6 => 1
  | _ => 1

def lastDayOfWeek (nFirstDOW : ℤ) : ℤ :=
  match firstDayOfWeek nFirstDOW with
  | 2 => 1
  | 3 => 2
  | 4 => 3
  | 5 => 4
  | 6 => 5
  | 7 => 6
  | 1 => 7
  | _ => 1

def nextDayOfWeek (nDOW : ℤ) : ℤ :=
  match nDOW with
  | 2 => 3
  | 3 => 4
  | 4 => 5
  | 5 => 6
  | 6 => 7
  | 7 => 1
  | 1 => 2
  | _ => 1

/-! ## Parts of a date -/

/-- `GetMonth`; -1 is the answer for an invalid date. -/
def getMonth : COleDateTime → ℤ
  | none => -1
  | some d => d.month

def getDay : COleDateTime → ℤ
  | none => -1
  | some d => d.day

/-- `GetDayOfWeek`: 1 is a Sunday, as 31 December 1899 was. -/
def getDayOfWeek : COleDateTime → ℤ
  | none => -1
  | some d => (d.serial - 1) % 7 + 1

/-- `floor(date)`. Before day 0 the time counts downwards. -/
def floorDate : COleDateTime → ℤ
  | none => 0
  | some d => if 0 ≤ d.serial ∨ d.hour + d.minute + d.second = 0 then d.serial else d.serial - 1

/-! ## `GetDate` -/

def endOfWeek (fuel : ℕ) (nFirstDOW : ℤ) (date : COleDateTime) : Option COleDateTime :=
  let nLastDOW := lastDayOfWeek nFirstDOW
  (whileEnds (fun s : COleDateTime × ℤ => s.2 != nLastDOW) (Prod.map (plusDays · 1) nextDayOfWeek) fuel
    (date, getDayOfWeek date)).map Prod.fst

def endOfMonth (fuel : ℕ) (date : COleDateTime) : Option COleDateTime :=
  let nThisMonth := getMonth date
  (whileEnds (fun date => getMonth date == nThisMonth) (plusDays · 20) fuel date).map fun date =>
    plusDays date (-getDay date)

def getDate (fuel : ℕ) (nFirstDOW : ℤ) (now : Date) : DH_DATE → Option ℤ
  | .DHD_TODAY => some (floorDate (some now))
  | .DHD_TOMORROW => some (floorDate (ofSerial (floorDate (some now) + 1)))
  | .DHD_ENDTHISWEEK => (endOfWeek fuel nFirstDOW (some now)).map floorDate
  | .DHD_ENDNEXTWEEK => (endOfWeek fuel nFirstDOW (some now)).map fun date => floorDate date + 7
  | .DHD_ENDTHISMONTH => (endOfMonth fuel (some now)).map floorDate
  | .DHD_ENDNEXTMONTH =>
    ((endOfMonth fuel (some now)).map floorDate).bind fun last => (endOfMonth fuel (ofSerial (last + 1))).map floorDate
  | .DHD_ENDTHISYEAR => some (floorDate (dayZero.onDay now.year 12 31))
  | .DHD_ENDNEXTYEAR => some (floorDate (dayZero.onDay (now.year + 1) 12 31))

/-! ## The days that are meant -/

/-- Dates whose number counts upwards and that are not in the last year of the type. The clock of `GetCurrentTime`
runs from 1970 to 3000. -/
def Current (now : Date) : Prop := 1900 ≤ now.year ∧ now.year ≤ 9998

/-- The week starts on this day. The locales count from Monday, and day 2 was one. -/
def WeekStarts (nFirstDOW s : ℤ) : Prop := (s - 2) % 7 = nFirstDOW

def LastOfMonth (c : Date) : Prop := c.day = monthLength c.year c.month

/-! ## Months -/

section Months
variable {d : Date} {k day : ℕ}

theorem getMonth_dateAt (d : Date) (hk : InYears k) (hday : 1 ≤ day ∧ day ≤ lengthOf k) :
    getMonth (d.dateAt k day) = (k % 12 + 1 : ℕ) := by
  rw [dateAt_eq d hk hday]
  rfl

theorem getDay_dateAt (d : Date) (hk : InYears k) (hday : 1 ≤ day ∧ day ≤ lengthOf k) :
    getDay (d.dateAt k day) = day := by
  rw [dateAt_eq d hk hday]
  rfl

/-- Twenty days at a time lead into the next month: two steps at most, and never past its twentieth day. -/
theorem endOfMonth_eq (d : Date) (hlow : 1200 ≤ k) (hhigh : k + 1 < 120000) (hday : 1 ≤ day ∧ day ≤ lengthOf k) {fuel : ℕ}
    (hfuel : 2 ≤ fuel) : endOfMonth fuel (d.dateAt k day) = some (d.dateAt k (lengthOf k)) := by
  have hlength := lengthOf_bounds k
  have hlength' := lengthOf_bounds (k + 1)
  have hthis : InYears k := ⟨hlow, by omega⟩
  have hnext : InYears (k + 1) := ⟨by omega, hhigh⟩
  -- from a day of the last twenty the loop ends after one more step
  have hlast : ∀ i, 1 ≤ i → i ≤ lengthOf k → lengthOf k < i + 20 → ∀ fuel, 1 ≤ fuel →
      (whileEnds (fun date => getMonth date == ((k % 12 + 1 : ℕ) : ℤ)) (plusDays · 20) fuel (d.dateAt k i)) =
        some (d.dateAt (k + 1) (i + 20 - lengthOf k)) := by
    intro i hi1 hi2 hi20 fuel hfuel
    have hstep : plusDays (d.dateAt k i) 20 = d.dateAt (k + 1) (i + 20 - lengthOf k) :=
      (plusDays_dateAt d hlow hhigh ⟨hi1, hi2⟩ 20 (by decide)).trans (if_neg (by omega))
    obtain ⟨fuel, rfl⟩ : ∃ n, fuel = n + 1 := ⟨fuel - 1, by omega⟩
    rw [whileEnds_succ (by rw [getMonth_dateAt d hthis ⟨hi1, hi2⟩, beq_iff_eq]), hstep]
    refine whileEnds_done ?_ fuel
    rw [getMonth_dateAt d hnext ⟨by omega, by omega⟩, beq_eq_false_iff_ne]
    omega
  have hloop : ∃ i, 1 ≤ i ∧ i ≤ lengthOf (k + 1) ∧
      whileEnds (fun date => getMonth date == ((k % 12 + 1 : ℕ) : ℤ)) (plusDays · 20) fuel (d.dateAt k day) =
        some (d.dateAt (k + 1) i) := by
    by_cases hearly : day + 20 ≤ lengthOf k
    · have hstep : plusDays (d.dateAt k day) 20 = d.dateAt k (day + 20) :=
        (plusDays_dateAt d hlow hhigh hday 20 (by decide)).trans (if_pos hearly)
      obtain ⟨fuel, rfl⟩ : ∃ n, fuel = n + 1 := ⟨fuel - 1, by omega⟩
      rw [whileEnds_succ (by rw [getMonth_dateAt d hthis hday, beq_iff_eq]), hstep]
      exact ⟨_, by omega, by omega, hlast (day + 20) (by omega) hearly (by omega) fuel (by omega)⟩
    · exact ⟨_, by omega, by omega, hlast day hday.1 hday.2 (by omega) fuel (by omega)⟩
  obtain ⟨i, hi1, hi2, hrun⟩ := hloop
  unfold endOfMonth
  rw [getMonth_dateAt d hthis hday]
  dsimp only
  rw [hrun, Option.map_some, getDay_dateAt d hnext ⟨hi1, hi2⟩, plusDays_back d hnext ⟨hi1, hi2⟩]

theorem monthStart_late (hlow : 22800 ≤ k) : 693594 ≤ monthStart k := by
  have hzero := dayZero_month
  have hstart := monthStart_succ (k := 22799) (by decide)
  have hlength : lengthOf 22799 = 31 := rfl
  have hle := monthStart_le (j := 22799 + 1) (k := k) (by decide) hlow
  omega

theorem floorDate_dateAt (d : Date) (hlow : 22800 ≤ k) (hk : InYears k) (hday : 1 ≤ day ∧ day ≤ lengthOf k) :
    floorDate (d.dateAt k day) = monthStart k + day - 693594 := by
  have hlate := monthStart_late hlow
  rw [dateAt_eq d hk hday]
  exact if_pos (Or.inl (show (0 : ℤ) ≤ monthStart k + day - 693594 by omega))

theorem floorDate_last (d : Date) (hlow : 22800 ≤ k) (hk : InYears k) :
    ∃ c, floorDate (d.dateAt k (lengthOf k)) = c.serial ∧ c.year = k / 12 ∧ c.month = k % 12 + 1 ∧ LastOfMonth c := by
  have hlength := lengthOf_bounds k
  have hday : 1 ≤ lengthOf k ∧ lengthOf k ≤ lengthOf k := ⟨by omega, le_rfl⟩
  exact ⟨⟨k / 12, k % 12 + 1, lengthOf k, d.hour, d.minute, d.second, valid_at d hk hday⟩,
    floorDate_dateAt d hlow hk hday, rfl, rfl, rfl⟩

/-- The first day of the month after month `k`, by its number. -/
theorem ofSerial_first (hlow : 22800 ≤ k) (hk : InYears (k + 1)) :
    ofSerial (monthStart k + lengthOf k - 693594 + 1) = dayZero.dateAt (k + 1) 1 := by
  have hlate := monthStart_late hlow
  have hstart := monthStart_succ (k := k) (by omega)
  have hlength := lengthOf_bounds (k + 1)
  have hnumber : monthStart k + lengthOf k - 693594 + 1 = monthStart (k + 1) + (1 : ℕ) - 693594 := by omega
  rw [hnumber]
  exact ofSerial_eq hk ⟨le_rfl, by omega⟩ (by omega)

end Months

theorem endOfMonth_now {now : Date} (h : Current now) {fuel : ℕ} (hfuel : 2 ≤ fuel) :
    endOfMonth fuel (some now) = some (now.dateAt now.monthIndex (lengthOf now.monthIndex)) := by
  have hday := now.valid.inMonth
  have hyear := now.valid.inYear
  rw [← lengthOf_monthIndex] at hday
  rw [← dateAt_self now]
  unfold Current at h
  unfold Date.monthIndex at hday ⊢
  exact endOfMonth_eq now (by omega) (by omega) hday hfuel

theorem floorDate_days {now : Date} (h : Current now) (n : ℕ) (hn : n ≤ 28) :
    floorDate (plusDays (some now) n) = now.serial + n := by
  have hday := now.valid.inMonth
  have hyear := now.valid.inYear
  have hindex : 22800 ≤ now.monthIndex ∧ now.monthIndex + 1 < 120000 := by
    unfold Current at h
    unfold Date.monthIndex
    omega
  rw [← lengthOf_monthIndex] at hday
  have hlength := lengthOf_bounds (now.monthIndex + 1)
  have hstart := monthStart_succ (k := now.monthIndex) (by omega)
  have hrun := plusDays_dateAt now (by omega) hindex.2 hday n hn
  rw [dateAt_self] at hrun
  rw [hrun, serial_eq]
  split
  · rw [floorDate_dateAt now hindex.1 ⟨by omega, by omega⟩ ⟨by omega, by omega⟩]
    push_cast
    omega
  · rw [floorDate_dateAt now (by omega) ⟨by omega, hindex.2⟩ ⟨by omega, by omega⟩]
    omega

/-! ## Weeks -/

theorem lastDayOfWeek_eq {nFirstDOW : ℤ} (h : 0 ≤ nFirstDOW ∧ nFirstDOW ≤ 6) : lastDayOfWeek nFirstDOW = nFirstDOW + 1 := by
  obtain ⟨hlow, hhigh⟩ := h
  interval_cases nFirstDOW <;> rfl

theorem nextDayOfWeek_eq {nDOW : ℤ} (h : 1 ≤ nDOW ∧ nDOW ≤ 7) : nextDayOfWeek nDOW = nDOW % 7 + 1 := by
  obtain ⟨hlow, hhigh⟩ := h
  interval_cases nDOW <;> rfl

/-- The day of the week keeps step with the number of the day. -/
theorem nextDayOfWeek_iterate (s : ℤ) (i : ℕ) : nextDayOfWeek^[i] ((s - 1) % 7 + 1) = (s + i - 1) % 7 + 1 := by
  induction i with
  | zero =>
    show (s - 1) % 7 + 1 = _
    omega
  | succ i ih =>
    rw [Function.iterate_succ_apply', ih, nextDayOfWeek_eq (by omega)]
    omega

theorem endOfWeek_eq (now : Date) {nFirstDOW : ℤ} (hfirst : 0 ≤ nFirstDOW ∧ nFirstDOW ≤ 6) {fuel : ℕ} (hfuel : 6 ≤ fuel) :
    ∃ n : ℕ, n ≤ 6 ∧ endOfWeek fuel nFirstDOW (some now) = some (plusDays (some now) n) ∧
      WeekStarts nFirstDOW (now.serial + n + 1) ∧ ∀ i : ℕ, i < n → ¬ WeekStarts nFirstDOW (now.serial + i + 1) := by
  obtain ⟨n, hn⟩ := Int.eq_ofNat_of_zero_le (Int.emod_nonneg (nFirstDOW + 1 - now.serial) (show (7 : ℤ) ≠ 0 by decide))
  have hends : ∀ i : ℕ, nextDayOfWeek^[i] (getDayOfWeek (some now)) = nFirstDOW + 1 ↔
      WeekStarts nFirstDOW (now.serial + i + 1) := by
    intro i
    have hiter : nextDayOfWeek^[i] (getDayOfWeek (some now)) = (now.serial + i - 1) % 7 + 1 :=
      nextDayOfWeek_iterate now.serial i
    unfold WeekStarts
    rw [hiter]
    omega
  have hstart : WeekStarts nFirstDOW (now.serial + n + 1) := by
    unfold WeekStarts
    omega
  have hbefore : ∀ i : ℕ, i < n → ¬ WeekStarts nFirstDOW (now.serial + i + 1) := by
    intro i hi
    unfold WeekStarts
    omega
  refine ⟨n, by omega, ?_, hstart, hbefore⟩
  have hrun : whileEnds (fun s : COleDateTime × ℤ => s.2 != nFirstDOW + 1) (Prod.map (plusDays · 1) nextDayOfWeek) fuel
      (some now, getDayOfWeek (some now)) =
        some ((Prod.map (plusDays · 1) nextDayOfWeek)^[n] (some now, getDayOfWeek (some now))) := whileEnds_iterate n (by omega)
    (fun i hi => by
      rw [Prod.map_iterate, Prod.map_apply, bne_iff_ne, Ne, hends]
      exact hbefore i hi)
    (by
      rw [Prod.map_iterate, Prod.map_apply, bne_eq_false_iff_eq, hends]
      exact hstart)
  unfold endOfWeek
  rw [lastDayOfWeek_eq hfirst]
  dsimp only
  rw [hrun, Prod.map_iterate]
  rfl

/-! ## The results -/

/-- The loops end within seven turns, on the last day of this month and of the next one, and on the first day from today
after which a week starts. -/
theorem getDate_ends {now : Date} (h : Current now) {nFirstDOW : ℤ} (hfirst : 0 ≤ nFirstDOW ∧ nFirstDOW ≤ 6) {fuel : ℕ}
    (hfuel : 7 ≤ fuel) :
    (∃ c, getDate fuel nFirstDOW now .DHD_ENDTHISMONTH = some c.serial ∧ c.year = now.year ∧ c.month = now.month ∧
      LastOfMonth c) ∧
    (∃ c, getDate fuel nFirstDOW now .DHD_ENDNEXTMONTH = some c.serial ∧
      12 * c.year + c.month = 12 * now.year + now.month + 1 ∧ LastOfMonth c) ∧
    ∃ s, getDate fuel nFirstDOW now .DHD_ENDTHISWEEK = some s ∧ now.serial ≤ s ∧ s ≤ now.serial + 6 ∧
      WeekStarts nFirstDOW (s + 1) ∧ ∀ s', now.serial ≤ s' → s' < s → ¬ WeekStarts nFirstDOW (s' + 1) := by
  have hyear := now.valid.inYear
  have hindex : 22800 ≤ now.monthIndex ∧ now.monthIndex + 2 < 120000 := by
    unfold Current at h
    unfold Date.monthIndex
    omega
  have hthis : InYears now.monthIndex := ⟨by omega, by omega⟩
  have hnext : InYears (now.monthIndex + 1) := ⟨by omega, by omega⟩
  have hlength := lengthOf_bounds now.monthIndex
  have hlength' := lengthOf_bounds (now.monthIndex + 1)
  have hmonth := endOfMonth_now h (show 2 ≤ fuel by omega)
  refine ⟨?_, ?_, ?_⟩
  · obtain ⟨c, hc, hyear', hmonth', hend⟩ := floorDate_last now hindex.1 hthis
    refine ⟨c, ?_, ?_, ?_, hend⟩
    · unfold getDate
      rw [hmonth, Option.map_some, hc]
    · rw [hyear', now.monthIndex_split.1]
    · rw [hmonth', now.monthIndex_split.2]
  · obtain ⟨c, hc, hyear', hmonth', hend⟩ := floorDate_last dayZero (by omega) hnext
    refine ⟨c, ?_, ?_, hend⟩
    · -- the second loop starts on the first day of the next month
      have hlast := floorDate_dateAt now hindex.1 hthis
        (show 1 ≤ lengthOf now.monthIndex ∧ lengthOf now.monthIndex ≤ _ from ⟨by omega, le_rfl⟩)
      unfold getDate
      rw [hmonth, Option.map_some, Option.bind_some, hlast, ofSerial_first hindex.1 hnext,
        endOfMonth_eq dayZero (by omega) (by omega) ⟨le_rfl, by omega⟩ (by omega), Option.map_some, hc]
    · have hsplit := now.monthIndex_split
      omega
  · obtain ⟨n, hn, hrun, hstart, hbefore⟩ := endOfWeek_eq now hfirst (show 6 ≤ fuel by omega)
    refine ⟨now.serial + n, ?_, by omega, by omega, hstart, ?_⟩
    · unfold getDate
      rw [hrun, Option.map_some, floorDate_days h n (by omega)]
    · intro s' hle hlt
      obtain ⟨i, hi⟩ := Int.eq_ofNat_of_zero_le (show 0 ≤ s' - now.serial by omega)
      have heq : s' = now.serial + i := by omega
      rw [heq]
      exact hbefore i (by omega)

/-- 29 February 2012, in a locale whose weeks start on a Monday. -/
theorem getDate_leapDay :
    (∃ c, getDate 7 0 leapDay .DHD_ENDTHISMONTH = some c.serial ∧ c.year = leapDay.year ∧ c.month = leapDay.month ∧
      LastOfMonth c) ∧
    (∃ c, getDate 7 0 leapDay .DHD_ENDNEXTMONTH = some c.serial ∧
      12 * c.year + c.month = 12 * leapDay.year + leapDay.month + 1 ∧ LastOfMonth c) ∧
    ∃ s, getDate 7 0 leapDay .DHD_ENDTHISWEEK = some s ∧ leapDay.serial ≤ s ∧ s ≤ leapDay.serial + 6 ∧
      WeekStarts 0 (s + 1) ∧ ∀ s', leapDay.serial ≤ s' → s' < s → ¬ WeekStarts 0 (s' + 1) :=
  getDate_ends (show Current leapDay from ⟨by decide, by decide⟩) ⟨by decide, by decide⟩ (by decide)

end StarLib.DateHelper
