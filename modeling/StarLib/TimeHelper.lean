import Mathlib.Algebra.Order.Field.Basic
import Mathlib.Tactic.Cases
import Mathlib.Tactic.FieldSimp
import StarLib.Foundations.Loop
import StarLib.Foundations.Spans

/-! # `CTimeHelper::FormatTimeHMS`

A time as a number of the largest unit that it fills and a number of the next smaller one. The numbers are exact; a
conversion to `int` has no result outside the range of the type.
-/

namespace StarLib.TimeHelper
open Foundations
set_option autoImplicit false
set_option maxHeartbeats 250000
set_option maxRecDepth 120000

inductive Units
  | THU_MINS
  | THU_HOURS
  | THU_DAYS
  | THU_WEEKS
  | THU_MONTHS
  | THU_YEARS
  deriving DecidableEq

def MINS2HOURS : ℚ := 60

def WEEKS2MONTHS : ℚ := 4.348

def MONTHS2YEARS : ℚ := 12

def FUDGE : ℚ := 1e-6

/-- The settings that `SetHoursInOneDay` and `SetDaysInOneWeek` admit. -/
structure CTimeHelper where
  m_dHours2Days : ℚ
  m_dDaysToWeeks : ℚ
  hours : 0 < m_dHours2Days ∧ m_dHours2Days ≤ 24
  days : 0 < m_dDaysToWeeks ∧ m_dDaysToWeeks ≤ 7

def compare (nFromUnits nToUnits : Units) : ℤ :=
  if nFromUnits = nToUnits then 0
  else match nFromUnits with
    | .THU_MINS => -1
    | .THU_HOURS => if nToUnits = .THU_MINS then 1 else -1
    | .THU_DAYS => if nToUnits = .THU_HOURS ∨ nToUnits = .THU_MINS then 1 else -1
    | .THU_WEEKS => if nToUnits = .THU_YEARS ∨ nToUnits = .THU_MONTHS then -1 else 1
    | .THU_MONTHS => if nToUnits = .THU_YEARS then -1 else 1
    | .THU_YEARS => 1

namespace CTimeHelper

/-- A turn of the first loop of `GetTime`. -/
def smaller (c : CTimeHelper) (s : ℚ × Units) : ℚ × Units :=
  match s.2 with
  | .THU_HOURS => (s.1 * MINS2HOURS, .THU_MINS)
  | .THU_DAYS => (s.1 * c.m_dHours2Days, .THU_HOURS)
  | .THU_WEEKS => (s.1 * c.m_dDaysToWeeks, .THU_DAYS)
  | .THU_MONTHS => (s.1 * WEEKS2MONTHS, .THU_WEEKS)
  | .THU_YEARS => (s.1 * MONTHS2YEARS, .THU_MONTHS)
  | .THU_MINS => s

/-- A turn of the second loop of `GetTime`. -/
def larger (c : CTimeHelper) (s : ℚ × Units) : ℚ × Units :=
  match s.2 with
  | .THU_MINS => (s.1 / MINS2HOURS, .THU_HOURS)
  | .THU_HOURS => (s.1 / c.m_dHours2Days, .THU_DAYS)
  | .THU_DAYS => (s.1 / c.m_dDaysToWeeks, .THU_WEEKS)
  | .THU_WEEKS => (s.1 / WEEKS2MONTHS, .THU_MONTHS)
  | .THU_MONTHS => (s.1 / MONTHS2YEARS, .THU_YEARS)
  | .THU_YEARS => s

/-- `GetTime`; five turns lead from any unit to any other. -/
def getTime (c : CTimeHelper) (dTime : ℚ) (nFromUnits nToUnits : Units) : ℚ :=
  if nFromUnits = nToUnits then dTime
  else if compare nFromUnits nToUnits > 0 then
    (whileFuel (fun s => decide (compare s.2 nToUnits > 0)) c.smaller 5 (dTime, nFromUnits)).1
  else (whileFuel (fun s => decide (compare s.2 nToUnits < 0)) c.larger 5 (dTime, nFromUnits)).1

end CTimeHelper

/-- `(int)q`. -/
def toInt (q : ℚ) : Option ℤ := if -2147483648 ≤ truncInt q ∧ truncInt q ≤ 2147483647 then some (truncInt q) else none

/-- The numbers and units that `Format` gets in the protected `FormatTimeHMS`. -/
def formatParts (dTime : ℚ) (nUnits nLeftOverUnits : Units) (dLeftOverMultiplier : ℚ) (bDecPlaces : Bool) :
    Option (List (ℤ × Units)) :=
  if bDecPlaces then
    (toInt dTime).bind fun whole =>
      (toInt ((dTime - whole) * dLeftOverMultiplier + FUDGE)).map fun nLeftOver =>
        if nLeftOver = 0 then [(whole, nUnits)] else [(whole, nUnits), (nLeftOver, nLeftOverUnits)]
  else (toInt (dTime + 0.5)).map fun n => [(n, nUnits)]

/-- What is printed: a sign and the numbers with their units. -/
structure Shown where
  bNegative : Bool
  parts : List (ℤ × Units)

/-- The text of it; `GetUnits` is the letter of a unit. -/
def Shown.text (GetUnits : Units → Char) (s : Shown) : List Char :=
  (if s.bNegative then ['-'] else []) ++
    (s.parts.flatMap fun p => (toString p.1).toList ++ [GetUnits p.2]).map Char.toLower

/-- `FormatTimeHMS`. -/
def formatTimeHMS (c : CTimeHelper) (dTime : ℚ) (nUnitsFrom : Units) (bDecPlaces : Bool) : Option Shown :=
  let bNegative := decide (dTime < 0)
  let dTime := if bNegative then -dTime else dTime
  let dMins := c.getTime dTime nUnitsFrom .THU_MINS
  let dHours := dMins / MINS2HOURS
  let dDays := dHours / c.m_dHours2Days
  let dWeeks := dDays / c.m_dDaysToWeeks
  let dMonths := dWeeks / WEEKS2MONTHS
  let dYears := dMonths / MONTHS2YEARS
  let parts :=
    if 1 ≤ dYears then formatParts dYears .THU_YEARS .THU_MONTHS MONTHS2YEARS bDecPlaces
    else if 1 ≤ dMonths then formatParts dMonths .THU_MONTHS .THU_WEEKS WEEKS2MONTHS bDecPlaces
    else if 1 ≤ dWeeks then formatParts dWeeks .THU_WEEKS .THU_DAYS c.m_dDaysToWeeks bDecPlaces
    else if 1 ≤ dDays then formatParts dDays .THU_DAYS .THU_HOURS c.m_dHours2Days bDecPlaces
    else if 1 ≤ dHours then formatParts dHours .THU_HOURS .THU_MINS MINS2HOURS bDecPlaces
    else if 1 ≤ dMins then formatParts dMins .THU_MINS .THU_MINS 0 false
    else some []
  parts.map fun parts => ⟨bNegative, parts⟩

/-! ## What should be shown -/

/-- The length of a unit in minutes. -/
def CTimeHelper.lengthOf (c : CTimeHelper) : Units → ℚ
  | .THU_MINS => 1
  | .THU_HOURS => MINS2HOURS
  | .THU_DAYS => MINS2HOURS * c.m_dHours2Days
  | .THU_WEEKS => MINS2HOURS * c.m_dHours2Days * c.m_dDaysToWeeks
  | .THU_MONTHS => MINS2HOURS * c.m_dHours2Days * c.m_dDaysToWeeks * WEEKS2MONTHS
  | .THU_YEARS => MINS2HOURS * c.m_dHours2Days * c.m_dDaysToWeeks * WEEKS2MONTHS * MONTHS2YEARS

/-- The unit of what is left over; minutes are not divided. -/
def leftOverUnits : Units → Units
  | .THU_YEARS => .THU_MONTHS
  | .THU_MONTHS => .THU_WEEKS
  | .THU_WEEKS => .THU_DAYS
  | .THU_DAYS => .THU_HOURS
  | .THU_HOURS => .THU_MINS
  | .THU_MINS => .THU_MINS

/-- The minutes that the numbers stand for. -/
def CTimeHelper.total (c : CTimeHelper) : List (ℤ × Units) → ℚ
  | [] => 0
  | p :: parts => p.1 * c.lengthOf p.2 + c.total parts

def finest : List (ℤ × Units) → Units
  | [] => .THU_MINS
  | p :: _ => leftOverUnits p.2

/-- The left-over number is below the number of its units in the leading unit, and the numbers are less than one
left-over unit away from the time. -/
structure Right (c : CTimeHelper) (dTime : ℚ) (nUnitsFrom : Units) (s : Shown) : Prop where
  sign : s.bNegative = true ↔ dTime < 0
  smaller : ∀ n u k v, s.parts = [(n, u), (k, v)] → k < c.lengthOf u / c.lengthOf v
  close : |c.total s.parts - |dTime| * c.lengthOf nUnitsFrom| < c.lengthOf (finest s.parts)

/-- The first of the units, from years down, that the minutes fill. -/
def CTimeHelper.leading (c : CTimeHelper) (dMins : ℚ) : Option Units :=
  [Units.THU_YEARS, .THU_MONTHS, .THU_WEEKS, .THU_DAYS, .THU_HOURS, .THU_MINS].find? fun u => decide (c.lengthOf u ≤ dMins)

/-- The years fit into an `int`, and what is left over of a leading unit other than the minute is not the fudge away
from all of it. -/
def Clear (c : CTimeHelper) (dMins : ℚ) : Prop :=
  dMins < 2147483648 * c.lengthOf .THU_YEARS ∧
    ∀ u, c.leading dMins = some u → u ≠ .THU_MINS →
      (dMins - ⌊dMins / c.lengthOf u⌋ * c.lengthOf u) / c.lengthOf (leftOverUnits u) + FUDGE <
        ⌈c.lengthOf u / c.lengthOf (leftOverUnits u)⌉

/-! ## Conversions -/

theorem getTime_minutes (c : CTimeHelper) (dTime : ℚ) (u : Units) : c.getTime dTime u .THU_MINS = dTime * c.lengthOf u := by
  cases u with
  | THU_MINS => exact (mul_one dTime).symm
  | THU_HOURS => rfl
  | THU_DAYS =>
    show dTime * c.m_dHours2Days * MINS2HOURS = dTime * (MINS2HOURS * c.m_dHours2Days)
    ring
  | THU_WEEKS =>
    show dTime * c.m_dDaysToWeeks * c.m_dHours2Days * MINS2HOURS = dTime * (MINS2HOURS * c.m_dHours2Days * c.m_dDaysToWeeks)
    ring
  | THU_MONTHS =>
    show dTime * WEEKS2MONTHS * c.m_dDaysToWeeks * c.m_dHours2Days * MINS2HOURS =
      dTime * (MINS2HOURS * c.m_dHours2Days * c.m_dDaysToWeeks * WEEKS2MONTHS)
    ring
  | THU_YEARS =>
    show dTime * MONTHS2YEARS * WEEKS2MONTHS * c.m_dDaysToWeeks * c.m_dHours2Days * MINS2HOURS =
      dTime * (MINS2HOURS * c.m_dHours2Days * c.m_dDaysToWeeks * WEEKS2MONTHS * MONTHS2YEARS)
    ring

theorem truncInt_eq_floor {q : ℚ} (h : 0 ≤ q) : truncInt q = ⌊q⌋ := by
  rw [truncInt_of_nonneg h, Int.natCast_floor_eq_floor h]

theorem toInt_of_lt {q : ℚ} (h : 0 ≤ q) (hlt : q < 2147483648) : toInt q = some ⌊q⌋ := by
  have hfloor : ⌊q⌋ < 2147483648 := Int.floor_lt.2 (by exact_mod_cast hlt)
  have hnonneg : 0 ≤ ⌊q⌋ := Int.floor_nonneg.2 h
  unfold toInt
  rw [truncInt_eq_floor h, if_pos (by omega)]

theorem toInt_of_ge {q : ℚ} (h : 2147483648 ≤ q) : toInt q = none := by
  have hfloor : 2147483648 ≤ ⌊q⌋ := Int.le_floor.2 (by exact_mod_cast h)
  unfold toInt
  rw [truncInt_eq_floor (le_trans (by norm_num) h), if_neg (by omega)]

section Lengths
variable (c : CTimeHelper)

theorem lengthOf_pos (u : Units) : 0 < c.lengthOf u := by
  have hhours := c.hours.1
  have hdays := c.days.1
  cases u <;> simp only [CTimeHelper.lengthOf, MINS2HOURS, WEEKS2MONTHS, MONTHS2YEARS] <;> positivity

/-- The left-over units of a unit. -/
def CTimeHelper.multiplier (c : CTimeHelper) : Units → ℚ
  | .THU_MINS => 1
  | .THU_HOURS => MINS2HOURS
  | .THU_DAYS => c.m_dHours2Days
  | .THU_WEEKS => c.m_dDaysToWeeks
  | .THU_MONTHS => WEEKS2MONTHS
  | .THU_YEARS => MONTHS2YEARS

theorem multiplier_eq (u : Units) : c.lengthOf u / c.lengthOf (leftOverUnits u) = c.multiplier u := by
  have hpos := lengthOf_pos c (leftOverUnits u)
  rw [div_eq_iff hpos.ne', mul_comm]
  cases u with
  | THU_MINS => exact (mul_one 1).symm
  | THU_HOURS => exact (one_mul MINS2HOURS).symm
  | THU_DAYS | THU_WEEKS | THU_MONTHS | THU_YEARS => rfl

theorem lengthOf_eq (u : Units) : c.lengthOf u = c.multiplier u * c.lengthOf (leftOverUnits u) := by
  rw [← multiplier_eq, div_mul_cancel₀ _ (lengthOf_pos c _).ne']

theorem multiplier_bounds (u : Units) : 0 < c.multiplier u ∧ c.multiplier u ≤ 60 := by
  have hhours := c.hours
  have hdays := c.days
  cases u <;> simp only [CTimeHelper.multiplier, MINS2HOURS, WEEKS2MONTHS, MONTHS2YEARS] <;> constructor <;> linarith

/-! ## What is printed -/

theorem leading_eq (dMins : ℚ) : c.leading dMins =
    if c.lengthOf .THU_YEARS ≤ dMins then some .THU_YEARS
    else if c.lengthOf .THU_MONTHS ≤ dMins then some .THU_MONTHS
    else if c.lengthOf .THU_WEEKS ≤ dMins then some .THU_WEEKS
    else if c.lengthOf .THU_DAYS ≤ dMins then some .THU_DAYS
    else if c.lengthOf .THU_HOURS ≤ dMins then some .THU_HOURS
    else if c.lengthOf .THU_MINS ≤ dMins then some .THU_MINS
    else none := by
  split_ifs <;> simp [CTimeHelper.leading, *]

/-- What is printed for a leading unit. -/
def CTimeHelper.partsOf (c : CTimeHelper) (dMins : ℚ) (u : Units) : Option (List (ℤ × Units)) :=
  if u = .THU_MINS then formatParts dMins .THU_MINS .THU_MINS 0 false
  else formatParts (dMins / c.lengthOf u) u (leftOverUnits u) (c.multiplier u) true

theorem formatTimeHMS_eq (dTime : ℚ) (nUnitsFrom : Units) :
    formatTimeHMS c dTime nUnitsFrom true =
      ((c.leading (|dTime| * c.lengthOf nUnitsFrom)).elim (some []) (c.partsOf (|dTime| * c.lengthOf nUnitsFrom))).map
        fun parts => ⟨decide (dTime < 0), parts⟩ := by
  have habs : (if decide (dTime < 0) = true then -dTime else dTime) = |dTime| := by
    by_cases hneg : dTime < 0
    · rw [decide_eq_true hneg, if_pos rfl, abs_of_neg hneg]
    · rw [decide_eq_false hneg, if_neg Bool.false_ne_true, abs_of_nonneg (not_lt.1 hneg)]
  unfold formatTimeHMS
  dsimp only
  rw [habs, getTime_minutes]
  generalize |dTime| * c.lengthOf nUnitsFrom = m
  congr 1
  -- the chain of quotients is one quotient by the length of the unit
  have hyears : m / MINS2HOURS / c.m_dHours2Days / c.m_dDaysToWeeks / WEEKS2MONTHS / MONTHS2YEARS =
      m / c.lengthOf .THU_YEARS := by simp only [CTimeHelper.lengthOf, div_div]
  have hmonths : m / MINS2HOURS / c.m_dHours2Days / c.m_dDaysToWeeks / WEEKS2MONTHS = m / c.lengthOf .THU_MONTHS := by
    simp only [CTimeHelper.lengthOf, div_div]
  have hweeks : m / MINS2HOURS / c.m_dHours2Days / c.m_dDaysToWeeks = m / c.lengthOf .THU_WEEKS := by
    simp only [CTimeHelper.lengthOf, div_div]
  have hdays : m / MINS2HOURS / c.m_dHours2Days = m / c.lengthOf .THU_DAYS := by
    simp only [CTimeHelper.lengthOf, div_div]
  have hhours : m / MINS2HOURS = m / c.lengthOf .THU_HOURS := rfl
  have hmins : (1 ≤ m) = (c.lengthOf .THU_MINS ≤ m) := rfl
  rw [hyears, hmonths, hweeks, hdays, hhours]
  simp only [one_le_div (lengthOf_pos c _), hmins]
  rw [leading_eq]
  split_ifs <;> rfl

variable {c}

/-- The remainder of the time in left-over units, with the fudge. -/
theorem leftOver_eq (dMins : ℚ) (u : Units) :
    (dMins - ⌊dMins / c.lengthOf u⌋ * c.lengthOf u) / c.lengthOf (leftOverUnits u) + FUDGE =
      (dMins / c.lengthOf u - ⌊dMins / c.lengthOf u⌋) * c.multiplier u + FUDGE := by
  have hpos := (lengthOf_pos c u).ne'
  have hpos' := (lengthOf_pos c (leftOverUnits u)).ne'
  rw [← multiplier_eq]
  field_simp

/-- A truncated number of the leading unit and a truncated left-over, in minutes, for a time of `t` leading units. -/
theorem total_close {t L l mult : ℚ} {k : ℤ} (hl : 0 < l) (hL : L = mult * l)
    (hk : k = ⌊(t - ⌊t⌋) * mult + FUDGE⌋) : |⌊t⌋ * L + k * l - t * L| < l := by
  have hfudge : FUDGE < 1 ∧ 0 < FUDGE := by norm_num [FUDGE]
  have hle := Int.floor_le ((t - ⌊t⌋) * mult + FUDGE)
  have hlt := Int.lt_floor_add_one ((t - ⌊t⌋) * mult + FUDGE)
  rw [← hk] at hle hlt
  have hdiff : ⌊t⌋ * L + k * l - t * L = (k - (t - ⌊t⌋) * mult) * l := by
    rw [hL]
    ring
  have hnear : |(k : ℚ) - (t - ⌊t⌋) * mult| < 1 := by
    rw [abs_lt]
    constructor <;> linarith
  rw [hdiff, abs_mul, abs_of_pos hl]
  exact mul_lt_of_lt_one_left hl hnear

/-- One number and what is left over: always close, and right as long as the fudge does not fill the unit. -/
theorem partsOf_right {dMins : ℚ} {u : Units} (hu : u ≠ .THU_MINS) (hfill : c.lengthOf u ≤ dMins)
    (hlt : dMins / c.lengthOf u < 2147483648) :
    ∃ parts, c.partsOf dMins u = some parts ∧ |c.total parts - dMins| < c.lengthOf (finest parts) ∧
      ((∀ n u k v, parts = [(n, u), (k, v)] → k < c.lengthOf u / c.lengthOf v) ↔
        (dMins - ⌊dMins / c.lengthOf u⌋ * c.lengthOf u) / c.lengthOf (leftOverUnits u) + FUDGE <
          ⌈c.lengthOf u / c.lengthOf (leftOverUnits u)⌉) := by
  have hpos := lengthOf_pos c u
  obtain ⟨hmult, hsixty⟩ := multiplier_bounds c u
  have hfudge : 0 < FUDGE ∧ FUDGE < 1 := by norm_num [FUDGE]
  have hminutes : dMins / c.lengthOf u * c.lengthOf u = dMins := div_mul_cancel₀ dMins hpos.ne'
  have ht : 0 ≤ dMins / c.lengthOf u := div_nonneg (hpos.le.trans hfill) hpos.le
  have hclose := total_close (lengthOf_pos c (leftOverUnits u)) (lengthOf_eq c u) (t := dMins / c.lengthOf u) rfl
  rw [leftOver_eq, multiplier_eq]
  unfold CTimeHelper.partsOf
  rw [if_neg hu]
  rw [hminutes] at hclose
  generalize dMins / c.lengthOf u = t at hclose ht hlt
  -- the left-over number and where it stands to its bound
  have hfrac : 0 ≤ t - ⌊t⌋ ∧ t - ⌊t⌋ < 1 := ⟨Int.fract_nonneg t, Int.fract_lt_one t⟩
  have hsmall : 0 ≤ (t - ⌊t⌋) * c.multiplier u + FUDGE ∧ (t - ⌊t⌋) * c.multiplier u + FUDGE < 2147483648 := by
    have hnonneg := mul_nonneg hfrac.1 hmult.le
    have hle := mul_le_of_le_one_left hmult.le hfrac.2.le
    constructor <;> linarith
  have hbound : (⌊(t - ⌊t⌋) * c.multiplier u + FUDGE⌋ : ℚ) < c.multiplier u ↔
      (t - ⌊t⌋) * c.multiplier u + FUDGE < ⌈c.multiplier u⌉ := by
    rw [← Int.lt_ceil, Int.floor_lt]
  generalize hx : (t - ⌊t⌋) * c.multiplier u + FUDGE = x at hsmall hbound hclose
  have hformat : formatParts t u (leftOverUnits u) (c.multiplier u) true =
      some (if ⌊x⌋ = 0 then [(⌊t⌋, u)] else [(⌊t⌋, u), (⌊x⌋, leftOverUnits u)]) := by
    unfold formatParts
    rw [if_pos rfl, toInt_of_lt ht hlt, Option.bind_some, hx, toInt_of_lt hsmall.1 hsmall.2, Option.map_some]
  refine ⟨_, hformat, ?_, ?_⟩
  · split
    · next hzero =>
      rw [hzero, Int.cast_zero, zero_mul] at hclose
      exact hclose
    · simp only [CTimeHelper.total, finest, add_zero]
      exact hclose
  · rw [← hbound]
    split
    · next hzero =>
      rw [hzero, Int.cast_zero]
      exact iff_of_true (fun n u k v h => by simp at h) hmult
    · constructor
      · intro hall
        rw [← multiplier_eq]
        exact hall _ _ _ _ rfl
      · intro hless n u' k v heq
        simp only [List.cons.injEq, Prod.mk.injEq, and_true] at heq
        obtain ⟨⟨-, rfl⟩, rfl, rfl⟩ := heq
        rw [multiplier_eq]
        exact hless

theorem partsOf_overflow {dMins : ℚ} {u : Units} (hu : u ≠ .THU_MINS) (hge : 2147483648 ≤ dMins / c.lengthOf u) :
    c.partsOf dMins u = none := by
  unfold CTimeHelper.partsOf formatParts
  rw [if_neg hu, if_pos rfl, toInt_of_ge hge, Option.bind_none]

theorem partsOf_minutes {dMins : ℚ} (h0 : 0 ≤ dMins) (hlt : dMins < 60) :
    ∃ n : ℤ, c.partsOf dMins .THU_MINS = some [(n, .THU_MINS)] ∧ |n - dMins| < 1 := by
  refine ⟨⌊dMins + 0.5⌋, ?_, ?_⟩
  · unfold CTimeHelper.partsOf formatParts
    rw [if_pos rfl, if_neg Bool.false_ne_true, toInt_of_lt (by linarith) (by linarith), Option.map_some]
  · have hle := Int.floor_le (dMins + 0.5)
    have hlt := Int.lt_floor_add_one (dMins + 0.5)
    rw [abs_lt]
    constructor <;> linarith

/-! ## The leading unit -/

theorem lengthOf_le_sixty (u : Units) : c.lengthOf u ≤ 60 * c.lengthOf (leftOverUnits u) := by
  rw [lengthOf_eq]
  exact mul_le_mul_of_nonneg_right (multiplier_bounds c u).2 (lengthOf_pos c _).le

/-- A unit that leads fills the time, and the next larger one does not: there are fewer than sixty of it. -/
theorem leading_some {dMins : ℚ} {u : Units} (h : c.leading dMins = some u) :
    c.lengthOf u ≤ dMins ∧ (u ≠ .THU_YEARS → dMins < c.lengthOf .THU_YEARS ∧ dMins < 60 * c.lengthOf u) := by
  have hsixty : ∀ u, ¬ c.lengthOf u ≤ dMins → dMins < 60 * c.lengthOf (leftOverUnits u) := fun u hnot =>
    (not_le.1 hnot).trans_le (lengthOf_le_sixty u)
  rw [leading_eq] at h
  split_ifs at h with hyears hmonths hweeks hdays hhours hmins <;> rw [Option.some.injEq] at h <;> subst h
  · exact ⟨hyears, fun hne => absurd rfl hne⟩
  · exact ⟨hmonths, fun _ => ⟨not_le.1 hyears, hsixty .THU_YEARS hyears⟩⟩
  · exact ⟨hweeks, fun _ => ⟨not_le.1 hyears, hsixty .THU_MONTHS hmonths⟩⟩
  · exact ⟨hdays, fun _ => ⟨not_le.1 hyears, hsixty .THU_WEEKS hweeks⟩⟩
  · exact ⟨hhours, fun _ => ⟨not_le.1 hyears, hsixty .THU_DAYS hdays⟩⟩
  · exact ⟨hmins, fun _ => ⟨not_le.1 hyears, hsixty .THU_HOURS hhours⟩⟩

theorem leading_none {dMins : ℚ} (h : c.leading dMins = none) : dMins < c.lengthOf .THU_YEARS ∧ dMins < 1 := by
  rw [leading_eq] at h
  split_ifs at h with hyears _ _ _ _ hmins
  exact ⟨not_le.1 hyears, not_le.1 hmins⟩

end Lengths

/-! ## The result -/

/-- What is printed is right when the numbers are. -/
theorem right_iff_parts {c : CTimeHelper} {dTime : ℚ} {nUnitsFrom : Units} (parts : List (ℤ × Units))
    (hparts : (c.leading (|dTime| * c.lengthOf nUnitsFrom)).elim (some []) (c.partsOf (|dTime| * c.lengthOf nUnitsFrom)) =
      some parts) :
    (∃ s, formatTimeHMS c dTime nUnitsFrom true = some s ∧ Right c dTime nUnitsFrom s) ↔
      |c.total parts - |dTime| * c.lengthOf nUnitsFrom| < c.lengthOf (finest parts) ∧
        ∀ n u k v, parts = [(n, u), (k, v)] → k < c.lengthOf u / c.lengthOf v := by
  rw [formatTimeHMS_eq, hparts]
  constructor
  · rintro ⟨s, hs, hright⟩
    rw [Option.map_some, Option.some.injEq] at hs
    subst hs
    exact ⟨hright.close, hright.smaller⟩
  · rintro ⟨hclose, hsmaller⟩
    exact ⟨_, rfl, decide_eq_true_iff, hsmaller, hclose⟩

theorem clear_some {c : CTimeHelper} {dMins : ℚ} {u : Units} (h : c.leading dMins = some u) :
    Clear c dMins ↔ dMins < 2147483648 * c.lengthOf .THU_YEARS ∧ (u ≠ .THU_MINS →
      (dMins - ⌊dMins / c.lengthOf u⌋ * c.lengthOf u) / c.lengthOf (leftOverUnits u) + FUDGE <
        ⌈c.lengthOf u / c.lengthOf (leftOverUnits u)⌉) := by
  unfold Clear
  rw [h]
  simp only [Option.some.injEq, forall_eq']

/-- What is printed is right exactly when the years fit and the fudge does not fill the leading unit. -/
theorem formatTimeHMS_right_iff (c : CTimeHelper) (dTime : ℚ) (nUnitsFrom : Units) :
    (∃ s, formatTimeHMS c dTime nUnitsFrom true = some s ∧ Right c dTime nUnitsFrom s) ↔
      Clear c (|dTime| * c.lengthOf nUnitsFrom) := by
  have hnonneg : 0 ≤ |dTime| * c.lengthOf nUnitsFrom := mul_nonneg (abs_nonneg dTime) (lengthOf_pos c nUnitsFrom).le
  have hyear := lengthOf_pos c .THU_YEARS
  -- below one year the number of years is no matter
  have hfew : |dTime| * c.lengthOf nUnitsFrom < c.lengthOf .THU_YEARS →
      |dTime| * c.lengthOf nUnitsFrom < 2147483648 * c.lengthOf .THU_YEARS := fun h => by linarith
  cases hlead : c.leading (|dTime| * c.lengthOf nUnitsFrom) with
  | none =>
    obtain ⟨hyears, hmins⟩ := leading_none hlead
    rw [right_iff_parts [] (by rw [hlead]; rfl)]
    refine iff_of_true ⟨?_, fun n u k v h => by simp at h⟩ ⟨hfew hyears, fun u hu => ?_⟩
    · show |0 - |dTime| * c.lengthOf nUnitsFrom| < 1
      rw [zero_sub, abs_neg, abs_of_nonneg hnonneg]
      exact hmins
    · rw [hlead] at hu
      exact absurd hu.symm (Option.some_ne_none u)
  | some u =>
    obtain ⟨hfill, hrest⟩ := leading_some hlead
    rw [clear_some hlead]
    by_cases hmins : u = .THU_MINS
    · subst hmins
      obtain ⟨hyears, hsixty⟩ := hrest (by decide)
      obtain ⟨n, hn, hclose⟩ := partsOf_minutes (c := c) hnonneg (by simpa [CTimeHelper.lengthOf] using hsixty)
      rw [right_iff_parts _ (by rw [hlead, Option.elim_some, hn])]
      refine iff_of_true ⟨?_, fun n u k v h => by simp at h⟩ ⟨hfew hyears, fun hne => absurd rfl hne⟩
      simpa [CTimeHelper.total, finest, leftOverUnits, CTimeHelper.lengthOf] using hclose
    · by_cases hlt : |dTime| * c.lengthOf nUnitsFrom / c.lengthOf u < 2147483648
      · have hyears : |dTime| * c.lengthOf nUnitsFrom < 2147483648 * c.lengthOf .THU_YEARS := by
          by_cases hu : u = .THU_YEARS
          · rw [hu] at hlt
            exact (div_lt_iff₀ hyear).1 hlt
          · exact hfew (hrest hu).1
        obtain ⟨parts, hparts, hclose, hiff⟩ := partsOf_right hmins hfill hlt
        rw [right_iff_parts _ (by rw [hlead, Option.elim_some, hparts]), hiff]
        exact ⟨fun h => ⟨hyears, fun _ => h.2⟩, fun h => ⟨hclose, h.2 hmins⟩⟩
      · -- only years can be so many
        have hu : u = .THU_YEARS := by
          by_contra hne
          apply hlt
          rw [div_lt_iff₀ (lengthOf_pos c u)]
          linarith [(hrest hne).2, lengthOf_pos c u]
        subst hu
        rw [formatTimeHMS_eq, hlead, Option.elim_some, partsOf_overflow hmins (not_lt.1 hlt)]
        refine iff_of_false ?_ fun hclear => hlt ((div_lt_iff₀ hyear).2 hclear.1)
        rintro ⟨s, hs, -⟩
        exact absurd hs.symm (Option.some_ne_none s)

theorem standard_hours : (0 : ℚ) < 8 ∧ (8 : ℚ) ≤ 24 := by norm_num

theorem standard_days : (0 : ℚ) < 5 ∧ (5 : ℚ) ≤ 7 := by norm_num

/-- Eight hours a day and five days a week. -/
def standard : CTimeHelper := ⟨8, 5, standard_hours, standard_days⟩

/-- Just below two hours, 60 minutes are shown beside one hour. -/
theorem sixty_minutes_shown :
    ¬ ∀ (c : CTimeHelper) (dTime : ℚ) (nUnitsFrom : Units),
      ∃ s, formatTimeHMS c dTime nUnitsFrom true = some s ∧ Right c dTime nUnitsFrom s := by
  intro hall
  have hright := hall standard 1.99999999 .THU_HOURS
  have hmins : |(1.99999999 : ℚ)| * standard.lengthOf .THU_HOURS = 119.9999994 := by
    norm_num [CTimeHelper.lengthOf, MINS2HOURS]
  have hlead : standard.leading 119.9999994 = some .THU_HOURS := by
    rw [leading_eq]
    norm_num [CTimeHelper.lengthOf, standard, MINS2HOURS, WEEKS2MONTHS, MONTHS2YEARS]
  obtain ⟨parts, hparts, -, hsmaller⟩ := partsOf_right (c := standard) (u := .THU_HOURS) (by decide)
    (leading_some hlead).1 (by norm_num [CTimeHelper.lengthOf, MINS2HOURS])
  rw [right_iff_parts _ (by rw [hmins, hlead, Option.elim_some, hparts])] at hright
  have hclear := hsmaller.1 hright.2
  norm_num [CTimeHelper.lengthOf, leftOverUnits, MINS2HOURS, FUDGE] at hclear

end StarLib.TimeHelper
