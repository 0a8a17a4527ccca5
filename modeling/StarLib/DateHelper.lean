import Mathlib.Tactic.Common
import Mathlib.Data.Nat.Init
import Mathlib.Tactic.IntervalCases

/-! # Dates a number of months away

`CDateHelper::OffsetDate`. The fields of `SYSTEMTIME` are unsigned: a month below zero becomes one above 65000,
and the code takes it for one after December.
-/

namespace StarLib.DateHelper
set_option autoImplicit false
set_option maxHeartbeats 250000
set_option maxRecDepth 120000

abbrev WORD := BitVec 16

structure SYSTEMTIME where
  wYear : WORD
  wMonth : WORD
  wDay : WORD
  wHour : WORD
  wMinute : WORD
  wSecond : WORD

inductive DH_UNITS
  | DHU_DAYS
  | DHU_WEEKS
  | DHU_MONTHS
  | DHU_YEARS

def isLeapYear (nYear : ℕ) : Bool := nYear % 4 == 0 && (nYear % 100 != 0 || nYear % 400 == 0)

/-- `GetDaysInMonth`; its callers have years and months of `WORD`s. -/
def getDaysInMonth (nMonth nYear : ℕ) : ℕ :=
  if nMonth < 1 ∨ 12 < nMonth then 0
  else match nMonth with
    | 1 => 31
    | 2 => if isLeapYear nYear then 29 else 28
    | 3 => 31
    | 4 => 30
    | 5 => 31
    | 6 => 30
    | 7 => 31
    | 8 => 31
    | 9 => 30
    | 10 => 31
    | 11 => 30
    | 12 => 31
    | _ => 0

/-! ## Dates -/

/-- The length of a month of the Gregorian calendar. -/
def monthLength (year month : ℕ) : ℕ :=
  if month = 2 then if 4 ∣ year ∧ (100 ∣ year → 400 ∣ year) then 29 else 28
  else if month ∈ [4, 6, 9, 11] then 30 else 31

structure Valid (year month day hour minute second : ℕ) : Prop where
  inYears : 100 ≤ year ∧ year ≤ 9999
  inYear : 1 ≤ month ∧ month ≤ 12
  inMonth : 1 ≤ day ∧ day ≤ monthLength year month
  inDay : hour < 24 ∧ minute < 60 ∧ second < 60

instance (year month day hour minute second : ℕ) : Decidable (Valid year month day hour minute second) :=
  decidable_of_iff ((100 ≤ year ∧ year ≤ 9999) ∧ (1 ≤ month ∧ month ≤ 12) ∧ (1 ≤ day ∧ day ≤ monthLength year month) ∧
    hour < 24 ∧ minute < 60 ∧ second < 60) ⟨fun h => ⟨h.1, h.2.1, h.2.2.1, h.2.2.2⟩, fun h => ⟨h.inYears, h.inYear, h.inMonth, h.inDay⟩⟩

/-- The dates of `COleDateTime`, to the second. -/
structure Date where
  year : ℕ
  month : ℕ
  day : ℕ
  hour : ℕ
  minute : ℕ
  second : ℕ
  valid : Valid year month day hour minute second

/-- A `COleDateTime`; `none` is the status `invalid`, with which `m_dt` is 0. -/
abbrev COleDateTime := Option Date

/-- `m_dt > 0`: after 30 December 1899, 0:00. -/
def Date.positive (d : Date) : Bool :=
  decide (1899 < d.year) || (d.year == 1899 && d.month == 12 &&
    (decide (30 < d.day) || (d.day == 30 && decide (0 < d.hour + d.minute + d.second))))

def Date.getAsSystemTime (d : Date) : SYSTEMTIME :=
  ⟨BitVec.ofNat 16 d.year, BitVec.ofNat 16 d.month, BitVec.ofNat 16 d.day, BitVec.ofNat 16 d.hour, BitVec.ofNat 16 d.minute,
    BitVec.ofNat 16 d.second⟩

/-- `COleDateTime(st)`, which is valid when the fields are. -/
def ofSystemTime (st : SYSTEMTIME) : COleDateTime :=
  if h : Valid st.wYear.toNat st.wMonth.toNat st.wDay.toNat st.wHour.toNat st.wMinute.toNat st.wSecond.toNat then
    some ⟨st.wYear.toNat, st.wMonth.toNat, st.wDay.toNat, st.wHour.toNat, st.wMinute.toNat, st.wSecond.toNat, h⟩
  else none

/-! ## `OffsetDate` -/

/-- The part of `DHU_MONTHS` that handles overflow. -/
def carried (wYear wMonth : WORD) : WORD × WORD :=
  if 12 < wMonth.toNat then (wYear + 1, wMonth - 12) else if wMonth.toNat < 1 then (wYear - 1, wMonth + 12) else (wYear, wMonth)

/-- The fields that `DHU_MONTHS` makes a date of. -/
def offsetMonths (st : SYSTEMTIME) (nAmount : ℤ) : SYSTEMTIME :=
  let c := carried (BitVec.ofInt 16 (st.wYear.toNat + nAmount.tdiv 12)) (BitVec.ofInt 16 (st.wMonth.toNat + nAmount.tmod 12))
  let days : WORD := BitVec.ofNat 16 (getDaysInMonth c.2.toNat c.1.toNat)
  { st with wYear := c.1, wMonth := c.2, wDay := if st.wDay.toNat < days.toNat then st.wDay else days }

/-- `OffsetDate`; `plus` is `COleDateTime::operator+=` with a number of days. -/
def offsetDate (plus : COleDateTime → ℤ → COleDateTime) (date : COleDateTime) (nAmount : ℤ) (nUnits : DH_UNITS) : COleDateTime :=
  match date with
  | none => none
  | some d =>
    if d.positive then
      match nUnits with
      | .DHU_DAYS => plus date nAmount
      | .DHU_WEEKS => plus date (nAmount * 7)
      | .DHU_MONTHS => ofSystemTime (offsetMonths d.getAsSystemTime nAmount)
      | .DHU_YEARS =>
        let st := d.getAsSystemTime
        ofSystemTime { st with wYear := BitVec.ofInt 16 (st.wYear.toNat + nAmount) }
    else date

/-! ## Months of the calendar -/

theorem isLeapYear_iff (year : ℕ) : isLeapYear year = true ↔ 4 ∣ year ∧ (100 ∣ year → 400 ∣ year) := by
  unfold isLeapYear
  rw [Bool.and_eq_true, Bool.or_eq_true, beq_iff_eq, bne_iff_ne, beq_iff_eq]
  omega

theorem getDaysInMonth_eq {year month : ℕ} (h : 1 ≤ month ∧ month ≤ 12) : getDaysInMonth month year = monthLength year month := by
  have hleap := isLeapYear_iff year
  unfold getDaysInMonth monthLength
  rw [if_neg (by omega)]
  obtain ⟨hlow, hhigh⟩ := h
  interval_cases month <;> first | rfl | exact (if_congr hleap rfl rfl).trans (if_pos rfl).symm

theorem monthLength_bounds (year month : ℕ) : 28 ≤ monthLength year month ∧ monthLength year month ≤ 31 := by
  unfold monthLength
  split
  · split <;> omega
  · split <;> omega

/-- The months from year 0 to a date `n` months after `d`. -/
def monthsTo (d : Date) (n : ℤ) : ℤ := 12 * d.year + (d.month - 1) + n

/-- The year stays in the range of the type. -/
def Supported (d : Date) (n : ℤ) : Prop := 12 * 100 ≤ monthsTo d n ∧ monthsTo d n < 12 * 10000

/-- The date `n` months after `d`, with the day clipped. -/
def monthsLater (d : Date) (n : ℤ) (h : Supported d n) : Date where
  year := (monthsTo d n / 12).toNat
  month := (monthsTo d n % 12).toNat + 1
  day := min d.day (monthLength (monthsTo d n / 12).toNat ((monthsTo d n % 12).toNat + 1))
  hour := d.hour
  minute := d.minute
  second := d.second
  valid := by
    have hlength := monthLength_bounds (monthsTo d n / 12).toNat ((monthsTo d n % 12).toNat + 1)
    have hday := d.valid.inMonth.1
    unfold Supported at h
    exact ⟨by omega, by omega, by omega, d.valid.inDay⟩

theorem monthsLater_month (d : Date) (n : ℤ) (h : Supported d n) :
    (12 * (monthsLater d n h).year + (monthsLater d n h).month : ℤ) = 12 * d.year + d.month + n := by
  show (12 * ((monthsTo d n / 12).toNat : ℤ) + ((monthsTo d n % 12).toNat + 1 : ℕ) : ℤ) = _
  unfold Supported at h
  have hto : monthsTo d n = 12 * d.year + (d.month - 1) + n := rfl
  omega

/-! ## What the code does -/

theorem ofSystemTime_eq {st : SYSTEMTIME} {d : Date} (hyear : st.wYear.toNat = d.year) (hmonth : st.wMonth.toNat = d.month)
    (hday : st.wDay.toNat = d.day) (hhour : st.wHour.toNat = d.hour) (hminute : st.wMinute.toNat = d.minute)
    (hsecond : st.wSecond.toNat = d.second) : ofSystemTime st = some d := by
  obtain ⟨year, month, day, hour, minute, second, hvalid⟩ := d
  unfold ofSystemTime
  subst hyear hmonth hday hhour hminute hsecond
  exact dif_pos hvalid

/-- The fields of the date are below `2^16`. -/
theorem getAsSystemTime_toNat (d : Date) : d.getAsSystemTime.wYear.toNat = d.year ∧ d.getAsSystemTime.wMonth.toNat = d.month ∧
    d.getAsSystemTime.wDay.toNat = d.day ∧ d.getAsSystemTime.wHour.toNat = d.hour ∧ d.getAsSystemTime.wMinute.toNat = d.minute ∧
      d.getAsSystemTime.wSecond.toNat = d.second := by
  have hlength := monthLength_bounds d.year d.month
  obtain ⟨hyears, hyear, hmonth, hday⟩ := d.valid
  unfold Date.getAsSystemTime
  simp only [BitVec.toNat_ofNat]
  omega

theorem toNat_ofInt {x : ℤ} {m : ℕ} (h : x = m) (hm : m < 65536) : (BitVec.ofInt 16 x).toNat = m := by
  rw [h, BitVec.ofInt_natCast, BitVec.toNat_ofNat, Nat.mod_eq_of_lt hm]

/-- The truncated quotient and remainder of the number of months. -/
theorem months_split (n : ℤ) : 12 * n.tdiv 12 + n.tmod 12 = n ∧ -12 < n.tmod 12 ∧ n.tmod 12 < 12 := by
  have hsplit := Int.mul_tdiv_add_tmod n 12
  have hupper := Int.tmod_lt_of_pos n (show (0 : ℤ) < 12 by decide)
  have hlower := Int.tmod_lt_of_pos (-n) (show (0 : ℤ) < 12 by decide)
  rw [Int.neg_tmod] at hlower
  omega

theorem carried_toNat {wYear wMonth : WORD} (hyear : 1 ≤ wYear.toNat ∧ wYear.toNat < 65535) (hmonth : wMonth.toNat < 24) :
    12 * (carried wYear wMonth).1.toNat + (carried wYear wMonth).2.toNat = 12 * wYear.toNat + wMonth.toNat ∧
      1 ≤ (carried wYear wMonth).2.toNat ∧ (carried wYear wMonth).2.toNat ≤ 12 := by
  unfold carried
  split
  · simp only
    bv_omega
  · split
    · simp only
      bv_omega
    · show 12 * wYear.toNat + wMonth.toNat = 12 * wYear.toNat + wMonth.toNat ∧ 1 ≤ wMonth.toNat ∧ wMonth.toNat ≤ 12
      omega

/-- A month of 0 or more gets its carry or borrow. -/
theorem offsetMonths_later {d : Date} {n : ℤ} (h : Supported d n) (hmonth : 0 ≤ (d.month : ℤ) + n.tmod 12) :
    ofSystemTime (offsetMonths d.getAsSystemTime n) = some (monthsLater d n h) := by
  obtain ⟨hyear', hmonth', hday', hhour', hminute', hsecond'⟩ := getAsSystemTime_toNat d
  have hlater := monthsLater_month d n h
  have hvalid := (monthsLater d n h).valid
  obtain ⟨hsplit, hlower, hupper⟩ := months_split n
  have hd := d.valid.inYear
  have hyears := hvalid.inYears
  have hyear := hvalid.inYear
  obtain ⟨Y, hY⟩ : ∃ Y : ℕ, (d.year : ℤ) + n.tdiv 12 = Y := ⟨(d.year + n.tdiv 12).toNat, by omega⟩
  obtain ⟨M, hM⟩ : ∃ M : ℕ, (d.month : ℤ) + n.tmod 12 = M := ⟨(d.month + n.tmod 12).toNat, by omega⟩
  have hwYear : (BitVec.ofInt 16 (d.getAsSystemTime.wYear.toNat + n.tdiv 12)).toNat = Y :=
    toNat_ofInt (by rw [hyear', hY]) (by omega)
  have hwMonth : (BitVec.ofInt 16 (d.getAsSystemTime.wMonth.toNat + n.tmod 12)).toNat = M :=
    toNat_ofInt (by rw [hmonth', hM]) (by omega)
  have hcarried := carried_toNat (by rw [hwYear]; omega : 1 ≤ (BitVec.ofInt 16 (d.getAsSystemTime.wYear.toNat + n.tdiv 12)).toNat ∧ _)
    (by rw [hwMonth]; omega : (BitVec.ofInt 16 (d.getAsSystemTime.wMonth.toNat + n.tmod 12)).toNat < 24)
  rw [hwYear, hwMonth] at hcarried
  have hfields : (offsetMonths d.getAsSystemTime n).wYear.toNat = (monthsLater d n h).year ∧
      (offsetMonths d.getAsSystemTime n).wMonth.toNat = (monthsLater d n h).month := by
    unfold offsetMonths
    simp only
    omega
  refine ofSystemTime_eq hfields.1 hfields.2 ?_ hhour' hminute' hsecond'
  have hlength := monthLength_bounds (monthsLater d n h).year (monthsLater d n h).month
  have hdays : (BitVec.ofNat 16 (getDaysInMonth (offsetMonths d.getAsSystemTime n).wMonth.toNat
      (offsetMonths d.getAsSystemTime n).wYear.toNat)).toNat = monthLength (monthsLater d n h).year (monthsLater d n h).month := by
    rw [hfields.1, hfields.2, getDaysInMonth_eq hyear, BitVec.toNat_ofNat, Nat.mod_eq_of_lt (by omega)]
  show (if d.getAsSystemTime.wDay.toNat < (BitVec.ofNat 16 (getDaysInMonth (offsetMonths d.getAsSystemTime n).wMonth.toNat
      (offsetMonths d.getAsSystemTime n).wYear.toNat)).toNat then d.getAsSystemTime.wDay else
    BitVec.ofNat 16 (getDaysInMonth (offsetMonths d.getAsSystemTime n).wMonth.toNat
      (offsetMonths d.getAsSystemTime n).wYear.toNat)).toNat = min d.day (monthLength (monthsLater d n h).year (monthsLater d n h).month)
  rw [hdays, hday']
  split
  · rw [hday']
    omega
  · rw [hdays]
    omega

/-- A month below 0 becomes one above 65000, which is taken for one after December. -/
theorem offsetMonths_wrapped {d : Date} {n : ℤ} (hmonth : (d.month : ℤ) + n.tmod 12 < 0) :
    ofSystemTime (offsetMonths d.getAsSystemTime n) = none := by
  obtain ⟨_, hmonth', _⟩ := getAsSystemTime_toNat d
  obtain ⟨_, hlower, _⟩ := months_split n
  have hd := d.valid.inYear
  have hwMonth : (BitVec.ofInt 16 (d.getAsSystemTime.wMonth.toNat + n.tmod 12)).toNat = (65536 + (d.month + n.tmod 12)).toNat := by
    rw [hmonth', BitVec.toNat_ofInt]
    omega
  have hfield : 12 < (offsetMonths d.getAsSystemTime n).wMonth.toNat := by
    unfold offsetMonths carried
    simp only
    rw [if_pos (by omega)]
    bv_omega
  exact dif_neg fun hvalid => absurd hvalid.inYear.2 (by omega)

theorem offsetDate_months (plus : COleDateTime → ℤ → COleDateTime) {d : Date} (hd : d.positive = true) {n : ℤ} (h : Supported d n) :
    offsetDate plus (some d) n .DHU_MONTHS = if 0 ≤ (d.month : ℤ) + n.tmod 12 then some (monthsLater d n h) else none := by
  have hmonths : offsetDate plus (some d) n .DHU_MONTHS = ofSystemTime (offsetMonths d.getAsSystemTime n) := if_pos hd
  rw [hmonths]
  split
  · next hmonth => exact offsetMonths_later h hmonth
  · next hmonth => exact offsetMonths_wrapped (by omega)

theorem offsetDate_notPositive (plus : COleDateTime → ℤ → COleDateTime) {d : Date} (hd : ¬ d.positive = true) (n : ℤ) (u : DH_UNITS) :
    offsetDate plus (some d) n u = some d :=
  if_neg hd

/-! ## Exact months -/

/-- `n` months give the date in the month `n` months away, and `-n` months from there give the month of `d`. -/
def MonthsExact (plus : COleDateTime → ℤ → COleDateTime) (d : Date) (n : ℤ) : Prop :=
  (∃ c, offsetDate plus (some d) n .DHU_MONTHS = some c ∧ (12 * c.year + c.month : ℤ) = 12 * d.year + d.month + n ∧
    c.day = min d.day (monthLength c.year c.month)) ∧
  ∃ c, offsetDate plus (offsetDate plus (some d) n .DHU_MONTHS) (-n) .DHU_MONTHS = some c ∧ c.year = d.year ∧ c.month = d.month

theorem Supported.back {d : Date} {n : ℤ} (h : Supported d n) : Supported (monthsLater d n h) (-n) := by
  have hlater := monthsLater_month d n h
  have hyears := d.valid.inYears
  have hyear := d.valid.inYear
  unfold Supported monthsTo
  omega

theorem monthsLater_zero (d : Date) (h : Supported d 0) : (monthsLater d 0 h).positive = d.positive := by
  have hlater := monthsLater_month d 0 h
  have hyear := d.valid.inYear
  have hyear' := (monthsLater d 0 h).valid.inYear
  have hsame : (monthsLater d 0 h).year = d.year ∧ (monthsLater d 0 h).month = d.month := by omega
  have hday : (monthsLater d 0 h).day = d.day := by
    show min d.day (monthLength (monthsLater d 0 h).year (monthsLater d 0 h).month) = d.day
    rw [hsame.1, hsame.2]
    exact Nat.min_eq_left d.valid.inMonth.2
  unfold Date.positive
  rw [hsame.1, hsame.2, hday]
  rfl

theorem monthsExact_iff (plus : COleDateTime → ℤ → COleDateTime) {d : Date} (hd : d.positive = true) {n : ℤ} (h : Supported d n) :
    MonthsExact plus d n ↔ 0 ≤ (d.month : ℤ) + n.tmod 12 ∧ (monthsLater d n h).positive = true ∧
      0 ≤ ((monthsLater d n h).month : ℤ) - n.tmod 12 := by
  have hlater := monthsLater_month d n h
  have hback := monthsLater_month (monthsLater d n h) (-n) h.back
  have hyear := d.valid.inYear
  have hyear' := (monthsLater d n h).valid.inYear
  have hyear'' := (monthsLater (monthsLater d n h) (-n) h.back).valid.inYear
  have hfirst := offsetDate_months plus hd h
  by_cases hmonth : 0 ≤ (d.month : ℤ) + n.tmod 12
  · rw [if_pos hmonth] at hfirst
    unfold MonthsExact
    rw [hfirst]
    have hexact : ∃ c, some (monthsLater d n h) = some c ∧ (12 * c.year + c.month : ℤ) = 12 * d.year + d.month + n ∧
        c.day = min d.day (monthLength c.year c.month) := ⟨_, rfl, hlater, rfl⟩
    by_cases hpositive : (monthsLater d n h).positive = true
    · have hsecond := offsetDate_months plus hpositive h.back
      rw [Int.neg_tmod, ← Int.sub_eq_add_neg] at hsecond
      rw [hsecond]
      split
      · next hmonth' =>
        refine iff_of_true ⟨hexact, _, rfl, ?_⟩ ⟨hmonth, hpositive, hmonth'⟩
        omega
      · next hmonth' =>
        refine iff_of_false (fun hboth => ?_) fun hall => hmonth' hall.2.2
        obtain ⟨c, hc, _⟩ := hboth.2
        exact Option.some_ne_none c hc.symm
    · rw [offsetDate_notPositive plus hpositive]
      refine iff_of_false (fun hboth => ?_) fun hall => hpositive hall.2.1
      obtain ⟨c, hc, hcyear, hcmonth⟩ := hboth.2
      rw [Option.some.injEq] at hc
      have hzero : n = 0 := by
        rw [hc] at hlater
        omega
      subst hzero
      rw [monthsLater_zero] at hpositive
      exact hpositive hd
  · rw [if_neg hmonth] at hfirst
    refine iff_of_false (fun hboth => ?_) fun hall => hmonth hall.1
    obtain ⟨c, hc, _⟩ := hboth.1
    rw [hfirst] at hc
    exact Option.some_ne_none c hc.symm

/-- 15 January 2010. -/
def january : Date := ⟨2010, 1, 15, 0, 0, 0, by decide⟩

theorem january_supported : Supported january 11 := by
  unfold Supported monthsTo
  decide

theorem monthsExact_sample : MonthsExact (fun date _ => date) january 11 ↔
    0 ≤ (1 : ℤ) + 11 ∧ (monthsLater january 11 january_supported).positive = true ∧
      0 ≤ ((monthsLater january 11 january_supported).month : ℤ) - 11 :=
  monthsExact_iff (fun date _ => date) (by decide) january_supported

theorem january_lost : ¬ MonthsExact (fun date _ => date) january (-3) := by
  rintro ⟨⟨c, hc, _⟩, _⟩
  have hnone : (offsetDate (fun date _ => date) (some january) (-3) .DHU_MONTHS).isNone = true := by decide
  rw [hc] at hnone
  exact Bool.noConfusion hnone

/-! ## Exact years -/

/-- `n` years give the date in the same month of the year `n` years away, with the day clipped. -/
def YearsExact (plus : COleDateTime → ℤ → COleDateTime) (d : Date) (n : ℤ) : Prop :=
  ∃ c, offsetDate plus (some d) n .DHU_YEARS = some c ∧ (c.year : ℤ) = d.year + n ∧ c.month = d.month ∧
    c.day = min d.day (monthLength c.year c.month)

/-- A change of the year changes the length of February only. -/
theorem day_fits_iff (d : Date) (year : ℕ) :
    d.day ≤ monthLength year d.month ↔ (d.month = 2 → d.day = 29 → isLeapYear year = true) := by
  have hday := d.valid.inMonth.2
  by_cases hfebruary : d.month = 2
  · have hlength : ∀ y, monthLength y 2 = if isLeapYear y = true then 29 else 28 := fun y =>
      (getDaysInMonth_eq ⟨by decide, by decide⟩).symm
    rw [hfebruary, hlength] at hday ⊢
    have hmost : d.day ≤ 29 := by
      split at hday <;> omega
    constructor
    · intro hfits _ hlast
      by_contra hleap
      rw [if_neg hleap] at hfits
      omega
    · intro hall
      split
      · exact hmost
      · next hleap =>
        have hlast : d.day ≠ 29 := fun h => hleap (hall rfl h)
        omega
  · have hsame : monthLength year d.month = monthLength d.year d.month := by
      unfold monthLength
      rw [if_neg hfebruary, if_neg hfebruary]
    rw [hsame]
    exact iff_of_true hday fun h => absurd h hfebruary

/-- The date that `DHU_YEARS` makes, where there is one. -/
theorem offsetDate_years (plus : COleDateTime → ℤ → COleDateTime) {d : Date} (hd : d.positive = true) {year : ℕ} {n : ℤ}
    (hyear : d.year + n = year) (hrange : 100 ≤ year ∧ year ≤ 9999) :
    offsetDate plus (some d) n .DHU_YEARS =
      if h : d.day ≤ monthLength year d.month then
        some ⟨year, d.month, d.day, d.hour, d.minute, d.second, hrange, d.valid.inYear, ⟨d.valid.inMonth.1, h⟩, d.valid.inDay⟩
      else none := by
  obtain ⟨hwYear, hwMonth, hwDay, hwHour, hwMinute, hwSecond⟩ := getAsSystemTime_toNat d
  have hto : (BitVec.ofInt 16 (d.getAsSystemTime.wYear.toNat + n)).toNat = year :=
    toNat_ofInt (by rw [hwYear, hyear]) (by omega)
  have hyears : offsetDate plus (some d) n .DHU_YEARS =
      ofSystemTime { d.getAsSystemTime with wYear := BitVec.ofInt 16 (d.getAsSystemTime.wYear.toNat + n) } := if_pos hd
  rw [hyears]
  split
  · exact ofSystemTime_eq hto hwMonth hwDay hwHour hwMinute hwSecond
  · next hday =>
    refine dif_neg fun hvalid => hday ?_
    have hfits := hvalid.inMonth.2
    dsimp only at hfits
    rw [hto, hwMonth, hwDay] at hfits
    exact hfits

/-- The day is clipped as it should be exactly when it need not be clipped. -/
theorem yearsExact_iff (plus : COleDateTime → ℤ → COleDateTime) {d : Date} (hd : d.positive = true) {n : ℤ}
    (hrange : 100 ≤ d.year + n ∧ d.year + n ≤ 9999) :
    YearsExact plus d n ↔ (d.month = 2 → d.day = 29 → isLeapYear (d.year + n).toNat = true) := by
  obtain ⟨year, hyear⟩ := Int.eq_ofNat_of_zero_le (show 0 ≤ (d.year : ℤ) + n by omega)
  have hoffset := offsetDate_years plus hd hyear (by omega)
  rw [hyear, Int.toNat_natCast, ← day_fits_iff]
  unfold YearsExact
  rw [hoffset]
  by_cases hday : d.day ≤ monthLength year d.month
  · rw [dif_pos hday]
    exact iff_of_true ⟨_, rfl, hyear.symm, rfl, (Nat.min_eq_left hday).symm⟩ hday
  · rw [dif_neg hday]
    refine iff_of_false ?_ hday
    rintro ⟨c, hc, -⟩
    exact Option.some_ne_none c hc.symm

/-- 29 February 2012. -/
def leapDay : Date := ⟨2012, 2, 29, 0, 0, 0, by decide⟩

theorem yearsExact_sample : YearsExact (fun date _ => date) leapDay 4 ↔
    ((2 : ℕ) = 2 → (29 : ℕ) = 29 → isLeapYear ((2012 : ℕ) + 4 : ℤ).toNat = true) :=
  yearsExact_iff (fun date _ => date) (d := leapDay) (n := 4) (by decide) (by decide)

theorem leapDay_lost :
    ¬ ∀ (plus : COleDateTime → ℤ → COleDateTime) (d : Date) (n : ℤ), d.positive = true →
      100 ≤ d.year + n ∧ d.year + n ≤ 9999 → YearsExact plus d n := by
  intro hall
  obtain ⟨c, hc, -⟩ := hall (fun date _ => date) leapDay 1 (by decide) (by decide)
  have hnone : (offsetDate (fun date _ => date) (some leapDay) 1 .DHU_YEARS).isNone = true := by decide
  rw [hc] at hnone
  exact Bool.noConfusion hnone

end StarLib.DateHelper
