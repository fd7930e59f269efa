import WinCompat.Lib.Calendar

/-!
# FILETIME and SYSTEMTIME

`win32-kernel32/src/extras2.rs`: `civil_from_days`, `days_from_civil`, `split_unix_secs`,
`day_of_week`, `file_time_to_system_time` and `system_time_to_file_time`.

The arithmetic is in `i64`, and `none` is a value that leaves it. A date is computed from the day in
its era of 400 years, whose years begin in March (`doe`, `yoe`, `doy` and `mp` are the source's
words); that this is the calendar of `Lib.Calendar` is what is to be shown.
-/

namespace WinCompat.Time

open Lib.Calendar

/-- A value of type `i64`. -/
def i64 (x : Int) : Option Int := if -2 ^ 63 ≤ x ∧ x < 2 ^ 63 then some x else none

/-- `as u32` -/
def asU32 (x : Int) : Nat := (x % 2 ^ 32).toNat

def filetimeTicksPerSec : Int := 10000000

def epochOffsetSecs : Int := 11644473600

/-! ## Days and dates -/

/-- The second half of `civil_from_days`, from the era and the day in it. -/
def civilOfEra (era doe : Int) : Int × Nat × Nat :=
  let yoe := (doe - doe.tdiv 1460 + doe.tdiv 36524 - doe.tdiv 146096).tdiv 365
  let y := yoe + era * 400
  let doy := doe - (365 * yoe + yoe.tdiv 4 - yoe.tdiv 100)
  let mp := (5 * doy + 2).tdiv 153
  let d := doy - (153 * mp + 2).tdiv 5 + 1
  let m := if mp < 10 then mp + 3 else mp - 9
  let y := if m ≤ 2 then y + 1 else y
  (y, asU32 m, asU32 d)

/-- `civil_from_days` -/
def civilFromDays (z : Int) : Option (Int × Nat × Nat) := do
  let z ← i64 (z + 719468)
  let down ← i64 (if 0 ≤ z then z else z - 146096)
  let era := down.tdiv 146097
  let start ← i64 (era * 146097)
  return civilOfEra era (z - start)

/-- The first `y` of `days_from_civil`: January and February belong to the year before. -/
def marchYear (y : Int) (m : Nat) : Int := if m ≤ 2 then y - 1 else y

/-- The month from March on. -/
def marchMonth (m : Nat) : Nat := if 2 < m then m - 3 else m + 9

/-- `days_from_civil` -/
def daysFromCivil (y : Int) (m d : Nat) : Option Int := do
  let y ← i64 (marchYear y m)
  let down ← i64 (if 0 ≤ y then y else y - 399)
  let era := down.tdiv 400
  let start ← i64 (era * 400)
  let yoe := y - start
  let doy := (153 * (marchMonth m : Int) + 2).tdiv 5 + d - 1
  let doe := yoe * 365 + yoe.tdiv 4 - yoe.tdiv 100 + doy
  let days ← i64 (era * 146097)
  let sum ← i64 (days + doe)
  i64 (sum - 719468)

/-- `split_unix_secs` -/
def splitUnixSecs (unixSecs : Int) : Int × Int := (unixSecs / 86400, unixSecs % 86400)

/-- `day_of_week` -/
def dayOfWeek (days : Int) : BitVec 16 := BitVec.ofInt 16 ((days + 4) % 7)

/-! ## The conversions -/

structure SystemTime where
  year : BitVec 16
  month : BitVec 16
  dayOfWeek : BitVec 16
  day : BitVec 16
  hour : BitVec 16
  minute : BitVec 16
  second : BitVec 16
  milliseconds : BitVec 16
  deriving DecidableEq

/-- The eight fields as they are written, from a date, its day, the second of the day and the ticks
    of the second. -/
def systemTimeOf (y : Int) (m d : Nat) (days rem subTicks : Int) : SystemTime where
  year := BitVec.ofInt 16 y
  month := BitVec.ofNat 16 m
  dayOfWeek := dayOfWeek days
  day := BitVec.ofNat 16 d
  hour := BitVec.ofInt 16 (rem.tdiv 3600)
  minute := BitVec.ofInt 16 ((rem.tmod 3600).tdiv 60)
  second := BitVec.ofInt 16 (rem.tmod 60)
  milliseconds := BitVec.ofInt 16 (subTicks.tdiv 10000)

/-- `file_time_to_system_time`: the answer and what is written. `st` says whether there is a place
    to write to. -/
def fileTimeToSystemTime (ft : Option (BitVec 64)) (st : Bool) :
    Option (BitVec 32 × Option SystemTime) :=
  match ft, st with
  | some ft, true => do
    let ticks := ft.toInt
    let secsSince1601 := ticks.tdiv filetimeTicksPerSec
    let subTicks := ticks.tmod filetimeTicksPerSec
    let unixSecs := secsSince1601 - epochOffsetSecs
    let (days, rem) := splitUnixSecs unixSecs
    let (y, m, d) ← civilFromDays days
    return (1, some (systemTimeOf y m d days rem subTicks))
  | _, _ => some (0, none)

/-- `system_time_to_file_time` -/
def systemTimeToFileTime (st : Option SystemTime) (ft : Bool) :
    Option (BitVec 32 × Option (BitVec 64)) :=
  match st, ft with
  | some st, true => do
    let days ← daysFromCivil st.year.toNat st.month.toNat st.day.toNat
    let secsSince1601 ← i64 (days * 86400 + (st.hour.toNat : Int) * 3600 +
      (st.minute.toNat : Int) * 60 + st.second.toNat + epochOffsetSecs)
    let whole ← i64 (secsSince1601 * filetimeTicksPerSec)
    let ticks ← i64 (whole + (st.milliseconds.toNat : Int) * 10000)
    return (1, some (BitVec.ofInt 64 ticks))
  | _, _ => some (0, none)

/-! ## Rounding down -/

theorem tdiv_down {n : Int} (hn : 0 < n) (z : Int) :
    (if 0 ≤ z then z else z - (n - 1)).tdiv n = z / n := by
  split
  · next hz => exact Int.tdiv_eq_ediv_of_nonneg hz
  · next hz =>
    have hpos : 0 ≤ n - 1 - z := by omega
    have hneg : z - (n - 1) = -(n - 1 - z) := by omega
    have hmod := Int.emod_nonneg z hn.ne'
    have hlt := Int.emod_lt_of_pos z hn
    have hsplit : n - 1 - z = n - 1 - z % n + n * -(z / n) := by
      have := Int.mul_ediv_add_emod z n
      rw [Int.mul_neg]
      omega
    rw [hneg, Int.neg_tdiv, Int.tdiv_eq_ediv_of_nonneg hpos, hsplit,
      Int.add_mul_ediv_left _ _ hn.ne', Int.ediv_eq_zero_of_lt (by omega) (by omega)]
    omega

/-! ## The year that begins in March -/

/-- The days before the March of the year `y`, counted from the March of the year 0. -/
def marchStart (y : Int) : Int := 365 * y + y / 4 - y / 100 + y / 400

theorem february_eq (y : Int) :
    february y = 28 ∧ ¬ IsLeap y ∨ february y = 29 ∧ IsLeap y := by
  unfold february
  by_cases hleap : IsLeap y
  · rw [if_pos hleap]
    exact .inr ⟨rfl, hleap⟩
  · rw [if_neg hleap]
    exact .inl ⟨rfl, hleap⟩

variable {d : Date}

theorem ordinal_march (h : d.Valid) :
    d.ordinal + 306 = marchStart (marchYear d.year d.month) +
      ((153 * (marchMonth d.month : Int) + 2) / 5 + d.day - 1) := by
  obtain ⟨y, m, day⟩ := d
  obtain ⟨hpos, hmonth, hday, hle⟩ := h
  dsimp only at hpos hmonth ⊢
  clear hle hday
  have hfebruary := february_eq y
  unfold IsLeap at hfebruary
  simp only [Date.ordinal, Date.yearStart, marchStart]
  interval_cases m <;>
    simp only [Date.monthEnd, daysInMonth, marchYear, marchMonth, Nat.reduceLeDiff, if_true,
      if_false, Nat.reduceSub, Nat.reduceAdd, Nat.reduceLT] <;>
    omega

theorem month_of_doy (h : d.Valid) :
    (5 * ((153 * (marchMonth d.month : Int) + 2) / 5 + d.day - 1) + 2) / 153 =
      marchMonth d.month := by
  obtain ⟨y, m, day⟩ := d
  obtain ⟨hpos, hmonth, hday, hle⟩ := h
  dsimp only at hpos hmonth hday hle ⊢
  have hfebruary := february_eq y
  interval_cases m <;>
    simp only [daysInMonth, marchMonth, Nat.reduceSub, Nat.reduceAdd, Nat.reduceLT, if_true,
      if_false] at hle ⊢ <;>
    omega

theorem doy_bounds (h : d.Valid) :
    0 ≤ (153 * (marchMonth d.month : Int) + 2) / 5 + d.day - 1 ∧
      ((153 * (marchMonth d.month : Int) + 2) / 5 + d.day - 1 ≤ 364 ∨
        (153 * (marchMonth d.month : Int) + 2) / 5 + d.day - 1 = 365 ∧
          IsLeap (marchYear d.year d.month + 1)) := by
  obtain ⟨y, m, day⟩ := d
  obtain ⟨hpos, hmonth, hday, hle⟩ := h
  dsimp only at hpos hmonth hday hle ⊢
  have hfebruary := february_eq y
  unfold IsLeap at hfebruary ⊢
  interval_cases m <;>
    simp only [daysInMonth, marchMonth, marchYear, Nat.reduceSub, Nat.reduceAdd, Nat.reduceLT,
      Nat.reduceLeDiff, if_true, if_false, Int.sub_add_cancel] at hle ⊢ <;>
    omega

theorem ediv_small {x n : Int} (hn : 0 < n) (hx : 0 ≤ x) (hlt : x < 2 * n) :
    x / n = 0 ∧ x < n ∨ x / n = 1 ∧ n ≤ x := by
  by_cases h : x < n
  · exact .inl ⟨Int.ediv_eq_zero_of_lt hx h, h⟩
  · refine .inr ⟨?_, Int.not_lt.mp h⟩
    exact (Int.ediv_eq_iff_of_pos hn).mpr ⟨by omega, by omega⟩

theorem yoe_of_doe {c q r doy doe : Int} (hc : 0 ≤ c ∧ c ≤ 3) (hq : 0 ≤ q ∧ q ≤ 24)
    (hr : 0 ≤ r ∧ r ≤ 3) (hdoy : 0 ≤ doy)
    (hle : doy ≤ 364 ∨ doy = 365 ∧ r = 3 ∧ (q = 24 → c = 3))
    (hdoe : doe = 36524 * c + 1461 * q + 365 * r + doy) :
    (doe - doe / 1460 + doe / 36524 - doe / 146096) / 365 = 100 * c + 4 * q + r := by
  have h1460 : doe / 1460 = 25 * c + q + (24 * c + q + 365 * r + doy) / 1460 := by
    clear hle
    omega
  have h36524 : doe / 36524 = c + (1461 * q + 365 * r + doy) / 36524 := by
    clear hle
    omega
  have hA := ediv_small (show (0 : Int) < 1460 by decide)
    (show 0 ≤ 24 * c + q + 365 * r + doy by omega) (by omega)
  have hB := ediv_small (show (0 : Int) < 36524 by decide)
    (show 0 ≤ 1461 * q + 365 * r + doy by omega) (by omega)
  have hC := ediv_small (show (0 : Int) < 146096 by decide) (show 0 ≤ doe by omega) (by omega)
  generalize (24 * c + q + 365 * r + doy) / 1460 = A at h1460 hA
  generalize (1461 * q + 365 * r + doy) / 36524 = B at h36524 hB
  generalize doe / 146096 = C at hC ⊢
  rw [h1460, h36524, hdoe]
  -- 365 times the year, and a day of the year that no leap day is counted in
  have hw : 0 ≤ doy - A + B - C ∧ doy - A + B - C < 365 := by omega
  omega

/-! ## Days and dates, one from the other -/

theorem asU32_natCast {n : Nat} (h : n < 2 ^ 32) : asU32 n = n := by
  unfold asU32
  omega

theorem era_of_march {y doy z : Int} (hdoy : 0 ≤ doy ∧ (doy ≤ 364 ∨ doy = 365 ∧ IsLeap (y + 1)))
    (hz : z = marchStart y + doy) :
    z / 146097 = y / 400 ∧
      z - y / 400 * 146097 = 365 * (y % 400) + y % 400 / 4 - y % 400 / 100 + doy := by
  unfold IsLeap marchStart at *
  have hstart : z - y / 400 * 146097 = 365 * (y % 400) + y % 400 / 4 - y % 400 / 100 + doy := by
    clear hdoy
    omega
  have hbound : 365 * (y % 400) + y % 400 / 4 - y % 400 / 100 + doy < 146097 := by
    clear hz hstart
    omega
  have hnonneg : 0 ≤ 365 * (y % 400) + y % 400 / 4 - y % 400 / 100 + doy := by
    clear hz hstart hbound
    omega
  exact ⟨(Int.ediv_eq_iff_of_pos (by decide)).mpr ⟨by omega, by omega⟩, hstart⟩

theorem civilOfEra_eq (h : d.Valid) {yoe doe : Int} (hyoe : yoe = marchYear d.year d.month % 400)
    (hdoe : doe = 365 * yoe + yoe / 4 - yoe / 100 +
      ((153 * (marchMonth d.month : Int) + 2) / 5 + d.day - 1)) :
    civilOfEra (marchYear d.year d.month / 400) doe = (d.year, d.month, d.day) := by
  have hdoy := doy_bounds h
  have hmonth := month_of_doy h
  have hday : d.day ≤ 31 := h.day_le.trans (daysInMonth_le _ _)
  have hpos := h.month_pos
  have hle := h.month_le
  generalize hdoyeq : (153 * (marchMonth d.month : Int) + 2) / 5 + d.day - 1 = doy
    at hdoy hmonth hdoe
  have hyear : (doe - doe / 1460 + doe / 36524 - doe / 146096) / 365 = yoe := by
    rw [@yoe_of_doe (yoe / 100) (yoe % 100 / 4) (yoe % 4) doy doe (by omega) (by omega) (by omega)
      hdoy.1 (by unfold IsLeap at hdoy; omega) (by omega)]
    omega
  have hback : doe - (365 * yoe + yoe / 4 - yoe / 100) = doy := by omega
  have hnonneg : 0 ≤ yoe := by omega
  have hdoe_nonneg : 0 ≤ doe := by omega
  have hyearT : (doe - doe.tdiv 1460 + doe.tdiv 36524 - doe.tdiv 146096).tdiv 365 = yoe := by
    simp only [Int.tdiv_eq_ediv_of_nonneg hdoe_nonneg]
    rw [Int.tdiv_eq_ediv_of_nonneg (by omega), hyear]
  have hmonthT : (5 * doy + 2).tdiv 153 = marchMonth d.month := by
    rw [Int.tdiv_eq_ediv_of_nonneg (by omega), hmonth]
  have hdaysT : (153 * (marchMonth d.month : Int) + 2).tdiv 5 =
      (153 * (marchMonth d.month : Int) + 2) / 5 := Int.tdiv_eq_ediv_of_nonneg (by omega)
  have hday_eq : doy - (153 * (marchMonth d.month : Int) + 2) / 5 + 1 = d.day := by omega
  have hmonth_eq : (if (marchMonth d.month : Int) < 10 then (marchMonth d.month : Int) + 3
      else marchMonth d.month - 9) = d.month := by
    unfold marchMonth
    split <;> split <;> omega
  have hyear_eq : (if (d.month : Int) ≤ 2 then yoe + marchYear d.year d.month / 400 * 400 + 1
      else yoe + marchYear d.year d.month / 400 * 400) = d.year := by
    unfold marchYear at hyoe ⊢
    split <;> split at hyoe <;> omega
  unfold civilOfEra
  simp only [hyearT, Int.tdiv_eq_ediv_of_nonneg hnonneg, hback, hmonthT, hdaysT, hday_eq,
    hmonth_eq, hyear_eq]
  rw [asU32_natCast (by omega), asU32_natCast (by omega)]

theorem i64_eq_some {x y : Int} : i64 x = some y ↔ x = y ∧ -2 ^ 63 ≤ x ∧ x < 2 ^ 63 := by
  unfold i64
  by_cases h : -2 ^ 63 ≤ x ∧ x < 2 ^ 63
  · rw [if_pos h, Option.some.injEq]
    exact ⟨fun heq => ⟨heq, h⟩, And.left⟩
  · rw [if_neg h]
    exact ⟨fun heq => absurd heq (by simp), fun hall => absurd hall.2 h⟩

theorem i64_bind {α : Type} {x : Int} (h : -2 ^ 63 ≤ x ∧ x < 2 ^ 63) (f : Int → Option α) :
    (i64 x).bind f = f x := by
  rw [i64, if_pos h, Option.bind_some]

theorem civilFromDays_eq (h : d.Valid) {z : Int} (hz : d.ordinal = z + 719162) (hlow : -2 ^ 63 ≤ z)
    (hhigh : z + 719468 < 2 ^ 63) : civilFromDays z = some (d.year, d.month, d.day) := by
  have hmarch := ordinal_march h
  obtain ⟨hera, hstart⟩ := era_of_march (doy_bounds h) (show z + 719468 = _ by omega)
  have hmod := Int.emod_lt_of_pos (z + 719468) (show (0 : Int) < 146097 by decide)
  have hdown := tdiv_down (show (0 : Int) < 146097 by decide) (z + 719468)
  have hdoe := civilOfEra_eq h rfl hstart
  simp only [Int.reduceSub] at hdown
  simp only [civilFromDays, Option.bind_eq_bind]
  rw [i64_bind (by omega), i64_bind (by split <;> omega), hdown, hera, i64_bind (by omega), hdoe]
  rfl

theorem era_sum (h : d.Valid) :
    marchYear d.year d.month / 400 * 146097 +
      ((marchYear d.year d.month - marchYear d.year d.month / 400 * 400) * 365 +
        (marchYear d.year d.month - marchYear d.year d.month / 400 * 400).tdiv 4 -
        (marchYear d.year d.month - marchYear d.year d.month / 400 * 400).tdiv 100 +
        ((153 * (marchMonth d.month : Int) + 2).tdiv 5 + d.day - 1)) = d.ordinal + 306 := by
  have hmarch := ordinal_march h
  have hyoe : 0 ≤ marchYear d.year d.month - marchYear d.year d.month / 400 * 400 := by omega
  rw [Int.tdiv_eq_ediv_of_nonneg hyoe, Int.tdiv_eq_ediv_of_nonneg hyoe,
    Int.tdiv_eq_ediv_of_nonneg (by omega), hmarch]
  unfold marchStart
  omega

theorem daysFromCivil_some (h : d.Valid) {z : Int}
    (hz : daysFromCivil d.year d.month d.day = some z) :
    d.ordinal = z + 719162 ∧ -2 ^ 63 ≤ z ∧ z + 719468 < 2 ^ 63 := by
  have hsum := era_sum h
  unfold daysFromCivil at hz
  simp only [Option.bind_eq_bind, Option.bind_eq_some_iff, i64_eq_some] at hz
  obtain ⟨y, ⟨rfl, -⟩, down, ⟨rfl, -⟩, start, ⟨rfl, -⟩, days, ⟨rfl, -⟩, sum,
    ⟨rfl, hlow, hhigh⟩, rfl, hz⟩ := hz
  have hdown := tdiv_down (show (0 : Int) < 400 by decide) (marchYear d.year d.month)
  simp only [Int.reduceSub] at hdown
  rw [hdown] at hz hlow hhigh ⊢
  omega

theorem daysFromCivil_eq (h : d.Valid) {z : Int} (hz : d.ordinal = z + 719162) (hlow : -2 ^ 63 ≤ z)
    (hhigh : z + 719468 < 2 ^ 63) : daysFromCivil d.year d.month d.day = some z := by
  have hsum := era_sum h
  have hmarch := ordinal_march h
  obtain ⟨hera, hstart⟩ := era_of_march (doy_bounds h) (show z + 719468 = _ by omega)
  have hmod := Int.emod_lt_of_pos (z + 719468) (show (0 : Int) < 146097 by decide)
  have hyear := Int.emod_lt_of_pos (marchYear d.year d.month) (show (0 : Int) < 400 by decide)
  have hdown := tdiv_down (show (0 : Int) < 400 by decide) (marchYear d.year d.month)
  simp only [Int.reduceSub] at hdown
  have hvalue : d.ordinal + 306 - 719468 = z := by omega
  simp only [daysFromCivil, Option.bind_eq_bind]
  rw [i64_bind (by omega), i64_bind (by split <;> omega), hdown, i64_bind (by omega),
    i64_bind (by omega), hsum, i64_bind (by omega), hvalue]
  exact if_pos ⟨hlow, by omega⟩

/-! ## The time of day -/

namespace SystemTime

def date (s : SystemTime) : Date := ⟨s.year.toNat, s.month.toNat, s.day.toNat⟩

/-- A date and time of day, with the day of the week that it is. -/
structure Valid (s : SystemTime) : Prop where
  date : s.date.Valid
  dayOfWeek : (s.dayOfWeek.toNat : Int) = weekday s.date
  hour : s.hour.toNat < 24
  minute : s.minute.toNat < 60
  second : s.second.toNat < 60
  milliseconds : s.milliseconds.toNat < 1000

/-- Milliseconds since the first of January of the year 1. -/
def millis (s : SystemTime) : Int :=
  (((s.date.ordinal * 24 + s.hour.toNat) * 60 + s.minute.toNat) * 60 + s.second.toNat) * 1000 +
    s.milliseconds.toNat

/-- The fields that are compared, the greater unit first. -/
def fields (s : SystemTime) : List Nat :=
  [s.year.toNat, s.month.toNat, s.day.toNat, s.hour.toNat, s.minute.toNat, s.second.toNat,
    s.milliseconds.toNat]

/-- Later in milliseconds is later field by field. -/
theorem fields_lt {a b : SystemTime} (ha : a.Valid) (hb : b.Valid) (h : a.millis < b.millis) :
    a.fields < b.fields := by
  obtain ⟨hdate, -, hhour, hminute, hsecond, hmillis⟩ := ha
  obtain ⟨hdate', -, hhour', hminute', hsecond', hmillis'⟩ := hb
  unfold millis at h
  simp only [fields, List.cons_lt_cons_iff, List.not_lt_nil, and_false, or_false]
  obtain hlt | heq | hgt := Int.lt_trichotomy a.date.ordinal b.date.ordinal
  · have hbefore := (Date.ordinal_lt_iff hdate hdate').mp hlt
    simp only [Date.Before, date] at hbefore
    omega
  · have hsame := Date.ordinal_inj hdate hdate' heq
    simp only [date, Date.mk.injEq] at hsame
    omega
  · omega

end SystemTime

theorem toNat_ofInt {x : Int} (h : 0 ≤ x ∧ x < 2 ^ 16) : ((BitVec.ofInt 16 x).toNat : Int) = x := by
  rw [BitVec.toNat_ofInt]
  omega

theorem toNat_ofNat {n : Nat} (h : n < 2 ^ 16) : (BitVec.ofNat 16 n).toNat = n := by
  rw [BitVec.toNat_ofNat]
  omega

theorem year_bounds (h : d.Valid) (hlow : 584388 ≤ d.ordinal) (hhigh : d.ordinal ≤ 11259587) :
    1601 ≤ d.year ∧ d.year ≤ 30828 := by
  obtain ⟨hge, hlt⟩ := Date.ordinal_bounds h
  have hstart := Date.monthEnd_mono d.year h.month_le
  have hsucc := Date.yearStart_succ d.year
  constructor
  · by_contra hbefore
    have hmono := Date.yearStart_mono (show d.year + 1 ≤ 1601 by omega)
    have h1601 : Date.yearStart 1601 = 584388 := by decide
    omega
  · by_contra hafter
    have hmono := Date.yearStart_mono (show 30829 ≤ d.year by omega)
    have h30829 : Date.yearStart 30829 = 11259696 := by decide
    omega

theorem systemTimeOf_date (h : d.Valid) (hyear : 0 ≤ d.year ∧ d.year < 2 ^ 16)
    (days rem subTicks : Int) : (systemTimeOf d.year d.month d.day days rem subTicks).date = d := by
  have hmonth := h.month_le
  have hday := h.day_le.trans (daysInMonth_le _ _)
  simp only [SystemTime.date, systemTimeOf, toNat_ofInt hyear,
    toNat_ofNat (show d.month < 2 ^ 16 by omega), toNat_ofNat (show d.day < 2 ^ 16 by omega)]

theorem systemTimeOf_spec (h : d.Valid) (hyear : 0 ≤ d.year ∧ d.year < 2 ^ 16)
    {days rem subTicks : Int} (hdays : d.ordinal = days + 719162) (hrem : 0 ≤ rem ∧ rem < 86400)
    (hsub : 0 ≤ subTicks ∧ subTicks < 10000000) :
    (systemTimeOf d.year d.month d.day days rem subTicks).Valid ∧
      (systemTimeOf d.year d.month d.day days rem subTicks).millis =
        (d.ordinal * 86400 + rem) * 1000 + subTicks / 10000 := by
  have hdate := systemTimeOf_date h hyear days rem subTicks
  have hhour : ((BitVec.ofInt 16 (rem.tdiv 3600)).toNat : Int) = rem / 3600 := by
    rw [Int.tdiv_eq_ediv_of_nonneg hrem.1]
    exact toNat_ofInt (by omega)
  have hminute : ((BitVec.ofInt 16 ((rem.tmod 3600).tdiv 60)).toNat : Int) = rem % 3600 / 60 := by
    rw [Int.tmod_eq_emod_of_nonneg hrem.1, Int.tdiv_eq_ediv_of_nonneg (by omega)]
    exact toNat_ofInt (by omega)
  have hsecond : ((BitVec.ofInt 16 (rem.tmod 60)).toNat : Int) = rem % 60 := by
    rw [Int.tmod_eq_emod_of_nonneg hrem.1]
    exact toNat_ofInt (by omega)
  have hmillis : ((BitVec.ofInt 16 (subTicks.tdiv 10000)).toNat : Int) = subTicks / 10000 := by
    rw [Int.tdiv_eq_ediv_of_nonneg hsub.1]
    exact toNat_ofInt (by omega)
  have hweekday : ((dayOfWeek days).toNat : Int) = weekday d := by
    rw [dayOfWeek, toNat_ofInt (by omega), weekday, hdays]
    omega
  constructor
  · refine ⟨by rw [hdate]; exact h, by rw [hdate]; exact hweekday, ?_, ?_, ?_, ?_⟩
    all_goals
      simp only [systemTimeOf]
      omega
  · rw [SystemTime.millis, hdate]
    simp only [systemTimeOf, hhour, hminute, hsecond, hmillis]
    omega

theorem fileTimeToSystemTime_spec {t : BitVec 64} (h : t.toNat < 2 ^ 63) :
    ∃ st, fileTimeToSystemTime (some t) true = some (1, some st) ∧ st.Valid ∧
      st.millis = (⟨1601, 1, 1⟩ : Date).ordinal * 86400000 + (t.toNat / 10000 : Nat) := by
  have hticks : t.toInt = t.toNat := BitVec.toInt_eq_toNat_of_lt (by omega)
  have hbase : (⟨1601, 1, 1⟩ : Date).ordinal = 584388 := by decide
  have hsecs : t.toInt.tdiv filetimeTicksPerSec = (t.toNat / 10000000 : Nat) := by
    rw [hticks, Int.tdiv_eq_ediv_of_nonneg (by omega)]
    rfl
  have hsub : t.toInt.tmod filetimeTicksPerSec = (t.toNat % 10000000 : Nat) := by
    rw [hticks, Int.tmod_eq_emod_of_nonneg (by omega)]
    rfl
  obtain ⟨d, hd, hordinal⟩ := Date.exists_ordinal
    (((t.toNat / 10000000 : Nat) - epochOffsetSecs) / 86400 + 719162)
  unfold epochOffsetSecs at hordinal
  obtain ⟨hlow, hhigh⟩ := year_bounds hd (by omega) (by omega)
  have hcivil := civilFromDays_eq hd hordinal (by omega) (by omega)
  have hrem : 0 ≤ ((t.toNat / 10000000 : Nat) - 11644473600 : Int) % 86400 ∧
      ((t.toNat / 10000000 : Nat) - 11644473600 : Int) % 86400 < 86400 := by omega
  obtain ⟨hvalid, hmillis⟩ := @systemTimeOf_spec d hd (by omega) _ _ (t.toNat % 10000000 : Nat)
    hordinal hrem (by omega)
  refine ⟨_, ?_, hvalid, ?_⟩
  · simp only [fileTimeToSystemTime, splitUnixSecs, hsecs, hsub, epochOffsetSecs, hcivil,
      Option.bind_eq_bind, Option.bind_some, Option.pure_def]
  · rw [hmillis, hbase, hordinal]
    omega

/-! ## And back -/

theorem systemTimeToFileTime_spec {st : SystemTime} (h : st.Valid) {n : Nat} (hn : n < 2 ^ 63)
    (hmillis : st.millis = (⟨1601, 1, 1⟩ : Date).ordinal * 86400000 + (n / 10000 : Nat)) :
    systemTimeToFileTime (some st) true = some (1, some (BitVec.ofNat 64 (n / 10000 * 10000))) := by
  obtain ⟨hdate, -, hhour, hminute, hsecond, hms⟩ := h
  have hbase : (⟨1601, 1, 1⟩ : Date).ordinal = 584388 := by decide
  rw [hbase, SystemTime.millis] at hmillis
  have hdays := daysFromCivil_eq hdate (Int.sub_add_cancel st.date.ordinal 719162).symm (by omega)
    (by omega)
  have hdays : daysFromCivil st.year.toNat st.month.toNat st.day.toNat =
      some (st.date.ordinal - 719162) := hdays
  simp only [systemTimeToFileTime, hdays, epochOffsetSecs, filetimeTicksPerSec,
    Option.bind_eq_bind, Option.bind_some]
  have hticks : (((st.date.ordinal - 719162) * 86400 + (st.hour.toNat : Int) * 3600 +
      (st.minute.toNat : Int) * 60 + st.second.toNat + 11644473600) * 10000000 +
      (st.milliseconds.toNat : Int) * 10000) = (n / 10000 * 10000 : Nat) := by omega
  rw [i64_bind (by omega), i64_bind (by omega), i64_bind (by omega), hticks, BitVec.ofInt_natCast]
  rfl

theorem fileTimeToSystemTime_some (t : BitVec 64) :
    ∃ st, fileTimeToSystemTime (some t) true = some (1, some st) := by
  have hsecs := Int.natAbs_tdiv_le_natAbs t.toInt filetimeTicksPerSec
  have hlow := BitVec.le_toInt t
  have hhigh := BitVec.toInt_lt (x := t)
  generalize hunix : t.toInt.tdiv filetimeTicksPerSec - epochOffsetSecs = unixSecs
  unfold epochOffsetSecs at hunix
  obtain ⟨d, hd, hordinal⟩ := Date.exists_ordinal (unixSecs / 86400 + 719162)
  have hcivil := civilFromDays_eq hd hordinal (by omega) (by omega)
  refine ⟨systemTimeOf d.year d.month d.day (unixSecs / 86400) (unixSecs % 86400)
    (t.toInt.tmod filetimeTicksPerSec), ?_⟩
  simp only [fileTimeToSystemTime, splitUnixSecs, epochOffsetSecs, hunix, hcivil,
    Option.bind_eq_bind, Option.bind_some, Option.pure_def]

theorem systemTimeToFileTime_some {st : SystemTime} {r : BitVec 32 × Option (BitVec 64)}
    (h : systemTimeToFileTime (some st) true = some r) : ∃ t, r = (1, some t) := by
  simp only [systemTimeToFileTime, Option.bind_eq_bind, Option.bind_eq_some_iff,
    Option.pure_def, Option.some.injEq] at h
  obtain ⟨_, -, _, -, _, -, ticks, -, rfl⟩ := h
  exact ⟨_, rfl⟩

/-- The two conversions, and the calendar behind them. The code's arithmetic on eras is compared
    with the ordinal of a date, which goes up by one with each day. -/
theorem file_time_conversion :
    -- a FILETIME below 2^63 stands for the time that many ticks after 1601, and comes back
    (∀ t : BitVec 64, t.toNat < 2 ^ 63 →
      ∃ st, fileTimeToSystemTime (some t) true = some (1, some st) ∧ st.Valid ∧
        st.millis = (⟨1601, 1, 1⟩ : Date).ordinal * 86400000 + (t.toNat / 10000 : Nat) ∧
        systemTimeToFileTime (some st) true =
          some (1, some (BitVec.ofNat 64 (t.toNat / 10000 * 10000)))) ∧
    -- a later millisecond is a later time
    (∀ (t t' : BitVec 64) (st st' : SystemTime), t.toNat < 2 ^ 63 → t'.toNat < 2 ^ 63 →
      fileTimeToSystemTime (some t) true = some (1, some st) →
      fileTimeToSystemTime (some t') true = some (1, some st') →
      t.toNat / 10000 < t'.toNat / 10000 → st.fields < st'.fields) ∧
    -- days and dates
    (∀ z : Int, -2 ^ 63 ≤ z → z + 719468 < 2 ^ 63 →
      ∃ d : Date, d.Valid ∧ d.ordinal = (⟨1970, 1, 1⟩ : Date).ordinal + z ∧
        civilFromDays z = some (d.year, d.month, d.day) ∧
        daysFromCivil d.year d.month d.day = some z) ∧
    (∀ (d : Date) (z : Int), d.Valid → daysFromCivil d.year d.month d.day = some z →
      civilFromDays z = some (d.year, d.month, d.day)) ∧
    -- what is answered
    (∀ t : BitVec 64, ∃ st, fileTimeToSystemTime (some t) true = some (1, some st)) ∧
    (∀ (st : SystemTime) (r : BitVec 32 × Option (BitVec 64)),
      systemTimeToFileTime (some st) true = some r → ∃ t, r = (1, some t)) ∧
    (∀ (ft : Option (BitVec 64)) (st : Bool), ft = none ∨ st = false →
      fileTimeToSystemTime ft st = some (0, none)) ∧
    (∀ (st : Option SystemTime) (ft : Bool), st = none ∨ ft = false →
      systemTimeToFileTime st ft = some (0, none)) := by
  refine ⟨fun t ht => ?_, fun t t' st st' ht ht' hst hst' hlt => ?_, fun z hlow hhigh => ?_,
    fun d z hd hz => ?_, fileTimeToSystemTime_some, fun st r => systemTimeToFileTime_some,
    fun ft st h => ?_, fun st ft h => ?_⟩
  · obtain ⟨st, hst, hvalid, hmillis⟩ := fileTimeToSystemTime_spec ht
    exact ⟨st, hst, hvalid, hmillis, systemTimeToFileTime_spec hvalid ht hmillis⟩
  · obtain ⟨_, hspec, hvalid, hmillis⟩ := fileTimeToSystemTime_spec ht
    obtain ⟨_, hspec', hvalid', hmillis'⟩ := fileTimeToSystemTime_spec ht'
    obtain rfl : _ = st := by simpa [hspec] using hst
    obtain rfl : _ = st' := by simpa [hspec'] using hst'
    exact SystemTime.fields_lt hvalid hvalid' (by omega)
  · obtain ⟨d, hd, hordinal⟩ := Date.exists_ordinal (z + 719162)
    have hepoch : (⟨1970, 1, 1⟩ : Date).ordinal = 719162 := by decide
    exact ⟨d, hd, by omega, civilFromDays_eq hd hordinal hlow hhigh,
      daysFromCivil_eq hd hordinal hlow hhigh⟩
  · obtain ⟨hordinal, hlow, hhigh⟩ := daysFromCivil_some hd hz
    exact civilFromDays_eq hd hordinal hlow hhigh
  · obtain rfl | rfl := h
    · rfl
    · cases ft <;> rfl
  · obtain rfl | rfl := h
    · rfl
    · cases st <;> rfl

/-- The first of January 1970. -/
theorem file_time_conversion_epoch :
    ∃ st, fileTimeToSystemTime (some 116444736000000000) true = some (1, some st) ∧ st.Valid ∧
      st.millis = (⟨1970, 1, 1⟩ : Date).ordinal * 86400000 ∧
      systemTimeToFileTime (some st) true = some (1, some 116444736000000000) := by
  obtain ⟨st, hst, hvalid, hmillis, hback⟩ :=
    file_time_conversion.1 116444736000000000 (by decide)
  exact ⟨st, hst, hvalid, hmillis.trans (by decide), hback⟩

/-- The 45th day of a 13th month, and the FILETIME 2^63. -/
theorem out_of_range_accepted :
    (¬ (⟨2021, 13, 0, 45, 25, 61, 61, 1000⟩ : SystemTime).Valid) ∧
      systemTimeToFileTime (some ⟨2021, 13, 0, 45, 25, 61, 61, 1000⟩) true =
        some (1, some 132893641220000000) ∧
      fileTimeToSystemTime (some 0x8000000000000000) true =
        some (1, some ⟨0x9415, 4, 4, 19, 21, 11, 55, 0xFE23⟩) := by
  refine ⟨fun h => absurd h.hour (by decide), ?_, ?_⟩
  · decide
  · decide

end WinCompat.Time
