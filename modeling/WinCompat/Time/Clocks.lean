import WinCompat.Time.FileTime

/-!
# Four clocks

`get_system_time` of `win32-kernel32/src/extras2.rs`, `get_system_time_precise_as_file_time` with
`windows_filetime_now` of `extras.rs`, and `get_system_time_as_file_time` and `get_local_time` of
`anticheat.rs`, at one instant of the system clock. As in `Time.FileTime`, `none` is a number that
leaves its type.

Three of the clocks agree through the calendar (`system_time_of_file_time`). The local one has years
of 365 days and months of 30, and no days of the week.
-/

namespace WinCompat.Time

open Lib.Calendar

/-- What `clock_gettime(CLOCK_REALTIME)` tells. -/
structure Instant where
  sec : Int
  nsec : Nat
  sec_range : -2 ^ 63 ≤ sec ∧ sec < 2 ^ 63
  nsec_lt : nsec < 1000000000

/-- A value of type `u64`. -/
def u64 (n : Nat) : Option Nat := if n < 2 ^ 64 then some n else none

/-- A value of type `u16`. -/
def u16 (n : Nat) : Option Nat := if n < 2 ^ 16 then some n else none

/-! ## The clocks -/

/-- `duration_since(UNIX_EPOCH)`, or nothing when that is still to come. -/
def Instant.sinceEpoch (i : Instant) : Nat × Nat :=
  if i.sec < 0 then (0, 0) else (i.sec.toNat, i.nsec)

/-- The fields that `get_local_time` fills in, from seconds and nanoseconds. -/
def localFields (secs nanos : Nat) : Option SystemTime := do
  let days := secs / 86400
  let remSecs := secs % 86400
  let year ← u16 (1970 + days / 365 % 2 ^ 16)
  let dayOfYear := days % 365
  return {
    year := BitVec.ofNat 16 year
    month := BitVec.ofNat 16 (min (dayOfYear / 30 + 1) 12)
    dayOfWeek := 0
    day := BitVec.ofNat 16 (dayOfYear % 30 + 1)
    hour := BitVec.ofNat 16 (remSecs / 3600)
    minute := BitVec.ofNat 16 (remSecs % 3600 / 60)
    second := BitVec.ofNat 16 (remSecs % 60)
    milliseconds := BitVec.ofNat 16 (nanos / 1000000) }

/-- `get_local_time`; `st` says whether there is a place to write to. -/
def getLocalTime (i : Instant) (st : Bool) : Option (Option SystemTime) :=
  if st then (localFields i.sinceEpoch.1 i.sinceEpoch.2).map some else some none

/-- `get_system_time` -/
def getSystemTime (i : Instant) (st : Bool) : Option (Option SystemTime) :=
  if st then do
    let (days, rem) := splitUnixSecs i.sec
    let (y, m, d) ← civilFromDays days
    return some { systemTimeOf y m d days rem 0 with
      milliseconds := BitVec.ofNat 16 (i.nsec / 1000000) }
  else some none

/-- `get_system_time_as_file_time` -/
def getSystemTimeAsFileTime (i : Instant) (ft : Bool) : Option (Option (BitVec 64)) :=
  if ft then do
    let (secs, nanos) := i.sinceEpoch
    let filetime ← u64 ((secs * 1000000000 + nanos) % 2 ^ 64 / 100 + 116444736000000000)
    return some (BitVec.ofNat 64 filetime)
  else some none

/-- `windows_filetime_now` -/
def windowsFiletimeNow (i : Instant) : Option (BitVec 64) := do
  let secs ← u64 ((BitVec.ofInt 64 i.sec).toNat + 11644473600)
  let ticks ← u64 (secs * 10000000)
  let sum ← u64 (ticks + i.nsec / 100)
  return BitVec.ofNat 64 sum

/-- `get_system_time_precise_as_file_time` -/
def getSystemTimePreciseAsFileTime (i : Instant) (ft : Bool) : Option (Option (BitVec 64)) :=
  if ft then (windowsFiletimeNow i).map some else some none

/-- The ticks since 1601. -/
def Instant.fileTime (i : Instant) : Int :=
  (i.sec + epochOffsetSecs) * filetimeTicksPerSec + (i.nsec / 100 : Nat)

variable {i : Instant}

theorem Instant.sinceEpoch_of_sec {n : Nat} (h : i.sec = n) : i.sinceEpoch = (n, i.nsec) := by
  rw [sinceEpoch, h, if_neg (by simp)]
  rfl

theorem u64_eq {n : Nat} (h : n < 2 ^ 64) : u64 n = some n := if_pos h

/-! ## Through the calendar -/

theorem systemTimeOf_millis (y : Int) (m d : Nat) (days rem : Int) (n : Nat) :
    { systemTimeOf y m d days rem 0 with milliseconds := BitVec.ofNat 16 (n / 1000000) } =
      systemTimeOf y m d days rem (n / 100 : Nat) := by
  have hmillis : ((n / 100 : Nat) : Int).tdiv 10000 = (n / 1000000 : Nat) := by
    rw [Int.tdiv_eq_ediv_of_nonneg (by omega)]
    omega
  simp only [systemTimeOf, hmillis, BitVec.ofInt_natCast]

/-- The day has a date, at any second there is. -/
theorem getSystemTime_eq (i : Instant) : ∃ d : Date, d.Valid ∧
    d.ordinal = i.sec / 86400 + 719162 ∧
    civilFromDays (i.sec / 86400) = some (d.year, d.month, d.day) ∧
    getSystemTime i true = some (some (systemTimeOf d.year d.month d.day (i.sec / 86400)
      (i.sec % 86400) (i.nsec / 100 : Nat))) := by
  obtain ⟨d, hd, hordinal⟩ := Date.exists_ordinal (i.sec / 86400 + 719162)
  have hrange := i.sec_range
  have hcivil := civilFromDays_eq hd hordinal (by omega) (by omega)
  refine ⟨d, hd, hordinal, hcivil, ?_⟩
  simp only [getSystemTime, if_true, splitUnixSecs, hcivil, Option.bind_eq_bind, Option.bind_some,
    Option.pure_def, systemTimeOf_millis]

theorem system_time_of_file_time (hlow : 0 ≤ i.fileTime) (hhigh : i.fileTime < 2 ^ 63) :
    ∃ st, getSystemTime i true = some (some st) ∧ st.Valid ∧
      st.date.ordinal = i.sec / 86400 + 719162 ∧
      fileTimeToSystemTime (some (BitVec.ofInt 64 i.fileTime)) true = some (1, some st) := by
  obtain ⟨d, hd, hordinal, hcivil, hst⟩ := getSystemTime_eq i
  have hnsec := i.nsec_lt
  have hticks : (BitVec.ofInt 64 i.fileTime).toInt = i.fileTime := by
    rw [BitVec.toInt_ofInt]
    exact Int.bmod_eq_of_le (by omega) (by omega)
  have hsecs : i.fileTime.tdiv filetimeTicksPerSec - epochOffsetSecs = i.sec := by
    rw [Int.tdiv_eq_ediv_of_nonneg hlow]
    unfold Instant.fileTime epochOffsetSecs filetimeTicksPerSec
    omega
  have hsub : i.fileTime.tmod filetimeTicksPerSec = (i.nsec / 100 : Nat) := by
    rw [Int.tmod_eq_emod_of_nonneg hlow]
    unfold Instant.fileTime epochOffsetSecs filetimeTicksPerSec
    omega
  unfold Instant.fileTime epochOffsetSecs filetimeTicksPerSec at hlow hhigh
  obtain ⟨hfirst, hlast⟩ := year_bounds hd (by omega) (by omega)
  have hyear : 0 ≤ d.year ∧ d.year < 2 ^ 16 := by omega
  have hspec := @systemTimeOf_spec d hd hyear (i.sec / 86400) (i.sec % 86400) (i.nsec / 100 : Nat)
    hordinal (by omega) (by omega)
  refine ⟨_, hst, hspec.1, ?_, ?_⟩
  · rw [systemTimeOf_date hd hyear, hordinal]
  · simp only [fileTimeToSystemTime, hticks, hsecs, hsub, splitUnixSecs, hcivil,
      Option.bind_eq_bind, Option.bind_some, Option.pure_def]

theorem u64_steps {α : Type} {a b c k : Nat} (f : Nat → α) (hc : 0 < c)
    (h : (a + b) * c + k < 2 ^ 64) :
    ((u64 (a + b)).bind fun secs => (u64 (secs * c)).bind fun ticks =>
      (u64 (ticks + k)).bind fun sum => some (f sum)) = some (f ((a + b) * c + k)) := by
  have hticks := Nat.lt_of_le_of_lt (Nat.le_add_right _ _) h
  have hsecs := Nat.lt_of_le_of_lt (Nat.le_mul_of_pos_right _ hc) hticks
  simp only [u64_eq hsecs, u64_eq hticks, u64_eq h, Option.bind_some]

theorem windowsFiletimeNow_eq {n : Nat} (hunix : (BitVec.ofInt 64 i.sec).toNat = n)
    (h : (n + 11644473600) * 10000000 + i.nsec / 100 < 2 ^ 64) : windowsFiletimeNow i =
      some (BitVec.ofNat 64 ((n + 11644473600) * 10000000 + i.nsec / 100)) := by
  subst hunix
  unfold windowsFiletimeNow
  -- The arguments are given: to find them is to unfold a sum with a literal that large.
  exact @u64_steps _ _ 11644473600 10000000 (i.nsec / 100) (BitVec.ofNat 64) (by decide) h

theorem precise_eq (hsec : 0 ≤ i.sec) (hhigh : i.fileTime < 2 ^ 63) :
    getSystemTimePreciseAsFileTime i true = some (some (BitVec.ofInt 64 i.fileTime)) := by
  obtain ⟨n, hn⟩ := Int.eq_ofNat_of_zero_le hsec
  have hrange := i.sec_range
  have hunix : (BitVec.ofInt 64 i.sec).toNat = n := by
    rw [hn, BitVec.ofInt_natCast, BitVec.toNat_ofNat]
    exact Nat.mod_eq_of_lt (by omega)
  have hft : i.fileTime = ((n + 11644473600) * 10000000 + i.nsec / 100 : Nat) := by
    unfold Instant.fileTime epochOffsetSecs filetimeTicksPerSec
    omega
  rw [hft] at hhigh ⊢
  rw [getSystemTimePreciseAsFileTime, if_pos rfl, windowsFiletimeNow_eq hunix
    ((Int.ofNat_lt.mp hhigh).trans (by decide)), BitVec.ofInt_natCast, Option.map_some]

theorem asFileTime_of_sinceEpoch {n k : Nat} (h : i.sinceEpoch = (n, k))
    (hnanos : n * 1000000000 + k < 2 ^ 64) : getSystemTimeAsFileTime i true =
      some (some (BitVec.ofNat 64 ((n * 1000000000 + k) / 100 + 116444736000000000))) := by
  have hsum : (n * 1000000000 + k) / 100 + 116444736000000000 < 2 ^ 64 := by omega
  unfold getSystemTimeAsFileTime
  generalize 116444736000000000 = offset at *
  simp only [if_true, h, Nat.mod_eq_of_lt hnanos, u64_eq hsum, Option.bind_eq_bind,
    Option.bind_some, Option.pure_def]

theorem asFileTime_eq (hsec : 0 ≤ i.sec) (hnanos : i.sec * 1000000000 + i.nsec < 2 ^ 64) :
    getSystemTimeAsFileTime i true = some (some (BitVec.ofInt 64 i.fileTime)) := by
  obtain ⟨n, hn⟩ := Int.eq_ofNat_of_zero_le hsec
  have hft : i.fileTime = ((n * 1000000000 + i.nsec) / 100 + 116444736000000000 : Nat) := by
    unfold Instant.fileTime epochOffsetSecs filetimeTicksPerSec
    omega
  rw [hn] at hnanos
  rw [asFileTime_of_sinceEpoch (i.sinceEpoch_of_sec hn) (Int.ofNat_lt.mp hnanos), hft,
    BitVec.ofInt_natCast]

/-! ## The local clock -/

/-- The day of the year that the local clock counts for a date: a month has 30 days, and the days
    after the twelfth are counted in December again. -/
def LocalDay (s : SystemTime) (dayOfYear : Int) : Prop :=
  s.day.toNat ≤ 30 ∧ dayOfYear = 30 * (s.month.toNat - 1) + (s.day.toNat - 1) ∨
    s.month.toNat = 12 ∧ s.day.toNat ≤ 5 ∧ dayOfYear = 360 + (s.day.toNat - 1)

/-- The other four fields. -/
def SystemTime.timeOfDay (s : SystemTime) : List (BitVec 16) :=
  [s.hour, s.minute, s.second, s.milliseconds]

theorem before_epoch (hsec : i.sec < 0) :
    getSystemTimeAsFileTime i true = some (some (BitVec.ofNat 64 116444736000000000)) ∧
      getLocalTime i true = some (some ⟨1970, 1, 0, 1, 0, 0, 0, 0⟩) := by
  have hsince : i.sinceEpoch = (0, 0) := if_pos hsec
  constructor
  · simpa using asFileTime_of_sinceEpoch hsince (by decide)
  · simp only [getLocalTime, hsince]
    rfl

theorem timeOfDay_systemTimeOf (y : Int) (m d : Nat) (days : Int) (rem ticks : Nat) :
    (systemTimeOf y m d days rem ticks).timeOfDay =
      [BitVec.ofNat 16 (rem / 3600), BitVec.ofNat 16 (rem % 3600 / 60), BitVec.ofNat 16 (rem % 60),
        BitVec.ofNat 16 (ticks / 10000)] := by
  have hrem : (0 : Int) ≤ rem := Int.natCast_nonneg rem
  simp only [SystemTime.timeOfDay, systemTimeOf, Int.tmod_eq_emod_of_nonneg hrem,
    Int.tdiv_eq_ediv_of_nonneg hrem, Int.tdiv_eq_ediv_of_nonneg (Int.natCast_nonneg ticks),
    Int.tdiv_eq_ediv_of_nonneg (Int.emod_nonneg (rem : Int) (show (3600 : Int) ≠ 0 by decide))]
  simp only [← BitVec.ofInt_natCast]
  rfl

theorem localFields_eq {n k : Nat} (h : n / 86400 / 365 < 30000) :
    ∃ lt, localFields n k = some lt ∧ lt.year.toNat = 1970 + n / 86400 / 365 ∧
      lt.month.toNat = min (n / 86400 % 365 / 30 + 1) 12 ∧
      lt.day.toNat = n / 86400 % 365 % 30 + 1 ∧ lt.dayOfWeek = 0 ∧
      lt.timeOfDay = [BitVec.ofNat 16 (n % 86400 / 3600), BitVec.ofNat 16 (n % 86400 % 3600 / 60),
        BitVec.ofNat 16 (n % 86400 % 60), BitVec.ofNat 16 (k / 1000000)] := by
  have hyear : u16 (1970 + n / 86400 / 365 % 2 ^ 16) = some (1970 + n / 86400 / 365) := by
    rw [Nat.mod_eq_of_lt (by omega)]
    exact if_pos (by omega)
  have hlt : localFields n k = some
      { year := BitVec.ofNat 16 (1970 + n / 86400 / 365)
        month := BitVec.ofNat 16 (min (n / 86400 % 365 / 30 + 1) 12)
        dayOfWeek := 0
        day := BitVec.ofNat 16 (n / 86400 % 365 % 30 + 1)
        hour := BitVec.ofNat 16 (n % 86400 / 3600)
        minute := BitVec.ofNat 16 (n % 86400 % 3600 / 60)
        second := BitVec.ofNat 16 (n % 86400 % 60)
        milliseconds := BitVec.ofNat 16 (k / 1000000) } := by
    simp only [localFields, hyear, Option.bind_eq_bind, Option.bind_some, Option.pure_def]
  refine ⟨_, hlt, toNat_ofNat (by omega), toNat_ofNat (by omega), toNat_ofNat (by omega), rfl, rfl⟩

theorem SystemTime.eq_iff {a b : SystemTime} (h : a.timeOfDay = b.timeOfDay) :
    a = b ↔ a.year.toNat = b.year.toNat ∧ a.month.toNat = b.month.toNat ∧
      a.day.toNat = b.day.toNat ∧ a.dayOfWeek = b.dayOfWeek := by
  rw [BitVec.toNat_inj, BitVec.toNat_inj, BitVec.toNat_inj]
  constructor
  · rintro rfl
    exact ⟨rfl, rfl, rfl, rfl⟩
  · rintro ⟨hyear, hmonth, hday, hweek⟩
    simp only [timeOfDay, List.cons.injEq, and_true] at h
    obtain ⟨hhour, hminute, hsecond, hmillis⟩ := h
    cases a
    cases b
    simp only [mk.injEq]
    exact ⟨hyear, hmonth, hweek, hday, hhour, hminute, hsecond, hmillis⟩

theorem localDay_iff {days y m d : Nat} (hm : 1 ≤ m ∧ m ≤ 12) (hd : 1 ≤ d) :
    (1970 + days / 365 = y ∧ min (days % 365 / 30 + 1) 12 = m ∧ days % 365 % 30 + 1 = d) ↔
      (d ≤ 30 ∧ (days : Int) - 365 * ((y : Int) - 1970) = 30 * ((m : Int) - 1) + ((d : Int) - 1) ∨
        m = 12 ∧ d ≤ 5 ∧ (days : Int) - 365 * ((y : Int) - 1970) = 360 + ((d : Int) - 1)) := by
  have hyear := Nat.div_add_mod days 365
  have hlast := Nat.mod_lt days (show 0 < 365 by decide)
  generalize days / 365 = year at *
  generalize days % 365 = dayOfYear at *
  have hmonth := Nat.div_add_mod dayOfYear 30
  have hthirty := Nat.mod_lt dayOfYear (show 0 < 30 by decide)
  generalize dayOfYear / 30 = month at *
  generalize dayOfYear % 30 = day at *
  by_cases hsame : 1970 + year = y
  · have hdays : (days : Int) - 365 * ((y : Int) - 1970) = 30 * month + day := by omega
    rw [hdays]
    omega
  · constructor
    · exact fun h => absurd h.1 hsame
    · omega

theorem local_spec {st : SystemTime} (hsec : 0 ≤ i.sec) (hhigh : i.fileTime < 2 ^ 63)
    (hst : getSystemTime i true = some (some st)) (hvalid : st.Valid) :
    ∃ lt, getLocalTime i true = some (some lt) ∧ lt.timeOfDay = st.timeOfDay ∧
      lt.dayOfWeek = 0 ∧ (lt.year.toNat : Int) = 1970 + i.sec / 86400 / 365 ∧
      LocalDay lt (i.sec / 86400 % 365) ∧
      (lt = st ↔ st.dayOfWeek = 0 ∧
        LocalDay st (i.sec / 86400 - 365 * (st.year.toNat - 1970))) := by
  obtain ⟨n, hn⟩ := Int.eq_ofNat_of_zero_le hsec
  obtain ⟨d, -, -, -, hfields⟩ := getSystemTime_eq i
  have hyears : n / 86400 / 365 < 30000 := by
    unfold Instant.fileTime epochOffsetSecs filetimeTicksPerSec at hhigh
    omega
  obtain ⟨lt, hlt, hyear, hmonth, hday, hweek, htime⟩ := @localFields_eq n i.nsec hyears
  have hrem : i.sec % 86400 = (n % 86400 : Nat) := by omega
  have hdays : i.sec / 86400 = (n / 86400 : Nat) := by omega
  have hsame : lt.timeOfDay = st.timeOfDay := by
    obtain rfl := Option.some.inj (Option.some.inj (hst.symm.trans hfields))
    rw [htime, hrem, timeOfDay_systemTimeOf, Nat.div_div_eq_div_mul]
  have hpos := hvalid.date.month_pos
  have hle := hvalid.date.month_le
  have hfirst := hvalid.date.day_pos
  dsimp only [SystemTime.date] at hpos hle hfirst
  refine ⟨lt, ?_, hsame, hweek, ?_, ?_, ?_⟩
  · rw [getLocalTime, if_pos rfl, i.sinceEpoch_of_sec hn, hlt, Option.map_some]
  · omega
  · unfold LocalDay
    omega
  · rw [SystemTime.eq_iff hsame, hweek, hyear, hmonth, hday, eq_comm (a := (0 : BitVec 16)),
      LocalDay, hdays, ← localDay_iff ⟨hpos, hle⟩ hfirst]
    tauto

/-! ## All four -/

/-- One instant on the four clocks: three of them agree through the calendar, and the local one only
    in the time of day, for its date takes every year to have 365 days. -/
theorem clocks_agree (i : Instant) :
    -- `GetSystemTime` and the FILETIME of the instant stand for the same fields
    (0 ≤ i.fileTime → i.fileTime < 2 ^ 63 → ∃ st,
      getSystemTime i true = some (some st) ∧ st.Valid ∧
        st.date.ordinal = (⟨1970, 1, 1⟩ : Date).ordinal + i.sec / 86400 ∧
        fileTimeToSystemTime (some (BitVec.ofInt 64 i.fileTime)) true = some (1, some st)) ∧
    -- that FILETIME is reported from 1970 on
    (0 ≤ i.sec → i.fileTime < 2 ^ 63 →
      getSystemTimePreciseAsFileTime i true = some (some (BitVec.ofInt 64 i.fileTime))) ∧
    (0 ≤ i.sec → i.sec * 1000000000 + i.nsec < 2 ^ 64 →
      getSystemTimeAsFileTime i true = some (some (BitVec.ofInt 64 i.fileTime))) ∧
    -- the local time has the same time of day, and a date of its own
    (∀ st, 0 ≤ i.sec → i.fileTime < 2 ^ 63 → getSystemTime i true = some (some st) →
      ∃ lt, getLocalTime i true = some (some lt) ∧ lt.timeOfDay = st.timeOfDay ∧
        lt.dayOfWeek = 0 ∧ (lt.year.toNat : Int) = 1970 + i.sec / 86400 / 365 ∧
        LocalDay lt (i.sec / 86400 % 365) ∧
        (lt = st ↔ st.dayOfWeek = 0 ∧
          LocalDay st (i.sec / 86400 - 365 * (st.year.toNat - 1970)))) ∧
    -- two clocks begin in 1970
    (i.sec < 0 → getSystemTimeAsFileTime i true = some (some (BitVec.ofNat 64 116444736000000000)) ∧
      getLocalTime i true = some (some ⟨1970, 1, 0, 1, 0, 0, 0, 0⟩)) := by
  have hepoch : (⟨1970, 1, 1⟩ : Date).ordinal = 719162 := by decide
  refine ⟨fun hlow hhigh => ?_, precise_eq, asFileTime_eq, fun st hsec hhigh hst => ?_,
    before_epoch⟩
  · obtain ⟨st, hst, hvalid, hordinal, hback⟩ := system_time_of_file_time hlow hhigh
    exact ⟨st, hst, hvalid, by omega, hback⟩
  · have hlow : 0 ≤ i.fileTime := by
      unfold Instant.fileTime epochOffsetSecs filetimeTicksPerSec
      omega
    obtain ⟨_, hst', hvalid, -⟩ := system_time_of_file_time hlow hhigh
    obtain rfl : _ = st := by simpa [hst'] using hst
    exact local_spec hsec hhigh hst hvalid

/-- Noon of the third of January 2021. -/
def noon : Instant := ⟨1609675200, 500000000, by decide, by decide⟩

theorem clocks_agree_noon :
    getSystemTimePreciseAsFileTime noon true = some (some (BitVec.ofInt 64 noon.fileTime)) ∧
      getSystemTimeAsFileTime noon true = some (some (BitVec.ofInt 64 noon.fileTime)) ∧
      ∃ st, getSystemTime noon true = some (some st) ∧ st.Valid := by
  obtain ⟨hsystem, hprecise, hcoarse, -⟩ := clocks_agree noon
  obtain ⟨st, hst, hvalid, -⟩ := hsystem (by decide) (by decide)
  exact ⟨hprecise (by decide) (by decide), hcoarse (by decide) (by decide), st, hst, hvalid⟩

/-- The first of March 1970, and the last second before 1970. -/
def march : Instant := ⟨59 * 86400, 0, by decide, by decide⟩

def newYearsEve : Instant := ⟨-1, 0, by decide, by decide⟩

/-- The one is the 30th of February of the local clock, the other midnight of the clocks that begin
    in 1970. -/
theorem thirtieth_of_february :
    getSystemTime march true = some (some ⟨1970, 3, 0, 1, 0, 0, 0, 0⟩) ∧
      getLocalTime march true = some (some ⟨1970, 2, 0, 30, 0, 0, 0, 0⟩) ∧
      ¬ (⟨1970, 2, 30⟩ : Date).Valid ∧
      getSystemTime newYearsEve true = some (some ⟨1969, 12, 3, 31, 23, 59, 59, 0⟩) ∧
      getLocalTime newYearsEve true = some (some ⟨1970, 1, 0, 1, 0, 0, 0, 0⟩) := by
  refine ⟨?_, ?_, ?_, ?_, ?_⟩ <;> decide

end WinCompat.Time
