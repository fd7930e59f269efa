import Mathlib.Data.Nat.Digits.Defs
import WinCompat.Crt.Strings

/-!
# Wide strings as numbers

`wcstol` and `wcstoul` of `win32-kernel32/src/ucrt.rs`. The string is copied unit by unit into one of
32-bit characters, and the host's function reads that. It answers in 64 bits: its `long` is wider
than the guest's, and what it returns is passed on as it is.
-/

namespace WinCompat.Crt

open Lib Lib.Bytes

/-! ## Numbers, as C has them -/

def digitValue (c : Nat) : Option Nat :=
  if 48 ≤ c ∧ c ≤ 57 then some (c - 48)
  else if 65 ≤ c ∧ c ≤ 90 then some (c - 55)
  else if 97 ≤ c ∧ c ≤ 122 then some (c - 87)
  else none

/-- At least one digit of base `b`; together they are `n`. -/
def Digits (b : Nat) (cs : List Nat) (n : Nat) : Prop :=
  cs ≠ [] ∧ ∃ ds : List Nat, cs.map digitValue = ds.map some ∧ (∀ d ∈ ds, d < b) ∧
    n = Nat.ofDigits b ds.reverse

/-- A number in a base, or for 0 in the base that its first characters tell. -/
inductive Number : Nat → List Nat → Nat → Prop
  | digits {base n : Nat} {cs : List Nat} (h : Digits base cs n) : Number base cs n
  | hex {base n x : Nat} {cs : List Nat} (hbase : base = 0 ∨ base = 16) (hx : x = 88 ∨ x = 120)
      (h : Digits 16 cs n) : Number base (48 :: x :: cs) n
  | octal {n : Nat} {cs : List Nat} (h : Digits 8 (48 :: cs) n) : Number 0 (48 :: cs) n
  | decimal {n : Nat} {cs : List Nat} (hhead : cs.head? ≠ some 48) (h : Digits 10 cs n) :
      Number 0 cs n

/-- White space, a sign or none, and a number. -/
def Numeral (space : Nat → Prop) (base : Nat) (p : List Nat) (negative : Bool) (n : Nat) : Prop :=
  ∃ white sign number, p = white ++ sign ++ number ∧ (∀ c ∈ white, space c) ∧
    (negative = false ∧ (sign = [] ∨ sign = [43]) ∨ negative = true ∧ sign = [45]) ∧
    Number base number n

/-- How a string begins: the prefix that is read, with the number's sign and size. -/
structure Reading where
  taken : List Nat
  negative : Bool
  size : Nat

def Reading.value (r : Reading) : Int := if r.negative then -r.size else r.size

/-- The longest prefix of `t` that is a numeral, if one is. -/
def Reads (space : Nat → Prop) (base : Nat) (t : List Nat) : Option Reading → Prop
  | none => ∀ p negative n, p <+: t → ¬ Numeral space base p negative n
  | some r => r.taken <+: t ∧ Numeral space base r.taken r.negative r.size ∧
      ∀ p negative n, p <+: t → Numeral space base p negative n → p.length ≤ r.taken.length

/-- The number clamped to a `long` of so many bits. -/
def Reading.long (w : Nat) (r : Reading) : Int := max (-2 ^ (w - 1)) (min (2 ^ (w - 1) - 1) r.value)

/-- The number as an `unsigned long`, modulo `2 ^ w`, or the largest where it does not fit. -/
def Reading.ulong (w : Nat) (r : Reading) : Int := if r.size < 2 ^ w then r.value else 2 ^ w - 1

/-- What is returned, and where the end pointer points: nothing is read where there is no number. -/
def result (value : Reading → Int) : Option Reading → Int × Nat
  | none => (0, 0)
  | some r => (value r, r.taken.length)

/-! ## The code -/

/-- The host's `wcstol` or `wcstoul`: what it returns for a buffer and a base, and the offset in the
    buffer of the end pointer that it stores. -/
abbrev Host := List (BitVec 32) → Int → Word × Option Int

/-- `widen_to_wchar` -/
def widenToWchar : Option (List CodeUnit) → Option (List (BitVec 32))
  | none => some [0]
  | some m => go m
where
  go : List CodeUnit → Option (List (BitVec 32))
    | [] => none
    | c :: m => if c ≠ 0 then (go m).map (c.zeroExtend 32 :: ·) else some [0]

/-- `translate_wide_endptr`: what is written through `endptr`, as an offset from `s`. -/
def translateWideEndptr (s : Option (List CodeUnit)) (buf : List (BitVec 32)) (end32 : Option Int)
    (endptr : Bool) : Option (Option Nat) :=
  if endptr = false then none
  else
    let offset := match end32 with
      | none => 0
      | some off => if buf = [] ∨ off < 0 then 0 else off.toNat
    some (s.map fun _ => offset)

/-- The body of `wcstol` and of `wcstoul`. -/
def parseWide (host : Host) (s : Option (List CodeUnit)) (endptr : Bool) (base : Int) :
    Option (Word × Option (Option Nat)) :=
  (widenToWchar s).map fun buf =>
    let r := host buf base
    (r.1, translateWideEndptr s buf r.2 endptr)

def wcstol (host : Host) (s : Option (List CodeUnit)) (endptr : Bool) (base : Int) :
    Option (Word × Option (Option Nat)) :=
  parseWide host s endptr base

def wcstoul (host : Host) (s : Option (List CodeUnit)) (endptr : Bool) (base : Int) :
    Option (Word × Option (Option Nat)) :=
  parseWide host s endptr base

/-! ## Calls -/

def Text.codes (s : Text CodeUnit) : List Nat := s.units.map BitVec.toNat

/-- On a buffer with these characters the host returns and stores `r`. -/
def Host.Answers (host : Host) (t : List Nat) (base : Nat) (r : Int × Nat) : Prop :=
  ∀ buf, buf.map BitVec.toNat = t ++ [0] → host buf base = (BitVec.ofInt 64 r.1, some (r.2 : Int))

/-- A string, a base and an end pointer, with how the string is read, and the host's functions, which
    follow C with a `long` of 64 bits. -/
structure Call where
  s : Text CodeUnit
  beyond : List CodeUnit
  base : Nat
  valid : base = 0 ∨ 2 ≤ base ∧ base ≤ 36
  endptr : Bool
  space : Nat → Prop
  reading : Option Reading
  reads : Reads space base s.codes reading
  hostLong : Host
  hostUlong : Host
  long : hostLong.Answers s.codes base (result (Reading.long 64) reading)
  ulong : hostUlong.Answers s.codes base (result (Reading.ulong 64) reading)

namespace Call

variable (c : Call)

/-- The low 32 bits and the end pointer are those of a 32-bit `long`. -/
def Returns (value : Reading → Int) (r : Option (Word × Option (Option Nat))) : Prop :=
  ∃ w e, r = some (w, e) ∧ w.setWidth 32 = BitVec.ofInt 32 (result value c.reading).1 ∧
    e = if c.endptr then some (some (result value c.reading).2) else none

/-- What Windows says of the two functions. -/
structure Meets : Prop where
  wcstol : c.Returns (Reading.long 32) (wcstol c.hostLong (c.s.held c.beyond) c.endptr c.base)
  wcstoul : c.Returns (Reading.ulong 32) (wcstoul c.hostUlong (c.s.held c.beyond) c.endptr c.base)

end Call

theorem widenToWchar_held (s : Text CodeUnit) (m : List CodeUnit) :
    ∃ buf, widenToWchar (s.held m) = some buf ∧ buf.map BitVec.toNat = s.codes ++ [0] := by
  obtain ⟨s, hs⟩ := s
  simp only [Text.held, widenToWchar, Text.codes]
  induction s with
  | nil => exact ⟨[0], by simp [widenToWchar.go], rfl⟩
  | cons x s ih =>
    obtain ⟨hx, hs⟩ := clean_cons hs
    obtain ⟨buf, hbuf, hcodes⟩ := ih hs
    refine ⟨x.zeroExtend 32 :: buf, ?_, ?_⟩
    · simp only [List.cons_append, widenToWchar.go, if_pos hx, hbuf, Option.map_some]
    have hlt := x.isLt
    simp only [List.map_cons, List.cons_append, hcodes, BitVec.truncate_eq_setWidth,
      BitVec.toNat_setWidth]
    rw [Nat.mod_eq_of_lt (by omega)]

theorem setWidth_ofInt_iff (x y : Int) :
    (BitVec.ofInt 64 x).setWidth 32 = BitVec.ofInt 32 y ↔ x % 2 ^ 32 = y % 2 ^ 32 := by
  rw [← BitVec.toNat_inj, BitVec.toNat_setWidth, BitVec.toNat_ofInt, BitVec.toNat_ofInt]
  omega

theorem parseWide_iff (c : Call) {host : Host} {value value' : Reading → Int}
    (h : host.Answers c.s.codes c.base (result value c.reading)) :
    c.Returns value' (parseWide host (c.s.held c.beyond) c.endptr c.base) ↔
      ∀ r ∈ c.reading, value r % 2 ^ 32 = value' r % 2 ^ 32 := by
  obtain ⟨buf, hbuf, hcodes⟩ := widenToWchar_held c.s c.beyond
  have hne : buf ≠ [] := by
    rintro rfl
    simp at hcodes
  have hend : (result value c.reading).2 = (result value' c.reading).2 := by
    cases c.reading <;> rfl
  have hlow : (∀ r ∈ c.reading, value r % 2 ^ 32 = value' r % 2 ^ 32) ↔
      (result value c.reading).1 % 2 ^ 32 = (result value' c.reading).1 % 2 ^ 32 := by
    cases c.reading <;> simp [result]
  rw [hlow, ← setWidth_ofInt_iff]
  simp only [Call.Returns, parseWide, hbuf, Option.map_some, h buf hcodes, Option.some.injEq,
    Prod.mk.injEq]
  constructor
  · rintro ⟨w, e, ⟨rfl, -⟩, hw, -⟩
    exact hw
  · intro hw
    refine ⟨_, _, ⟨rfl, rfl⟩, hw, ?_⟩
    cases c.endptr <;> simp [translateWideEndptr, hne, hend]

/-- Where clamping to 64 bits is as good as clamping to 32. -/
def FitsLong (v : Int) : Prop :=
  -2 ^ 31 ≤ v ∧ v < 2 ^ 31 ∨ 2 ^ 31 ≤ v ∧ v < 2 ^ 63 ∧ v % 2 ^ 32 = 2 ^ 31 - 1 ∨
    v < -2 ^ 31 ∧ -2 ^ 63 ≤ v ∧ v % 2 ^ 32 = 2 ^ 31

def FitsUlong (r : Reading) : Prop :=
  r.size < 2 ^ 32 ∨ 2 ^ 64 ≤ r.size ∨ r.value % 2 ^ 32 = 2 ^ 32 - 1

theorem long_low_iff (r : Reading) :
    r.long 64 % 2 ^ 32 = r.long 32 % 2 ^ 32 ↔ FitsLong r.value := by
  unfold Reading.long FitsLong
  omega

theorem ulong_low_iff (r : Reading) :
    r.ulong 64 % 2 ^ 32 = r.ulong 32 % 2 ^ 32 ↔ FitsUlong r := by
  unfold Reading.ulong FitsUlong
  split <;> split <;> omega

/-- **Wide numbers**: both functions give the 32-bit result just where the number fits into 32 bits,
    or its low bits happen to be those of the limit. -/
theorem wide_numbers_iff (c : Call) :
    c.Meets ↔ ∀ r ∈ c.reading, FitsLong r.value ∧ FitsUlong r := by
  have hlong := @parseWide_iff c _ _ (Reading.long 32) c.long
  have hulong := @parseWide_iff c _ _ (Reading.ulong 32) c.ulong
  simp only [long_low_iff] at hlong
  simp only [ulong_low_iff] at hulong
  constructor
  · exact fun h r hr => ⟨hlong.mp h.wcstol r hr, hulong.mp h.wcstoul r hr⟩
  · exact fun h => ⟨hlong.mpr fun r hr => (h r hr).1, hulong.mpr fun r hr => (h r hr).2⟩

/-- `"4294967296"` in base 10. -/
def twoToThe32 : Text CodeUnit := ⟨[52, 50, 57, 52, 57, 54, 55, 50, 57, 54], by decide⟩

def tooLarge : Call where
  s := twoToThe32
  beyond := []
  base := 10
  valid := by decide
  endptr := true
  space c := c = 32 ∨ 9 ≤ c ∧ c ≤ 13
  reading := some ⟨twoToThe32.codes, false, 2 ^ 32⟩
  reads := by
    refine ⟨List.prefix_rfl, ⟨[], [], _, rfl, nofun, .inl ⟨rfl, .inl rfl⟩, .digits ?_⟩,
      fun p _ _ hp _ => hp.length_le⟩
    exact ⟨nofun, [4, 2, 9, 4, 9, 6, 7, 2, 9, 6], rfl, by decide, rfl⟩
  hostLong _ _ := (2 ^ 32, some 10)
  hostUlong _ _ := (2 ^ 32, some 10)
  long _ _ := rfl
  ulong _ _ := rfl

/-- Both return `2 ^ 32`, which is 0 in a `long` of 32 bits. -/
theorem wide_numbers_tooLarge : ¬ tooLarge.Meets ∧
    wcstol tooLarge.hostLong (twoToThe32.held []) true 10 = some (2 ^ 32, some (some 10)) := by
  refine ⟨fun h => ?_, rfl⟩
  obtain ⟨w, e, hw, hlow, -⟩ := h.wcstol
  obtain ⟨rfl, -⟩ := Prod.mk.inj (Option.some.inj hw)
  exact absurd hlow (by decide)

end WinCompat.Crt
