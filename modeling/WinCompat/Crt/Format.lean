import WinCompat.Lib.CString
import WinCompat.Lib.Descriptors

/-!
# Format strings without arguments

`snprintf_literal` and the functions over it (`win32-kernel32/src/ucrt.rs`), and `fprintf` with
`write_to_stream` (`crt.rs`). Arguments are out of reach there, so a format is written as it stands,
with each `%%` made one.

The three functions that fill a buffer count what they wrote, where `snprintf` has to count the text
and the other two to report that it was cut; and a stream is written once, whatever the host takes.
-/

namespace WinCompat.Crt

open Lib Lib.Bytes Lib.CString Lib.Descriptors

/-! ## What a format denotes -/

def percent : Byte := 0x25

/-- A piece of a format string whose only conversions are `%%`. -/
inductive Piece
  | literal (b : Byte) (nul : b ≠ 0) (plain : b ≠ percent)
  | percent

abbrev Format := List Piece

/-- The bytes of the format string, without the NUL. -/
def Format.spelling : Format → List Byte
  | [] => []
  | .literal b _ _ :: rest => b :: Format.spelling rest
  | .percent :: rest => Crt.percent :: Crt.percent :: Format.spelling rest

/-- The text that it denotes. -/
def Format.text : Format → List Byte
  | [] => []
  | .literal b _ _ :: rest => b :: Format.text rest
  | .percent :: rest => Crt.percent :: Format.text rest

/-! ## Buffers -/

/-- The loop of `snprintf_literal`: the format from `i` on, and the buffer. -/
def fill (cap : Nat) : List Byte → Nat → (Nat → Byte) → Nat × (Nat → Byte)
  | [], written, dst => (written, dst)
  | [b], written, dst =>
      if written < cap then (written + 1, Function.update dst written b) else (written, dst)
  | b :: c :: rest, written, dst =>
      if written < cap then
        if b = percent ∧ c = percent then
          fill cap rest (written + 1) (Function.update dst written percent)
        else fill cap (c :: rest) (written + 1) (Function.update dst written b)
      else (written, dst)

/-- `snprintf_literal`: what is returned, and the memory at `dst`. NULL is `none`. -/
def snprintfLiteral (dst : Option (Nat → Byte)) (count : Nat) (fmt : Option (List Byte)) :
    BitVec 32 × Option (Nat → Byte) :=
  match dst, fmt with
  | some m, some bytes =>
      if count = 0 then (0, dst)
      else
        let r := fill (count - 1) bytes 0 m
        (BitVec.ofNat 32 r.1, some (Function.update r.2 r.1 0))
  | _, _ => (0, dst)

def snprintf (dst : Option (Nat → Byte)) (count : Nat) (fmt : Option (List Byte)) :
    BitVec 32 × Option (Nat → Byte) :=
  snprintfLiteral dst count fmt

/-- `stdio_common_vsprintf_s` -/
def stdioCommonVsprintfS (count : Nat) (dst : Option (Nat → Byte)) (fmt : Option (List Byte)) :
    BitVec 32 × Option (Nat → Byte) :=
  snprintfLiteral dst count fmt

def vsnprintf (dst : Option (Nat → Byte)) (count : Nat) (fmt : Option (List Byte)) :
    BitVec 32 × Option (Nat → Byte) :=
  snprintfLiteral dst count fmt

/-! ## Streams -/

/-- The loop of `fprintf`: what it pushes on `out`. -/
def collapse : List Byte → List Byte
  | [] => []
  | [b] => [b]
  | b :: c :: rest =>
      if b = percent ∧ c = percent then percent :: collapse rest else b :: collapse (c :: rest)

/-- `write_to_stream`: what is returned, and what the host is sent. The host takes `answer` bytes,
    or fails. -/
def writeToStream (fd : Int) (bytes : List Byte) (answer : Option Nat) : Nat × List Byte :=
  if fd < 0 ∨ bytes = [] then (0, [])
  else
    match answer with
    | none => (0, [])
    | some n => (n, bytes.take n)

/-- `fprintf`, on a `FILE` with this descriptor in it. -/
def fprintf (fd : Int) (fmt : Option (List Byte)) (answer : Option Nat) : BitVec 32 × List Byte :=
  match fmt with
  | none => (0, [])
  | some bytes =>
      let r := writeToStream fd (collapse bytes) answer
      (BitVec.ofNat 32 r.1, r.2)

/-! ## What is written -/

theorem collapse_spelling (f : Format) : collapse f.spelling = f.text := by
  induction f with
  | nil => rfl
  | cons p f ih =>
    cases p with
    | percent => simp [Format.spelling, Format.text, collapse, ih]
    | literal b nul plain =>
      simp only [Format.spelling, Format.text]
      rw [← ih]
      cases Format.spelling f <;> simp [collapse, plain]

theorem store_update (m : Nat → Byte) (w : Nat) (b : Byte) (units : List Byte) :
    (Edit.store (Function.update m w b) ⟨w + 1, units⟩).unit =
      (Edit.store m ⟨w, b :: units⟩).unit := by
  funext i
  simp only [Edit.store, List.cons_append]
  obtain hlt | rfl | hgt := Nat.lt_trichotomy i w
  · rw [if_neg (by omega), if_neg (by omega), Function.update_of_ne (by omega)]
  · rw [if_neg (by omega), if_pos le_rfl, Nat.sub_self, Function.update_self, List.getD_cons_zero]
  · obtain ⟨k, rfl⟩ := Nat.exists_eq_add_of_lt hgt
    rw [if_pos (by omega), if_pos (by omega), Function.update_of_ne (by omega),
      show w + k + 1 - w = k + 1 by omega, show w + k + 1 - (w + 1) = k by omega,
      List.getD_cons_succ]

theorem store_nil (m : Nat → Byte) (w : Nat) :
    (Edit.store m ⟨w, []⟩).unit = Function.update m w 0 := by
  funext i
  by_cases hi : i = w
  · simp [Edit.store, hi]
  · rw [Function.update_of_ne hi]
    by_cases hle : w ≤ i
    · obtain ⟨k, hk⟩ : ∃ k, i - w = k + 1 := ⟨i - w - 1, by omega⟩
      simp [Edit.store, hk]
    · simp [Edit.store, hle]

theorem fill_eq (cap : Nat) (bytes : List Byte) (written : Nat) (dst : Nat → Byte) :
    let r := fill cap bytes written dst
    let units := (collapse bytes).take (cap - written)
    r.1 = written + units.length ∧
      Function.update r.2 r.1 0 = (Edit.store dst ⟨written, units⟩).unit := by
  fun_induction fill cap bytes written dst with
  | case1 written dst => simp [collapse, store_nil]
  | case2 b written dst hlt =>
    obtain ⟨k, hk⟩ : ∃ k, cap - written = k + 1 := ⟨cap - written - 1, by omega⟩
    simp [collapse, hk, ← store_update, store_nil]
  | case3 b written dst hle =>
    simp [show cap - written = 0 by omega, store_nil]
  | case4 b c rest written dst hlt hpair ih =>
    obtain ⟨k, hk⟩ : ∃ k, cap - written = k + 1 := ⟨cap - written - 1, by omega⟩
    simp only [show cap - (written + 1) = k by omega, store_update] at ih
    simp only [collapse, if_pos hpair, hk, List.take_succ_cons, List.length_cons]
    exact ⟨by omega, ih.2⟩
  | case5 b c rest written dst hlt hother ih =>
    obtain ⟨k, hk⟩ : ∃ k, cap - written = k + 1 := ⟨cap - written - 1, by omega⟩
    simp only [show cap - (written + 1) = k by omega, store_update] at ih
    simp only [collapse, if_neg hother, hk, List.take_succ_cons, List.length_cons]
    exact ⟨by omega, ih.2⟩
  | case6 b c rest written dst hle =>
    simp [show cap - written = 0 by omega, store_nil]

theorem snprintfLiteral_eq (f : Format) (m : Nat → Byte) {count : Nat} (h : count ≠ 0) :
    snprintfLiteral (some m) count (some f.spelling) =
      (BitVec.ofNat 32 (min f.text.length (count - 1)),
        some (Edit.store m ⟨0, f.text.take (count - 1)⟩).unit) := by
  obtain ⟨hwritten, hstored⟩ := fill_eq (count - 1) f.spelling 0 m
  rw [collapse_spelling, Nat.sub_zero] at hwritten hstored
  rw [List.length_take, Nat.zero_add, Nat.min_comm] at hwritten
  simp only [snprintfLiteral, if_neg h, hstored]
  rw [hwritten]

/-! ## The C functions -/

/-- Arguments of the four functions: a buffer, which is NULL only with capacity 0, an open stream,
    and what the host answers to a `write` of the text. -/
structure Arguments where
  format : Format
  dst : Option (Nat → Byte)
  count : Nat
  null : dst = none → count = 0
  fd : Nat
  answer : Option Nat
  possible : ∀ n ∈ answer, n ≤ format.text.length ∧ n ≤ maxTransfer

namespace Arguments

variable (c : Arguments)

/-- A result that is no error goes with the whole text in the buffer. -/
def Whole (r : BitVec 32 × Option (Nat → Byte)) : Prop :=
  0 ≤ r.1.toInt → r.1.toInt = c.format.text.length ∧ c.format.text.length ≤ c.count ∧
    ∀ i (h : i < c.format.text.length), ∃ m, r.2 = some m ∧ m i = c.format.text[i]

/-- What C says of the four functions. -/
structure Meets : Prop where
  snprintf : (snprintf c.dst c.count c.format.spelling).1.toInt = c.format.text.length
  stored : (Crt.snprintf c.dst c.count c.format.spelling).2 = c.dst.map fun m =>
    if c.count = 0 then m else (Edit.store m ⟨0, c.format.text.take (c.count - 1)⟩).unit
  vsprintfS : c.Whole (stdioCommonVsprintfS c.count c.dst c.format.spelling)
  vsnprintf : c.Whole (vsnprintf c.dst c.count c.format.spelling)
  fprintf : (fprintf c.fd c.format.spelling c.answer).1.toInt = c.format.text.length ∧
      (Crt.fprintf c.fd c.format.spelling c.answer).2 = c.format.text ∨
    (Crt.fprintf c.fd c.format.spelling c.answer).1.toInt < 0

theorem snprintfLiteral_stored : (snprintfLiteral c.dst c.count c.format.spelling).2 =
    c.dst.map fun m =>
      if c.count = 0 then m else (Edit.store m ⟨0, c.format.text.take (c.count - 1)⟩).unit := by
  cases c.dst with
  | none => rfl
  | some m =>
    by_cases hzero : c.count = 0
    · simp [snprintfLiteral, hzero]
    · simp [snprintfLiteral_eq c.format m hzero, hzero]

theorem snprintfLiteral_length :
    (snprintfLiteral c.dst c.count c.format.spelling).1.toInt = c.format.text.length ↔
      c.format.text = [] ∨ c.format.text.length < c.count ∧ c.format.text.length < 2 ^ 31 := by
  rw [← List.length_eq_zero_iff]
  have hzero : c.count = 0 → (snprintfLiteral c.dst c.count c.format.spelling).1 = 0 := by
    intro h
    cases c.dst <;> simp [snprintfLiteral, h]
  by_cases hcount : c.count = 0
  · have hnil : (0 : BitVec 32).toInt = 0 := rfl
    rw [hzero hcount, hnil]
    omega
  · obtain ⟨m, hm⟩ : ∃ m, c.dst = some m :=
      Option.ne_none_iff_exists'.mp fun hnone => hcount (c.null hnone)
    rw [hm, snprintfLiteral_eq c.format m hcount]
    dsimp only
    rw [BitVec.toInt_eq_toNat_bmod, BitVec.toNat_ofNat, Int.bmod_def]
    omega

theorem whole_of_length (h : c.format.text = [] ∨
    c.format.text.length < c.count ∧ c.format.text.length < 2 ^ 31) :
    c.Whole (snprintfLiteral c.dst c.count c.format.spelling) := by
  refine fun _ => ⟨c.snprintfLiteral_length.mpr h, ?_, fun i hi => ?_⟩
  · obtain h | ⟨h, -⟩ := h
    · simp [h]
    · omega
  · have hlt : c.format.text.length < c.count := by
      obtain h | ⟨h, -⟩ := h
      · simp [h] at hi
      · exact h
    obtain ⟨m, hm⟩ : ∃ m, c.dst = some m :=
      Option.ne_none_iff_exists'.mp fun hnone => by have := c.null hnone; omega
    rw [c.snprintfLiteral_stored, hm]
    have hcount : c.count ≠ 0 := by omega
    refine ⟨_, rfl, ?_⟩
    dsimp only
    rw [if_neg hcount, List.take_of_length_le (by omega)]
    simp [Edit.store, List.getElem?_append_left hi, hi]

theorem fprintf_iff :
    ((Crt.fprintf c.fd c.format.spelling c.answer).1.toInt = c.format.text.length ∧
      (Crt.fprintf c.fd c.format.spelling c.answer).2 = c.format.text ∨
    (Crt.fprintf c.fd c.format.spelling c.answer).1.toInt < 0) ↔
      c.format.text = [] ∨ c.answer = some c.format.text.length := by
  have hfd : ¬ (c.fd : Int) < 0 := by omega
  by_cases hempty : c.format.text = []
  · simp [Crt.fprintf, collapse_spelling, writeToStream, hempty]
  · have hpos := List.length_pos_iff.mpr hempty
    cases hanswer : c.answer with
    | none =>
      simp only [Crt.fprintf, collapse_spelling, writeToStream, hfd, hempty, or_self, if_false]
      simp [Ne.symm hempty]
    | some n =>
      obtain ⟨hle, hmax⟩ := c.possible n hanswer
      have hn : (BitVec.ofNat 32 n).toInt = n := by
        simp only [maxTransfer] at hmax
        rw [BitVec.toInt_eq_toNat_bmod, BitVec.toNat_ofNat, Int.bmod_def]
        omega
      simp only [Crt.fprintf, collapse_spelling, writeToStream, hfd, hempty, or_self, if_false, hn,
        false_or, Option.some.injEq, Int.ofNat_inj]
      constructor
      · rintro (⟨h, -⟩ | h)
        · exact h
        · omega
      · rintro rfl
        exact Or.inl ⟨rfl, List.take_length⟩

end Arguments

/-- **Formats without arguments**: the four functions do what C says just where the text and its NUL
    fit into the buffer, its length into an `int`, and the host takes all of it at once. -/
theorem literal_formatting_iff (c : Arguments) : c.Meets ↔
    (c.format.text = [] ∨ c.format.text.length < c.count ∧ c.format.text.length < 2 ^ 31) ∧
      (c.format.text = [] ∨ c.answer = some c.format.text.length) := by
  constructor
  · exact fun h => ⟨c.snprintfLiteral_length.mp h.snprintf, c.fprintf_iff.mp h.fprintf⟩
  · rintro ⟨hfits, htaken⟩
    exact ⟨c.snprintfLiteral_length.mpr hfits, c.snprintfLiteral_stored, c.whole_of_length hfits,
      c.whole_of_length hfits, c.fprintf_iff.mpr htaken⟩

/-- `"a%%b"` into a buffer of 3 bytes, and onto a stream of which the host takes 2. -/
def cut : Arguments where
  format := [.literal 0x61 (by decide) (by decide), .percent, .literal 0x62 (by decide) (by decide)]
  dst := some fun _ => 0
  count := 3
  null := nofun
  fd := 1
  answer := some 2
  possible := by simp [Format.text, maxTransfer]

/-- All four fail: 2 is returned for a text of 3 bytes that is not there. -/
theorem literal_formatting_cut : ¬ cut.Meets ∧
    (snprintf cut.dst cut.count cut.format.spelling).1 = 2 ∧
    ¬ cut.Whole (stdioCommonVsprintfS cut.count cut.dst cut.format.spelling) ∧
    ¬ cut.Whole (vsnprintf cut.dst cut.count cut.format.spelling) ∧
    fprintf cut.fd cut.format.spelling cut.answer = (2, [0x61, percent]) := by
  have hlength : ¬ (snprintf cut.dst cut.count cut.format.spelling).1.toInt = 3 := by decide
  refine ⟨fun h => hlength h.snprintf, by decide, fun h => ?_, fun h => ?_, by decide⟩
  · exact hlength (h (by decide)).1
  · exact hlength (h (by decide)).1

end WinCompat.Crt
