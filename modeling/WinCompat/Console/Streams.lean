import WinCompat.Lib.Utf16
import WinCompat.Lib.Utf8Pieces

/-!
# Text to and from the console

`read_console_w` of `win32-kernel32/src/extras.rs` and `write_console_w` of `console.rs`. Each call
converts what it has on its own: the bytes of one `read(2)`, or the units that it is given, with one
`write(2)` for them. Text comes through whole as long as nothing is cut: no character between two
reads, no pair between two writes, and no write by the host (`console_streams_iff`).
-/

namespace WinCompat.Console

open Lib

abbrev Handle := BitVec 64

/-! ## Reading -/

/-- What a call of `read_console_w` returns, the units that it puts into the buffer, and the number
    that it reports; nothing is reported by a call that fails. -/
structure ReadOutcome where
  success : Bool
  units : List Utf16.CodeUnit
  read : Option (BitVec 32)
  lastError : Option (BitVec 32)
  deriving DecidableEq

/-- `read_console_w`, when `read(2)` gives it these bytes, or fails. -/
def readConsoleW (handle : Handle) (buf : Bool) (count : BitVec 32) (host : Option (List UInt8)) :
    ReadOutcome :=
  if buf = false ∨ count = 0 then ⟨true, [], some 0, none⟩
  else if 2 < handle.toNat then ⟨false, [], none, none⟩
  else
    match host with
    | none => ⟨false, [], none, some 6⟩
    | some bytes =>
        let units := Utf16.encode (Utf8.decodeLossy bytes)
        let copy := min units.length count.toNat
        ⟨true, units.take copy, some (BitVec.ofNat 32 copy), none⟩

/-- A call on stdin, and how many bytes `read(2)` gives it. -/
structure Read where
  buf : Bool
  count : BitVec 32
  got : Nat
  deriving DecidableEq

/-- The pieces in which the input is read. -/
def pieces : List UInt8 → List Read → List (List UInt8)
  | _, [] => []
  | input, c :: cs => input.take c.got :: pieces (input.drop c.got) cs

/-- The host gives no more than it is asked for and than there is, and at last everything. -/
def Possible : List UInt8 → List Read → Prop
  | input, [] => input = []
  | input, c :: cs =>
      c.got ≤ (if c.buf then c.count.toNat else 0) ∧ c.got ≤ input.length ∧
        Possible (input.drop c.got) cs

/-- The units that the calls deliver. -/
def delivered (input : List UInt8) (calls : List Read) : List Utf16.CodeUnit :=
  (calls.zip (pieces input calls)).flatMap fun r =>
    (readConsoleW 0 r.1.buf r.1.count (some r.2)).units

/-- A text that is read from stdin. -/
structure Reading where
  text : List Char
  calls : List Read
  possible : Possible (Utf8.encode text) calls

/-! ## Writing -/

structure WriteOutcome where
  success : Bool
  bytes : List UInt8
  written : Option (BitVec 32)
  lastError : Option (BitVec 32)
  deriving DecidableEq

/-- `write_console_w` with these units, where `write(2)` takes so many bytes, or fails. -/
def writeConsoleW (fd : Option Nat) (buf : Option (List Utf16.CodeUnit)) (host : Option Nat) :
    WriteOutcome :=
  match buf with
  | none => ⟨true, [], some 0, none⟩
  | some units =>
      if units = [] then ⟨true, [], some 0, none⟩
      else
        let utf8 := Utf8.encode (Utf16.decodeLossy units)
        match fd, host with
        | none, _ => ⟨false, [], none, some 6⟩
        | some _, none => ⟨false, [], none, some 6⟩
        | some _, some n => ⟨true, utf8.take n, some (BitVec.ofNat 32 units.length), none⟩

/-- A call, and how many bytes the host takes of it. -/
structure Write where
  units : List Utf16.CodeUnit
  took : Nat
  short : units.length < 2 ^ 32
  possible : took ≤ (Utf8.encode (Utf16.decodeLossy units)).length

namespace Write

def outcome (fd : Nat) (c : Write) : WriteOutcome :=
  writeConsoleW (some fd) (some c.units) (some c.took)

/-- The host takes everything. -/
def Whole (c : Write) : Prop := c.took = (Utf8.encode (Utf16.decodeLossy c.units)).length

end Write

/-- How many units of a text have their bytes among the first `n`. -/
def covered : List Char → Nat → Nat
  | [], _ => 0
  | c :: t, n =>
      if (String.utf8EncodeChar c).length ≤ n then
        (Utf16.encodeChar c).length + covered t (n - (String.utf8EncodeChar c).length)
      else 0

/-- A text that is written in some calls. -/
structure Writing where
  text : List Char
  calls : List Write
  split : (calls.flatMap Write.units) = Utf16.encode text

/-- The bytes of the text are written, and each call reports the units whose bytes are. -/
structure Writing.Lossless (w : Writing) (fd : Nat) : Prop where
  bytes : w.calls.flatMap (fun c => (c.outcome fd).bytes) = Utf8.encode w.text
  reported : ∀ c ∈ w.calls, ((c.outcome fd).written.map BitVec.toNat) =
    some (covered (Utf16.decodeLossy c.units) c.took)

/-! ## What is delivered -/

section Delivered

variable {b : UInt8} {bytes input : List UInt8} {c : Char} {t : List Char} {calls : List Read}

theorem length_encodeChar_le (c : Char) : (Utf16.encodeChar c).length ≤ 2 := by
  unfold Utf16.encodeChar
  split <;> simp

theorem length_encodeChar_pos (c : Char) : 0 < (Utf16.encodeChar c).length := by
  unfold Utf16.encodeChar
  split <;> simp

theorem length_encode_cons :
    (Utf16.encode (c :: t)).length = (Utf16.encodeChar c).length + (Utf16.encode t).length := by
  rw [Utf16.encode_cons, List.length_append]

theorem length_encodeChar_begin (h : Utf8.begin_ b = .done c) :
    (Utf16.encodeChar c).length = 1 := by
  unfold Utf8.begin_ at h
  dsimp only at h
  split at h
  · next hlt =>
    obtain rfl := Utf8.Read.done.inj h
    have hsmall : b.toNat < 0x80 := UInt8.lt_iff_toNat_lt.mp hlt
    have hvalid : b.toNat.isValidChar := Or.inl (by omega)
    unfold Utf16.encodeChar
    rw [Utf16.toNat_ofNat hvalid, if_pos (by omega)]
    rfl
  · repeat' split at h
    all_goals simp at h

theorem length_encode_decodeFrom (bytes : List UInt8) : ∀ st : Option Utf8.Partly,
    (Utf16.encode (Utf8.decodeFrom st bytes)).length ≤
      bytes.length + if st.isSome then 1 else 0 := by
  have hreplaced : (Utf16.encodeChar Utf8.replacement).length = 1 := by simp +decide
  induction bytes with
  | nil =>
    intro st
    cases st with
    | none => simp [Utf8.decodeFrom, Utf16.encode]
    | some p => simp [Utf8.decodeFrom, Utf16.encode, hreplaced]
  | cons b bytes ih =>
    have hnone := ih none
    have hsome (p : Utf8.Partly) := ih (some p)
    simp only [Option.isSome_none, Option.isSome_some, Bool.false_eq_true, if_false,
      if_true] at hnone hsome
    have hbegin : (Utf16.encode (Utf8.decodeFrom none (b :: bytes))).length ≤ bytes.length + 1 := by
      rw [Utf8.decodeFrom]
      cases h : Utf8.begin_ b with
      | done c =>
        have hone := length_encodeChar_begin h
        simp only [length_encode_cons]
        omega
      | more p => exact hsome p
      | bad =>
        simp only [length_encode_cons]
        omega
    intro st
    cases st with
    | none => exact hbegin
    | some p =>
      rw [Utf8.decodeFrom, List.length_cons, Option.isSome_some, if_pos rfl]
      cases h : p.next b with
      | done c =>
        have htwo := length_encodeChar_le c
        simp only [length_encode_cons]
        omega
      | more p' => exact Nat.le_succ_of_le (hsome p')
      | bad =>
        show (Utf16.encode (Utf8.replacement :: Utf8.decodeFrom none (b :: bytes))).length ≤ _
        rw [length_encode_cons]
        omega

theorem units_readConsoleW {call : Read}
    (h : bytes.length ≤ if call.buf then call.count.toNat else 0) :
    (readConsoleW 0 call.buf call.count (some bytes)).units =
      Utf16.encode (Utf8.decodeLossy bytes) := by
  unfold readConsoleW
  by_cases hnothing : call.buf = false ∨ call.count = 0
  · have hempty : bytes = [] := by
      rcases hnothing with hbuf | hcount
      · simpa [hbuf] using h
      · simpa [hcount] using h
    rw [if_pos hnothing, hempty]
    rfl
  · have hbuf : call.buf = true := by simpa using fun hb => hnothing (Or.inl hb)
    have hlen := length_encode_decodeFrom bytes none
    simp only [Option.isSome_none, Bool.false_eq_true, if_false, Nat.add_zero] at hlen
    rw [hbuf, if_pos rfl] at h
    rw [if_neg hnothing, if_neg (by decide)]
    exact List.take_of_length_le (Nat.le_min.mpr ⟨Nat.le_refl _, Nat.le_trans hlen h⟩)

theorem flatten_pieces (h : Possible input calls) : (pieces input calls).flatten = input := by
  induction calls generalizing input with
  | nil => exact (show input = [] from h).symm
  | cons call calls ih =>
    rw [pieces, List.flatten_cons, ih h.2.2, List.take_append_drop]

theorem delivered_eq (h : Possible input calls) :
    delivered input calls = Utf16.encode ((pieces input calls).flatMap Utf8.decodeLossy) := by
  induction calls generalizing input with
  | nil => rfl
  | cons call calls ih =>
    obtain ⟨hroom, -, hrest⟩ := h
    have hlen : (input.take call.got).length ≤ if call.buf then call.count.toNat else 0 :=
      Nat.le_trans (List.length_take_le _ _) hroom
    have hsplit : delivered input (call :: calls) =
        (readConsoleW 0 call.buf call.count (some (input.take call.got))).units ++
          delivered (input.drop call.got) calls := rfl
    rw [hsplit, units_readConsoleW hlen, ih hrest, pieces, List.flatMap_cons, Utf16.encode_append]

theorem delivered_iff (r : Reading) :
    delivered (Utf8.encode r.text) r.calls = Utf16.encode r.text ↔
      ∀ piece ∈ pieces (Utf8.encode r.text) r.calls, Utf8.Fresh piece := by
  rw [delivered_eq r.possible, ← Utf8.decodeLossy_pieces_iff (flatten_pieces r.possible)]
  exact ⟨Utf16.encode_injective, congrArg Utf16.encode⟩

end Delivered

/-! ## What is written -/

theorem covered_eq_iff (t : List Char) :
    ∀ n, covered t n = (Utf16.encode t).length ↔ (Utf8.encode t).length ≤ n := by
  induction t with
  | nil => simp [covered, Utf8.encode, Utf16.encode]
  | cons c t ih =>
    intro n
    have hpos := length_encodeChar_pos c
    have hbytes : (Utf8.encode (c :: t)).length =
        (String.utf8EncodeChar c).length + (Utf8.encode t).length := by simp [Utf8.encode]
    rw [covered, length_encode_cons, hbytes]
    by_cases h : (String.utf8EncodeChar c).length ≤ n
    · have hrest := ih (n - (String.utf8EncodeChar c).length)
      rw [if_pos h, Nat.add_left_cancel_iff, hrest]
      omega
    · rw [if_neg h]
      omega

namespace Write

theorem outcome_eq (c : Write) (fd : Nat) (h : c.units ≠ []) : c.outcome fd =
    ⟨true, (Utf8.encode (Utf16.decodeLossy c.units)).take c.took,
      some (BitVec.ofNat 32 c.units.length), none⟩ := if_neg h

theorem bytes_outcome (c : Write) (fd : Nat) :
    (c.outcome fd).bytes = (Utf8.encode (Utf16.decodeLossy c.units)).take c.took := by
  by_cases h : c.units = []
  · simp [outcome, writeConsoleW, h, Utf16.decodeLossy, Utf8.encode]
  · rw [outcome_eq c fd h]

theorem written_outcome (c : Write) (fd : Nat) :
    (c.outcome fd).written.map BitVec.toNat = some c.units.length := by
  by_cases h : c.units = []
  · simp [outcome, writeConsoleW, h]
  · rw [outcome_eq c fd h, Option.map_some, BitVec.toNat_ofNat, Nat.mod_eq_of_lt c.short]

theorem reported_iff (c : Write) (fd : Nat) : (c.outcome fd).written.map BitVec.toNat =
    some (covered (Utf16.decodeLossy c.units) c.took) ↔ c.Whole := by
  have hlen : c.units.length = (Utf16.encode (Utf16.decodeLossy c.units)).length := by
    rw [Utf16.encode_decodeLossy, Utf16.length_repair]
  rw [written_outcome, Option.some_inj, eq_comm, hlen, covered_eq_iff]
  exact ⟨Nat.le_antisymm c.possible, fun h => Nat.le_of_eq h.symm⟩

theorem Whole.bytes {c : Write} (h : c.Whole) (fd : Nat) :
    (c.outcome fd).bytes = Utf8.encode (Utf16.decodeLossy c.units) := by
  rw [bytes_outcome, h, List.take_length]

end Write

theorem bytes_writing {calls : List Write} (h : ∀ c ∈ calls, c.Whole) (fd : Nat) :
    calls.flatMap (fun c => (c.outcome fd).bytes) =
      Utf8.encode (calls.flatMap fun c => Utf16.decodeLossy c.units) := by
  induction calls with
  | nil => rfl
  | cons c calls ih =>
    rw [List.forall_mem_cons] at h
    rw [List.flatMap_cons, h.1.bytes, ih h.2, List.flatMap_cons, Utf8.encode_append]

theorem encode_writing (calls : List Write) :
    Utf16.encode (calls.flatMap fun c => Utf16.decodeLossy c.units) =
      calls.flatMap fun c => Utf16.repair c.units := by
  induction calls with
  | nil => rfl
  | cons c calls ih =>
    rw [List.flatMap_cons, List.flatMap_cons, ← ih, ← Utf16.encode_decodeLossy,
      Utf16.encode_append]

theorem flatMap_repair_iff (calls : List Write) :
    (calls.flatMap fun c => Utf16.repair c.units) = calls.flatMap Write.units ↔
      ∀ c ∈ calls, Utf16.WellFormed c.units := by
  induction calls with
  | nil => simp
  | cons c calls ih =>
    rw [List.flatMap_cons, List.flatMap_cons, List.forall_mem_cons, ← ih]
    constructor
    · intro h
      obtain ⟨hfirst, hrest⟩ := List.append_inj h (Utf16.length_repair c.units)
      refine ⟨?_, hrest⟩
      rw [← hfirst]
      exact Utf16.wellFormed_repair c.units
    · intro h
      rw [h.1.repair, h.2]

theorem Writing.lossless_iff (w : Writing) (fd : Nat) :
    w.Lossless fd ↔ ∀ c ∈ w.calls, Utf16.WellFormed c.units ∧ c.Whole := by
  have hmended (hwhole : ∀ c ∈ w.calls, c.Whole) :
      w.calls.flatMap (fun c => (c.outcome fd).bytes) = Utf8.encode w.text ↔
        ∀ c ∈ w.calls, Utf16.WellFormed c.units := by
    rw [bytes_writing hwhole, ← flatMap_repair_iff, ← encode_writing, w.split]
    constructor
    · intro h
      have htext := congrArg Utf8.decodeLossy h
      rw [Utf8.decodeLossy_encode, Utf8.decodeLossy_encode] at htext
      exact congrArg Utf16.encode htext
    · intro h
      exact congrArg Utf8.encode (Utf16.encode_injective h)
  constructor
  · intro h
    have hwhole : ∀ c ∈ w.calls, c.Whole := fun c hc => (c.reported_iff fd).mp (h.reported c hc)
    intro c hc
    exact ⟨(hmended hwhole).mp h.bytes c hc, hwhole c hc⟩
  · intro h
    have hwhole : ∀ c ∈ w.calls, c.Whole := fun c hc => (h c hc).2
    exact
      { bytes := (hmended hwhole).mpr fun c hc => (h c hc).1
        reported := fun c hc => (c.reported_iff fd).mpr (hwhole c hc) }

/-! ## Both ways -/

/-- Text comes in whole as long as no read begins inside a character, and goes out whole as long as
    no call has half of a pair and the host takes all that it is given. -/
theorem console_streams_iff (r : Reading) (w : Writing) (fd : Nat) :
    (delivered (Utf8.encode r.text) r.calls = Utf16.encode r.text ↔
      ∀ piece ∈ pieces (Utf8.encode r.text) r.calls, Utf8.Fresh piece) ∧
    (w.Lossless fd ↔ ∀ c ∈ w.calls, Utf16.WellFormed c.units ∧ c.Whole) :=
  ⟨delivered_iff r, w.lossless_iff fd⟩

/-- `é`, of which one byte is there when it is first read. -/
def accent : Reading where
  text := ['é']
  calls := [⟨true, 8, 1⟩, ⟨true, 8, 1⟩]
  possible := by
    simp only [Possible]
    decide

/-- U+1F600 in two calls. -/
def grin : Writing where
  text := [Char.ofNat 0x1F600]
  calls :=
    [⟨[0xD83D], 3, by decide, by decide⟩, ⟨[0xDE00], 3, by decide, by decide⟩]
  split := by decide

/-- `ab`, of which the host takes one byte. -/
def cut : Writing where
  text := ['a', 'b']
  calls := [⟨[0x61, 0x62], 1, by decide, by decide⟩]
  split := by decide

/-- Three texts that are not the same on the other side. -/
theorem accent_grin_cut :
    delivered (Utf8.encode accent.text) accent.calls = [0xFFFD, 0xFFFD] ∧
      ¬ grin.Lossless 1 ∧ ¬ cut.Lossless 1 := by
  refine ⟨by decide, ?_, ?_⟩
  · intro h
    exact absurd h.bytes (by decide)
  · intro h
    exact absurd (h.reported _ (List.mem_singleton_self _)) (by decide)

end WinCompat.Console
