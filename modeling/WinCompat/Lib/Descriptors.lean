import WinCompat.Lib.Bytes

/-!
# File descriptors

Descriptors stand for open file descriptions, which may be shared, and descriptions for files. The
offset is the description's. A description of a regular file can be sought; what is read from and
written to in order — a pipe, a terminal — has no offset that means anything.

The calls are those of a kernel that transfers at most `maxTransfer` bytes at once, on file systems
that limit the length of a file and do not run out of room.
-/

namespace WinCompat.Lib.Descriptors

open Bytes

/-- A regular file: its bytes, and how long it may be. -/
structure Regular where
  bytes : List Byte
  limit : Nat
  limit_lt : limit < 2 ^ 63
  length_le : bytes.length ≤ limit

/-- What is still to be read, and what has been written. -/
structure Stream where
  input : List Byte
  output : List Byte

inductive Target
  | file (n : Nat)
  | stream (n : Nat)
  deriving DecidableEq

/-- An open file description. -/
structure Description where
  target : Target
  offset : Nat
  readable : Bool
  writable : Bool
  append : Bool
  deriving DecidableEq

structure Files where
  table : Nat → Option Nat
  descriptions : Nat → Description
  regular : Nat → Regular
  streams : Nat → Stream

inductive Errno
  | badf
  | inval
  | spipe
  | fbig
  deriving DecidableEq

inductive Whence
  | set
  | cur
  | end_
  deriving DecidableEq

def maxTransfer : Nat := 0x7ffff000

/-! ## Seeking -/

/-- Where an offset counts from. -/
def Whence.base (w : Whence) (d : Description) (f : Regular) : Nat :=
  match w with
  | .set => 0
  | .cur => d.offset
  | .end_ => f.bytes.length

namespace Files

def setOffset (s : Files) (n offset : Nat) : Files :=
  let d := { s.descriptions n with offset := offset }
  { s with descriptions := Function.update s.descriptions n d }

/-- `lseek(2)` -/
def lseek (s : Files) (fd : Nat) (off : Int) (whence : Whence) : Except Errno (Nat × Files) :=
  match s.table fd with
  | none => .error .badf
  | some n =>
      match (s.descriptions n).target with
      | .stream _ => .error .spipe
      | .file k =>
          let pos := (whence.base (s.descriptions n) (s.regular k) : Int) + off
          if 0 ≤ pos ∧ pos ≤ (s.regular k).limit then .ok (pos.toNat, s.setOffset n pos.toNat)
          else .error .inval

/-- `st_size` of `fstat(2)` -/
def fstatSize (s : Files) (fd : Nat) : Except Errno Nat :=
  match s.table fd with
  | none => .error .badf
  | some n =>
      match (s.descriptions n).target with
      | .stream _ => .ok 0
      | .file k => .ok (s.regular k).bytes.length

end Files

/-! ## Reading and writing -/

/-- `data` written over the bytes from `pos` on; what lies between is filled with zeros. -/
def overwrite (bytes : List Byte) (pos : Nat) (data : List Byte) : List Byte :=
  bytes.take pos ++ List.replicate (pos - bytes.length) 0 ++ data ++ bytes.drop (pos + data.length)

theorem length_overwrite (bytes : List Byte) (pos : Nat) (data : List Byte) :
    (overwrite bytes pos data).length = max bytes.length (pos + data.length) := by
  simp only [overwrite, List.length_append, List.length_take, List.length_replicate,
    List.length_drop]
  omega

/-- As much of `data` as the length of the file allows. -/
def Regular.writeAt (f : Regular) (pos : Nat) (data : List Byte) (h : pos ≤ f.limit) : Regular where
  bytes := overwrite f.bytes pos (data.take (f.limit - pos))
  limit := f.limit
  limit_lt := f.limit_lt
  length_le := by
    have hlen := f.length_le
    rw [length_overwrite, List.length_take]
    omega

def Stream.read (k : Stream) (len : Nat) : List Byte × Stream :=
  (k.input.take len, { k with input := k.input.drop len })

def Stream.write (k : Stream) (data : List Byte) : Stream :=
  { k with output := k.output ++ data }

namespace Files

/-- `read(2)` -/
def read (s : Files) (fd len : Nat) : Except Errno (List Byte × Files) :=
  match s.table fd with
  | none => .error .badf
  | some n =>
      let d := s.descriptions n
      if d.readable = false then .error .badf
      else
        match d.target with
        | .stream k =>
            let r := (s.streams k).read (min len maxTransfer)
            .ok (r.1, { s with streams := Function.update s.streams k r.2 })
        | .file k =>
            let bytes := ((s.regular k).bytes.drop d.offset).take (min len maxTransfer)
            .ok (bytes, s.setOffset n (d.offset + bytes.length))

/-- `write(2)` -/
def write (s : Files) (fd : Nat) (buf : List Byte) : Except Errno (Nat × Files) :=
  match s.table fd with
  | none => .error .badf
  | some n =>
      let d := s.descriptions n
      let data := buf.take maxTransfer
      if d.writable = false then .error .badf
      else if data = [] then .ok (0, s)
      else
        match d.target with
        | .stream k =>
            let stream := (s.streams k).write data
            .ok (data.length, { s with streams := Function.update s.streams k stream })
        | .file k =>
            let f := s.regular k
            let pos := if d.append then f.bytes.length else d.offset
            if h : pos < f.limit then
              let count := min data.length (f.limit - pos)
              let f' := f.writeAt pos data (Nat.le_of_lt h)
              let s' := { s with regular := Function.update s.regular k f' }
              .ok (count, s'.setOffset n (pos + count))
            else .error .fbig

/-! ## What a descriptor stands for -/

/-- The descriptor is open on a regular file. -/
def Opens (s : Files) (fd : Nat) (n k : Nat) : Prop :=
  s.table fd = some n ∧ (s.descriptions n).target = .file k

variable {s s' : Files} {fd n k : Nat} {off : Int} {w : Whence} {pos : Nat}

theorem lseek_eq_ok (h : s.lseek fd off w = .ok (pos, s')) : ∃ n k, s.Opens fd n k ∧
    (pos : Int) = w.base (s.descriptions n) (s.regular k) + off ∧ pos ≤ (s.regular k).limit ∧
      s' = s.setOffset n pos := by
  unfold lseek at h
  cases hn : s.table fd with
  | none =>
    simp only [hn] at h
    cases h
  | some n =>
    simp only [hn] at h
    cases ht : (s.descriptions n).target with
    | stream k =>
      simp only [ht] at h
      cases h
    | file k =>
      simp only [ht] at h
      by_cases hpos : 0 ≤ (w.base (s.descriptions n) (s.regular k) : Int) + off ∧
          (w.base (s.descriptions n) (s.regular k) : Int) + off ≤ (s.regular k).limit
      · rw [if_pos hpos] at h
        cases h
        refine ⟨n, k, ⟨hn, ht⟩, Int.toNat_of_nonneg hpos.1, ?_, rfl⟩
        exact Int.toNat_le.2 hpos.2
      · rw [if_neg hpos] at h
        cases h

theorem lseek_of_opens (h : s.Opens fd n k)
    (hpos : (pos : Int) = w.base (s.descriptions n) (s.regular k) + off)
    (hle : pos ≤ (s.regular k).limit) : s.lseek fd off w = .ok (pos, s.setOffset n pos) := by
  unfold lseek
  simp only [h.1, h.2, ← hpos]
  rw [if_pos ⟨Int.natCast_nonneg pos, Int.ofNat_le.2 hle⟩, Int.toNat_natCast]

theorem setOffset_eq_self_iff : s.setOffset n pos = s ↔ (s.descriptions n).offset = pos := by
  constructor
  · intro h
    have hn := congrFun (congrArg descriptions h) n
    simp only [setOffset, Function.update_self] at hn
    rw [← hn]
  · intro h
    have hsame : Function.update s.descriptions n { s.descriptions n with offset := pos } =
        s.descriptions := by
      rw [← h, Function.update_eq_self]
    show { s with descriptions := Function.update s.descriptions n _ } = s
    rw [hsame]

theorem fstatSize_lt {size : Nat} (h : s.fstatSize fd = .ok size) : size < 2 ^ 63 := by
  unfold fstatSize at h
  cases hn : s.table fd with
  | none =>
    simp only [hn] at h
    cases h
  | some n =>
    simp only [hn] at h
    split at h
    · cases h
      decide
    · next k _ =>
      cases h
      exact Nat.lt_of_le_of_lt (s.regular k).length_le (s.regular k).limit_lt

end Files

end WinCompat.Lib.Descriptors
