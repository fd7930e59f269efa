import WinCompat.Lib.Bytes

/-!
# The TLS directory

`pe-loader/src/tls.rs`: what `load_bytes` makes of an `IMAGE_TLS_DIRECTORY64`. The addresses in it
are VAs, and the source turns them into RVAs by a saturating subtraction, so that every VA below the
image base becomes the RVA 0. `collectCallbacks_eq_iff` and `setsUp_iff` say for which directories
the outcome is nevertheless the one that is wanted.

A result `none` is an overflow of a `usize`, a read outside the image or an allocation that Rust
refuses to size.
-/

namespace WinCompat.Loader.Tls

open Lib.Bytes

/-- An image in memory. Its size is a `u32` rounded up to a page. -/
structure Mapping where
  base : Nat
  bytes : List Byte
  size_le : bytes.length ≤ 2 ^ 32

def Mapping.size (m : Mapping) : Nat := m.bytes.length

structure TlsDirectory where
  rawDataStart : Word
  rawDataEnd : Word
  addressOfIndex : Word
  /-- 0 when there are none. -/
  addressOfCallbacks : Word
  sizeOfZeroFill : BitVec 32
  deriving DecidableEq

inductive TlsError
  | outOfBounds (rva : BitVec 32)
  | malformed (start stop : Word)
  deriving DecidableEq

/-- An addition in `usize`. -/
def checkedAdd (a b : Nat) : Option Nat := if a + b < 2 ^ 64 then some (a + b) else none

/-- `read_unaligned`, of `n` bytes. -/
def Mapping.read (m : Mapping) (off n : Nat) : Option Nat :=
  if off + n ≤ m.size then some (leNat ((m.bytes.drop off).take n)) else none

/-- `saturating_sub(image_base) as usize`. -/
def rvaOf (imageBase va : Word) : Nat := va.toNat - imageBase.toNat

/-! ## `read_tls_directory` -/

def tlsDirSize : Nat := 40

def readTlsDirectory (m : Mapping) (rva : BitVec 32) : Option (Except TlsError TlsDirectory) := do
  if rva = 0 ∨ m.size < rva.toNat + tlsDirSize then
    return .error (.outOfBounds rva)
  else
    let rd := fun off => (m.read (rva.toNat + off) 8).map (BitVec.ofNat 64)
    let rawDataStart ← rd 0
    let rawDataEnd ← rd 8
    let addressOfIndex ← rd 16
    let addressOfCallbacks ← rd 24
    let sizeOfZeroFill ← (m.read (rva.toNat + 32) 4).map (BitVec.ofNat 32)
    if rawDataEnd < rawDataStart then
      return .error (.malformed rawDataStart rawDataEnd)
    else
      return .ok ⟨rawDataStart, rawDataEnd, addressOfIndex, addressOfCallbacks, sizeOfZeroFill⟩

/-! ## `init_static_tls` -/

namespace TlsDirectory

def rawSize (d : TlsDirectory) : Nat := d.rawDataEnd.toNat - d.rawDataStart.toNat

def blockSize (d : TlsDirectory) : Option Nat := checkedAdd d.rawSize d.sizeOfZeroFill.toNat

end TlsDirectory

/-- What `init_static_tls` has done: the size of the allocation it asked for, what it returned (of
    a `TlsBlock` its data) and the image it left. -/
structure Setup where
  requested : Nat
  result : Except TlsError (List Byte)
  image : List Byte

/-- The template, at the start of a block of zeros. -/
def copyTemplate (m : Mapping) (imageBase : Word) (d : TlsDirectory) (capacity : Nat) :
    Option (Except TlsError (List Byte)) :=
  if d.rawSize = 0 then some (.ok (List.replicate capacity 0))
  else
    let templateRva := rvaOf imageBase d.rawDataStart
    (checkedAdd templateRva d.rawSize).map fun stop =>
      if m.size < stop then .error (.outOfBounds (BitVec.ofNat 32 templateRva))
      else
        .ok ((m.bytes.drop templateRva).take d.rawSize ++
          List.replicate (capacity - d.rawSize) 0)

/-- Write the slot index 0. -/
def publishIndex (m : Mapping) (imageBase : Word) (d : TlsDirectory) :
    Option (Except TlsError (List Byte)) :=
  if d.addressOfIndex = 0 then some (.ok m.bytes)
  else
    let indexRva := rvaOf imageBase d.addressOfIndex
    (checkedAdd indexRva 4).map fun stop =>
      if stop ≤ m.size then
        .ok (m.bytes.take indexRva ++ List.replicate 4 0 ++ m.bytes.drop stop)
      else .error (.outOfBounds (BitVec.ofNat 32 indexRva))

def initStaticTls (m : Mapping) (imageBase : Word) (d : TlsDirectory) : Option Setup := do
  let blockSize ← d.blockSize
  let capacity := max blockSize 1
  -- `vec!` refuses more than `isize::MAX` bytes.
  if 2 ^ 63 ≤ capacity then none
  else
    match ← copyTemplate m imageBase d capacity with
    | .error e => return ⟨capacity, .error e, m.bytes⟩
    | .ok data =>
      match ← publishIndex m imageBase d with
      | .error e => return ⟨capacity, .error e, m.bytes⟩
      | .ok image => return ⟨capacity, .ok data, image⟩

/-! ## `collect_callbacks` -/

def maxCallbacks : Nat := 64

/-- The walk over the array, for `n` entries at most. -/
def collectFrom (m : Mapping) (imageBase : Word) : Nat → Nat → Option (List Nat)
  | 0, _ => some []
  | n + 1, rva => do
    let next ← checkedAdd rva 8
    if m.size < next then some []
    else
      let va ← (m.read rva 8).map (BitVec.ofNat 64)
      if va = 0 then some []
      else
        let rest ← collectFrom m imageBase n next
        let targetRva := rvaOf imageBase va
        if m.size ≤ targetRva then some rest else some ((m.base + targetRva) :: rest)

def collectCallbacks (m : Mapping) (imageBase : Word) (d : TlsDirectory) : Option (List Nat) :=
  if d.addressOfCallbacks = 0 then some []
  else collectFrom m imageBase maxCallbacks (rvaOf imageBase d.addressOfCallbacks)

/-! ## The callbacks that are wanted -/

namespace Mapping

variable (m : Mapping)

/-- The VAs of the image. -/
def Contains (imageBase : Word) (va : Nat) : Prop :=
  imageBase.toNat ≤ va ∧ va < imageBase.toNat + m.size

instance (imageBase : Word) : DecidablePred (m.Contains imageBase) :=
  fun _ => inferInstanceAs (Decidable (_ ∧ _))

/-- The `u64` at a VA, if all of it is in the image. -/
def wordAt (imageBase : Word) (va : Nat) : Option Word :=
  if imageBase.toNat ≤ va then (m.read (va - imageBase.toNat) 8).map (BitVec.ofNat 64) else none

/-- The entries of an array at a VA before the first zero, `n` at most, as far as the image goes. -/
def entries (imageBase : Word) : Nat → Nat → List Word
  | 0, _ => []
  | n + 1, va =>
    match m.wordAt imageBase va with
    | none => []
    | some v => if v = 0 then [] else v :: entries imageBase n (va + 8)

/-- The entries in the image, as addresses. -/
def wanted (imageBase : Word) (d : TlsDirectory) : List Nat :=
  if d.addressOfCallbacks = 0 then []
  else
    ((m.entries imageBase maxCallbacks d.addressOfCallbacks.toNat).filter
      fun v => m.Contains imageBase v.toNat).map fun v => m.base + (v.toNat - imageBase.toNat)

/-- An array in the image has no entry below the image; one below the image is not there, and then
    the words at the start of the image must all be above it. -/
def CallbacksPlaced (imageBase : Word) (d : TlsDirectory) : Prop :=
  d.addressOfCallbacks = 0 ∨
    rvaOf imageBase d.addressOfCallbacks + 8 < 2 ^ 64 ∧
      if imageBase ≤ d.addressOfCallbacks then
        ∀ v ∈ m.entries imageBase maxCallbacks d.addressOfCallbacks.toNat, imageBase ≤ v
      else
        ∀ v ∈ m.entries imageBase maxCallbacks imageBase.toNat,
          imageBase.toNat + m.size ≤ v.toNat

end Mapping

/-! ### Reading the array -/

section

variable {m : Mapping} {imageBase : Word} {n va rva : Nat}

theorem wordAt_add : m.wordAt imageBase (imageBase.toNat + rva) =
    (m.read rva 8).map (BitVec.ofNat 64) := by
  simp [Mapping.wordAt]

theorem entries_of_lt (h : va < imageBase.toNat) : m.entries imageBase n va = [] := by
  cases n with
  | zero => rfl
  | succ n => simp [Mapping.entries, Mapping.wordAt, Nat.not_le.mpr h]

theorem size_pos_of_entries {v : Word} (hv : v ∈ m.entries imageBase n va) : 0 < m.size := by
  cases n with
  | zero => cases hv
  | succ n =>
    by_contra hzero
    have hnone : m.wordAt imageBase va = none := by
      have hlt : ¬ va - imageBase.toNat + 8 ≤ m.size := by omega
      simp [Mapping.wordAt, Mapping.read, hlt]
    simp [Mapping.entries, hnone] at hv

/-- What the walk keeps of an entry. -/
def kept (m : Mapping) (imageBase v : Word) : Option Nat :=
  if m.size ≤ rvaOf imageBase v then none else some (m.base + rvaOf imageBase v)

/-- The walk never reads outside the image. -/
theorem collectFrom_eq (h : rva + 8 < 2 ^ 64) : collectFrom m imageBase n rva =
    some ((m.entries imageBase n (imageBase.toNat + rva)).filterMap (kept m imageBase)) := by
  induction n generalizing rva with
  | zero => rfl
  | succ n ih =>
    have hsize := m.size_le
    have hadd : checkedAdd rva 8 = some (rva + 8) := if_pos h
    rw [Mapping.entries, wordAt_add]
    by_cases hend : m.size < rva + 8
    · simp [collectFrom, hadd, Mapping.read, hend, Nat.not_le.mpr hend]
    · have hread : m.read rva 8 = some (leNat ((m.bytes.drop rva).take 8)) :=
        if_pos (Nat.not_lt.mp hend)
      have hnext : rva + 8 + 8 < 2 ^ 64 := by
        unfold Mapping.size at hend
        omega
      simp only [collectFrom, hadd, hend, if_false, hread, Option.bind_eq_bind, Option.bind_some,
        Option.map_some, ih hnext, Nat.add_assoc, kept]
      split
      · rfl
      · simp only [List.filterMap_cons, kept]
        split <;> rfl

end

/-! ### Entries below the image -/

section

variable {m : Mapping} {imageBase : Word} {l : List Word}

/-- The entries of a list that are in the image, as addresses. -/
def inImage (m : Mapping) (imageBase : Word) (l : List Word) : List Nat :=
  (l.filter fun v => m.Contains imageBase v.toNat).map
    fun v => m.base + (v.toNat - imageBase.toNat)

theorem kept_of_le {v : Word} (h : imageBase ≤ v) : (kept m imageBase v).toList =
    inImage m imageBase [v] := by
  have hle : imageBase.toNat ≤ v.toNat := h
  by_cases hin : v.toNat < imageBase.toNat + m.size
  · have hlt : ¬ m.size ≤ v.toNat - imageBase.toNat := by omega
    simp [kept, inImage, rvaOf, Mapping.Contains, hle, hin, hlt]
  · have hge : m.size ≤ v.toNat - imageBase.toNat := by omega
    simp [kept, inImage, rvaOf, Mapping.Contains, hin, hge]

/-- An entry below the image becomes the image base. -/
theorem kept_of_lt {v : Word} (hsize : 0 < m.size) (h : v < imageBase) :
    kept m imageBase v = some m.base := by
  have hlt : v.toNat < imageBase.toNat := h
  have hzero : rvaOf imageBase v = 0 := by
    unfold rvaOf
    omega
  simp [kept, hzero, Nat.not_le.mpr hsize]

theorem inImage_of_lt {v : Word} (h : v < imageBase) : inImage m imageBase [v] = [] := by
  have hlt : ¬ imageBase.toNat ≤ v.toNat := Nat.not_le.mpr h
  simp [inImage, Mapping.Contains, hlt]

theorem inImage_cons (v : Word) :
    inImage m imageBase (v :: l) = inImage m imageBase [v] ++ inImage m imageBase l := by
  rw [inImage, ← List.singleton_append, List.filter_append, List.map_append]
  rfl

theorem filterMap_cons_toList {α β : Type} (f : α → Option β) (a : α) (l : List α) :
    (a :: l).filterMap f = (f a).toList ++ l.filterMap f := by
  rw [List.filterMap_cons]
  cases f a with
  | none => rfl
  | some b => rfl

theorem length_inImage_le :
    (inImage m imageBase l).length ≤ (l.filterMap (kept m imageBase)).length := by
  induction l with
  | nil => exact Nat.le_refl 0
  | cons v l ih =>
    rw [inImage_cons, filterMap_cons_toList, List.length_append, List.length_append]
    by_cases h : imageBase ≤ v
    · rw [kept_of_le h]
      omega
    · rw [inImage_of_lt (BitVec.not_le.mp h), List.length_nil]
      omega

theorem filterMap_kept_iff (hsize : 0 < m.size) :
    l.filterMap (kept m imageBase) = inImage m imageBase l ↔ ∀ v ∈ l, imageBase ≤ v := by
  induction l with
  | nil => simp [inImage]
  | cons v l ih =>
    rw [List.forall_mem_cons, inImage_cons, filterMap_cons_toList]
    by_cases h : imageBase ≤ v
    · rw [kept_of_le h, List.append_cancel_left_eq, ih, and_iff_right h]
    · have hlt := BitVec.not_le.mp h
      refine iff_of_false (fun heq => ?_) fun hall => h hall.1
      have hlength := congrArg List.length heq
      have hle := @length_inImage_le m imageBase l
      rw [kept_of_lt hsize hlt, inImage_of_lt hlt, List.length_append, List.length_append]
        at hlength
      simp only [Option.toList_some, List.length_singleton, List.length_nil] at hlength
      omega

theorem filterMap_kept_eq_nil_iff (hsize : 0 < m.size) :
    l.filterMap (kept m imageBase) = [] ↔
      ∀ v ∈ l, imageBase.toNat + m.size ≤ v.toNat := by
  rw [List.filterMap_eq_nil_iff]
  refine forall₂_congr fun v _ => ?_
  unfold kept rvaOf
  split
  · exact iff_of_true rfl (by omega)
  · exact iff_of_false (Option.some_ne_none _) (by omega)

end

/-- **The callbacks that are collected are those wanted** exactly when neither the array nor an
    entry lies below the image. -/
theorem collectCallbacks_eq_iff (m : Mapping) (imageBase : Word) (d : TlsDirectory) :
    collectCallbacks m imageBase d = some (m.wanted imageBase d) ↔
      m.CallbacksPlaced imageBase d := by
  unfold collectCallbacks Mapping.wanted Mapping.CallbacksPlaced
  by_cases hnone : d.addressOfCallbacks = 0
  · simp [hnone]
  · rw [if_neg hnone, if_neg hnone, or_iff_right hnone]
    by_cases hrva : rvaOf imageBase d.addressOfCallbacks + 8 < 2 ^ 64
    · rw [collectFrom_eq hrva, and_iff_right hrva, Option.some.injEq]
      by_cases hle : imageBase ≤ d.addressOfCallbacks
      · have hva : imageBase.toNat + rvaOf imageBase d.addressOfCallbacks =
            d.addressOfCallbacks.toNat := Nat.add_sub_cancel' hle
        rw [if_pos hle, hva]
        cases hentries : m.entries imageBase maxCallbacks d.addressOfCallbacks.toNat with
        | nil => simp
        | cons v l =>
          apply filterMap_kept_iff
          exact @size_pos_of_entries m imageBase _ _ v (hentries ▸ List.mem_cons_self)
      · have hlt : d.addressOfCallbacks.toNat < imageBase.toNat := BitVec.not_le.mp hle
        have hzero : rvaOf imageBase d.addressOfCallbacks = 0 :=
          Nat.sub_eq_zero_of_le (Nat.le_of_lt hlt)
        rw [if_neg hle, hzero, Nat.add_zero, entries_of_lt hlt]
        cases hentries : m.entries imageBase maxCallbacks imageBase.toNat with
        | nil => simp
        | cons v l =>
          apply filterMap_kept_eq_nil_iff
          exact @size_pos_of_entries m imageBase _ _ v (hentries ▸ List.mem_cons_self)
    · refine iff_of_false ?_ fun h => hrva h.1
      have hadd : checkedAdd (rvaOf imageBase d.addressOfCallbacks) 8 = none := if_neg hrva
      rw [maxCallbacks, collectFrom, hadd]
      exact nofun

/-- A page with a TLS directory at 0x100 and an array of callbacks at 0x400: the first entry lies
    below the image, and the second in it. -/
def strayCallback : Mapping where
  base := 0x140000000
  bytes := List.replicate 0x100 0 ++ le64 0x140000200 ++ le64 0x140000210 ++ le64 0x140000300 ++
    le64 0x140000400 ++ List.replicate (0x400 - 0x120) 0 ++ le64 0x10000 ++ le64 0x140000500 ++
    List.replicate (0x1000 - 0x410) 0
  size_le := by decide +kernel

/-- The base of the image is collected, as if it were a function. -/
theorem strayCallback_collected : ∃ d, readTlsDirectory strayCallback 0x100 = some (.ok d) ∧
    collectCallbacks strayCallback 0x140000000 d = some [0x140000000, 0x140000500] ∧
    strayCallback.wanted 0x140000000 d = [0x140000500] := by
  refine ⟨⟨0x140000200, 0x140000210, 0x140000300, 0x140000400, 0⟩, ?_, ?_, ?_⟩
  · decide +kernel
  · decide +kernel
  · decide +kernel

/-! ## The setup that is wanted -/

namespace Mapping

variable (m : Mapping) (imageBase : Word) (d : TlsDirectory)

/-- All of the template is in the image. -/
def TemplateIn : Prop :=
  d.rawSize = 0 ∨
    imageBase ≤ d.rawDataStart ∧ d.rawDataEnd.toNat ≤ imageBase.toNat + m.size

/-- The slot of the index is in the image, if there is one. -/
def IndexIn : Prop :=
  d.addressOfIndex = 0 ∨
    imageBase ≤ d.addressOfIndex ∧ d.addressOfIndex.toNat + 4 ≤ imageBase.toNat + m.size

/-- The template begins in the image, or above it, and does not end in it. -/
def TemplateBeyond : Prop :=
  d.rawSize ≠ 0 ∧ imageBase ≤ d.rawDataStart ∧ imageBase.toNat + m.size < d.rawDataEnd.toNat

def IndexBeyond : Prop :=
  d.addressOfIndex ≠ 0 ∧ imageBase ≤ d.addressOfIndex ∧
    imageBase.toNat + m.size < d.addressOfIndex.toNat + 4 ∧
      d.addressOfIndex.toNat - imageBase.toNat + 4 < 2 ^ 64

/-- The template is no longer than the image; and one of the two ends beyond the image, or both are
    in it. -/
def SetupPlaced : Prop :=
  d.rawSize ≤ m.size ∧ (m.TemplateBeyond imageBase d ∨ m.IndexBeyond imageBase d ∨
    m.TemplateIn imageBase d ∧ m.IndexIn imageBase d)

end Mapping

/-- `i` is the RVA of a byte at `AddressOfIndex`. -/
def IndexByte (imageBase : Word) (d : TlsDirectory) (i : Nat) : Prop :=
  d.addressOfIndex ≠ 0 ∧ d.addressOfIndex.toNat ≤ imageBase.toNat + i ∧
    imageBase.toNat + i < d.addressOfIndex.toNat + 4

/-- A block of the template and the zeros, and an image with nothing changed but the index. -/
structure Ready (m : Mapping) (imageBase : Word) (d : TlsDirectory) (data image : List Byte) :
    Prop where
  template : ∀ va, d.rawDataStart.toNat ≤ va → va < d.rawDataEnd.toNat → m.Contains imageBase va
  block : data.take (d.rawSize + d.sizeOfZeroFill.toNat) =
    (m.bytes.drop (d.rawDataStart.toNat - imageBase.toNat)).take d.rawSize ++
      List.replicate d.sizeOfZeroFill.toNat 0
  index : d.addressOfIndex ≠ 0 → ∀ j < 4, m.Contains imageBase (d.addressOfIndex.toNat + j)
  published : ∀ i, IndexByte imageBase d i → image[i]? = some 0
  unchanged : ∀ i, ¬ IndexByte imageBase d i → image[i]? = m.bytes[i]?

/-- No more is allocated than the image and the zeros could fill, and the outcome is a block or an
    error that changes nothing. -/
structure Setup.Exact (m : Mapping) (imageBase : Word) (d : TlsDirectory) (s : Setup) : Prop where
  requested : s.requested ≤ m.size + d.sizeOfZeroFill.toNat
  ok : ∀ data, s.result = .ok data → Ready m imageBase d data s.image
  error : ∀ e, s.result = .error e → s.image = m.bytes

/-! ### The parts -/

section

variable {m : Mapping} {imageBase : Word} {d : TlsDirectory} {c : Nat}

theorem readTlsDirectory_ok {rva : BitVec 32} (h : readTlsDirectory m rva = some (.ok d)) :
    tlsDirSize ≤ m.size ∧ d.rawDataStart ≤ d.rawDataEnd := by
  unfold readTlsDirectory at h
  split at h
  · cases h
  · next hin =>
    simp only [Option.bind_eq_bind, Option.bind_eq_some_iff] at h
    obtain ⟨start, -, stop, -, _, -, _, -, _, -, h⟩ := h
    split at h
    · cases h
    · next hle =>
      cases h
      refine ⟨?_, BitVec.not_lt.mp hle⟩
      omega

theorem copyTemplate_cases (hraw : d.rawSize ≤ m.size) :
    m.TemplateBeyond imageBase d ∧ (∃ e, copyTemplate m imageBase d c = some (.error e)) ∨
      ¬ m.TemplateBeyond imageBase d ∧ copyTemplate m imageBase d c =
        some (.ok ((m.bytes.drop (rvaOf imageBase d.rawDataStart)).take d.rawSize ++
          List.replicate (c - d.rawSize) 0)) := by
  unfold copyTemplate Mapping.TemplateBeyond
  by_cases hzero : d.rawSize = 0
  · simp [hzero]
  · have hstart := d.rawDataStart.isLt
    have hend := d.rawDataEnd.isLt
    have hsize := m.size_le
    have hadd : checkedAdd (rvaOf imageBase d.rawDataStart) d.rawSize =
        some (rvaOf imageBase d.rawDataStart + d.rawSize) := by
      apply if_pos
      unfold rvaOf TlsDirectory.rawSize Mapping.size at *
      omega
    simp only [if_neg hzero, hadd, Option.map_some]
    by_cases hstop : m.size < rvaOf imageBase d.rawDataStart + d.rawSize
    · refine Or.inl ⟨⟨hzero, BitVec.le_def.mpr ?_, ?_⟩, _, by rw [if_pos hstop]⟩
      · unfold rvaOf at hstop
        omega
      · unfold rvaOf TlsDirectory.rawSize at *
        omega
    · refine Or.inr ⟨fun hbeyond => hstop ?_, by rw [if_neg hstop]⟩
      have hle : imageBase.toNat ≤ d.rawDataStart.toNat := hbeyond.2.1
      have hbeyond := hbeyond.2.2
      unfold rvaOf TlsDirectory.rawSize at *
      omega

theorem blockSize_eq (hraw : d.rawSize ≤ m.size) :
    d.blockSize = some (d.rawSize + d.sizeOfZeroFill.toNat) := by
  have hsize := m.size_le
  have hzeros := d.sizeOfZeroFill.isLt
  apply if_pos
  unfold Mapping.size at hraw
  omega

theorem requested_of_some {s : Setup} (h : initStaticTls m imageBase d = some s) :
    s.requested = max (d.rawSize + d.sizeOfZeroFill.toNat) 1 := by
  unfold initStaticTls at h
  simp only [Option.bind_eq_bind, Option.bind_eq_some_iff] at h
  obtain ⟨blockSize, hblock, h⟩ := h
  have hsum : blockSize = d.rawSize + d.sizeOfZeroFill.toNat := by
    unfold TlsDirectory.blockSize checkedAdd at hblock
    split at hblock
    · exact (Option.some.inj hblock).symm
    · cases hblock
  subst hsum
  split at h
  · cases h
  · obtain ⟨template, -, h⟩ := Option.bind_eq_some_iff.mp h
    cases template with
    | error e =>
      cases h
      rfl
    | ok data =>
      obtain ⟨index, -, h⟩ := Option.bind_eq_some_iff.mp h
      cases index with
      | error e =>
        cases h
        rfl
      | ok image =>
        cases h
        rfl

theorem publishIndex_cases (hsize : 4 ≤ m.size) :
    m.IndexBeyond imageBase d ∧ (∃ e, publishIndex m imageBase d = some (.error e)) ∨
      ¬ m.IndexBeyond imageBase d ∧ (publishIndex m imageBase d = none ∧ ¬ m.IndexIn imageBase d ∨
        publishIndex m imageBase d = some (.ok
          (if d.addressOfIndex = 0 then m.bytes
          else m.bytes.take (rvaOf imageBase d.addressOfIndex) ++ List.replicate 4 0 ++
            m.bytes.drop (rvaOf imageBase d.addressOfIndex + 4)))) := by
  unfold publishIndex Mapping.IndexBeyond Mapping.IndexIn
  by_cases hzero : d.addressOfIndex = 0
  · simp [hzero]
  · by_cases hadd : rvaOf imageBase d.addressOfIndex + 4 < 2 ^ 64
    · have hstop : checkedAdd (rvaOf imageBase d.addressOfIndex) 4 =
          some (rvaOf imageBase d.addressOfIndex + 4) := if_pos hadd
      simp only [if_neg hzero, hstop, Option.map_some]
      by_cases hin : rvaOf imageBase d.addressOfIndex + 4 ≤ m.size
      · refine Or.inr ⟨fun hbeyond => ?_, Or.inr (by rw [if_pos hin])⟩
        have hbeyond := hbeyond.2.2.1
        unfold rvaOf at hin
        omega
      · refine Or.inl ⟨⟨hzero, BitVec.le_def.mpr ?_, ?_, hadd⟩, _, by rw [if_neg hin]⟩
        · unfold rvaOf at hin
          omega
        · unfold rvaOf at hin
          omega
    · have hnone : checkedAdd (rvaOf imageBase d.addressOfIndex) 4 = none := if_neg hadd
      refine Or.inr ⟨fun hbeyond => hadd hbeyond.2.2.2, Or.inl ⟨?_, ?_⟩⟩
      · simp only [if_neg hzero, hnone, Option.map_none]
      · rintro (h | ⟨-, hle⟩)
        · exact hzero h
        · have hsize := m.size_le
          unfold rvaOf Mapping.size at *
          omega

end

/-! ### The outcome -/

section

variable {m : Mapping} {imageBase : Word} {d : TlsDirectory}

theorem getElem?_splice {α : Type} (l w : List α) {r : Nat} (h : r + w.length ≤ l.length)
    (i : Nat) : (l.take r ++ w ++ l.drop (r + w.length))[i]? =
      if r ≤ i ∧ i < r + w.length then w[i - r]? else l[i]? := by
  have hlength : (l.take r).length = r := List.length_take_of_le (by omega)
  by_cases hlt : i < r
  · rw [List.append_assoc, List.getElem?_append_left (by omega), List.getElem?_take_of_lt hlt,
      if_neg (by omega)]
  · by_cases hin : i < r + w.length
    · rw [if_pos (by omega), List.append_assoc, List.getElem?_append_right (by omega), hlength,
        List.getElem?_append_left (by omega)]
    · rw [if_neg (by omega), List.getElem?_append_right (by rw [List.length_append]; omega),
        List.getElem?_drop, List.length_append, hlength]
      congr 1
      omega

theorem take_block {l : List Byte} {raw zeros c : Nat} (hl : l.length = raw)
    (hc : raw + zeros ≤ c) :
    (l ++ List.replicate (c - raw) 0).take (raw + zeros) = l ++ List.replicate zeros 0 := by
  subst hl
  rw [List.take_length_add_append, List.take_replicate, Nat.min_eq_left (by omega)]

theorem in_of_ready {data image : List Byte} (hle : d.rawDataStart ≤ d.rawDataEnd)
    (h : Ready m imageBase d data image) : m.TemplateIn imageBase d ∧ m.IndexIn imageBase d := by
  have hle : d.rawDataStart.toNat ≤ d.rawDataEnd.toNat := hle
  constructor
  · by_cases hzero : d.rawSize = 0
    · exact Or.inl hzero
    · unfold TlsDirectory.rawSize at hzero
      have hfirst := h.template d.rawDataStart.toNat (Nat.le_refl _) (by omega)
      have hlast := h.template (d.rawDataEnd.toNat - 1) (by omega) (by omega)
      refine Or.inr ⟨hfirst.1, ?_⟩
      have hlt := hlast.2
      omega
  · by_cases hzero : d.addressOfIndex = 0
    · exact Or.inl hzero
    · have hfirst := h.index hzero 0 (by decide)
      have hlast := h.index hzero 3 (by decide)
      exact Or.inr ⟨hfirst.1, hlast.2⟩

theorem ready_of_in {c : Nat} (hc : d.rawSize + d.sizeOfZeroFill.toNat ≤ c)
    (htemplate : m.TemplateIn imageBase d) (hindex : m.IndexIn imageBase d) :
    Ready m imageBase d
      ((m.bytes.drop (rvaOf imageBase d.rawDataStart)).take d.rawSize ++
        List.replicate (c - d.rawSize) 0)
      (if d.addressOfIndex = 0 then m.bytes
      else m.bytes.take (rvaOf imageBase d.addressOfIndex) ++ List.replicate 4 0 ++
        m.bytes.drop (rvaOf imageBase d.addressOfIndex + 4)) where
  template va hstart hend := by
    rcases htemplate with hzero | ⟨hbase, hstop⟩
    · unfold TlsDirectory.rawSize at hzero
      omega
    · exact ⟨Nat.le_trans hbase hstart, Nat.lt_of_lt_of_le hend hstop⟩
  block := by
    refine take_block ?_ hc
    rw [List.length_take, List.length_drop]
    rcases htemplate with hzero | ⟨hbase, hstop⟩
    · omega
    · have hbase : imageBase.toNat ≤ d.rawDataStart.toNat := hbase
      unfold rvaOf TlsDirectory.rawSize Mapping.size at *
      omega
  index hne j hj := by
    obtain ⟨hbase, hstop⟩ := hindex.resolve_left hne
    have hbase : imageBase.toNat ≤ d.addressOfIndex.toNat := hbase
    unfold Mapping.Contains
    omega
  published i hi := by
    obtain ⟨hne, hfirst, hlast⟩ := hi
    obtain ⟨hbase, hstop⟩ := hindex.resolve_left hne
    have hbase : imageBase.toNat ≤ d.addressOfIndex.toNat := hbase
    have hin : rvaOf imageBase d.addressOfIndex + (List.replicate 4 (0 : Byte)).length ≤
        m.bytes.length := by
      unfold rvaOf Mapping.size at *
      simp only [List.length_replicate]
      omega
    have hsplice := getElem?_splice m.bytes (List.replicate 4 (0 : Byte)) hin i
    rw [List.length_replicate] at hsplice
    unfold rvaOf at hsplice ⊢
    rw [if_neg hne, hsplice, if_pos (by omega), List.getElem?_replicate, if_pos (by omega)]
  unchanged i hi := by
    split
    · rfl
    · next hne =>
      obtain ⟨hbase, hstop⟩ := hindex.resolve_left hne
      have hbase : imageBase.toNat ≤ d.addressOfIndex.toNat := hbase
      have hin : rvaOf imageBase d.addressOfIndex + (List.replicate 4 (0 : Byte)).length ≤
          m.bytes.length := by
        unfold rvaOf Mapping.size at *
        simp only [List.length_replicate]
        omega
      have hsplice := getElem?_splice m.bytes (List.replicate 4 (0 : Byte)) hin i
      rw [List.length_replicate] at hsplice
      rw [hsplice, if_neg]
      intro hwindow
      apply hi
      unfold rvaOf at hwindow
      exact ⟨hne, by omega, by omega⟩

end

/-- **Static TLS is set up as the directory says** exactly when the template is no longer than the
    image and nothing of it lies below, unless something lies beyond the image. -/
theorem setsUp_iff {m : Mapping} {rva : BitVec 32} {d : TlsDirectory} (imageBase : Word)
    (h : readTlsDirectory m rva = some (.ok d)) :
    (∃ s, initStaticTls m imageBase d = some s ∧ s.Exact m imageBase d) ↔
      m.SetupPlaced imageBase d := by
  obtain ⟨hsize, hle⟩ := readTlsDirectory_ok h
  unfold tlsDirSize at hsize
  by_cases hraw : d.rawSize ≤ m.size
  · have hcap : ¬ 2 ^ 63 ≤ max (d.rawSize + d.sizeOfZeroFill.toNat) 1 := by
      have hfits := m.size_le
      have hzeros := d.sizeOfZeroFill.isLt
      unfold Mapping.size at hraw
      omega
    have hrequested : max (d.rawSize + d.sizeOfZeroFill.toNat) 1 ≤
        m.size + d.sizeOfZeroFill.toNat := by omega
    unfold initStaticTls Mapping.SetupPlaced
    simp only [blockSize_eq hraw, Option.bind_eq_bind, Option.bind_some, if_neg hcap,
      and_iff_right hraw]
    rcases @copyTemplate_cases m imageBase d (max (d.rawSize + d.sizeOfZeroFill.toNat) 1) hraw with
      ⟨hbeyond, e, htemplate⟩ | ⟨hbeyond, htemplate⟩
    · rw [htemplate]
      exact iff_of_true ⟨_, rfl, hrequested, nofun, fun _ _ => rfl⟩ (Or.inl hbeyond)
    · rw [htemplate, or_iff_right hbeyond]
      rcases @publishIndex_cases m imageBase d (by omega) with
        ⟨hbeyond, e, hindex⟩ | ⟨hbeyond, ⟨hindex, hout⟩ | hindex⟩
      · simp only [hindex, Option.bind_some]
        exact iff_of_true ⟨_, rfl, hrequested, nofun, fun _ _ => rfl⟩ (Or.inl hbeyond)
      · simp only [hindex, Option.bind_some, Option.bind_none]
        refine iff_of_false (fun ⟨_, hnone, _⟩ => nomatch hnone) ?_
        rintro (hin | ⟨-, hin⟩)
        · exact hbeyond hin
        · exact hout hin
      · simp only [hindex, Option.bind_some, or_iff_right hbeyond]
        constructor
        · rintro ⟨s, hs, hexact⟩
          cases hs
          exact in_of_ready hle (hexact.ok _ rfl)
        · rintro ⟨htemplate, hindex⟩
          refine ⟨_, rfl, hrequested, fun data hdata => ?_, nofun⟩
          cases hdata
          exact ready_of_in (Nat.le_max_left _ _) htemplate hindex
  · refine iff_of_false ?_ fun hplaced => hraw hplaced.1
    rintro ⟨s, hs, hexact⟩
    have hrequested := hexact.requested
    rw [requested_of_some hs] at hrequested
    omega

/-- A page with a TLS directory at 0x100, with a template of 16 bytes. -/
def plainTls : Mapping where
  base := 0x140000000
  bytes := List.replicate 0x100 0 ++ le64 0x140000200 ++ le64 0x140000210 ++ le64 0x140000300 ++
    List.replicate 8 0 ++ le32 8 ++ List.replicate (0x1000 - 0x124) 0
  size_le := by decide +kernel

theorem setsUp_plainTls : ∃ d, readTlsDirectory plainTls 0x100 = some (.ok d) ∧
    ∃ s, initStaticTls plainTls 0x140000000 d = some s ∧ s.Exact plainTls 0x140000000 d := by
  have hread : readTlsDirectory plainTls 0x100 =
      some (.ok ⟨0x140000200, 0x140000210, 0x140000300, 0, 8⟩) := by decide +kernel
  have hsize : plainTls.size = 0x1000 := by decide +kernel
  refine ⟨_, hread, (setsUp_iff 0x140000000 hread).mpr ⟨?_, Or.inr (Or.inr ⟨?_, ?_⟩)⟩⟩
  · rw [hsize]
    decide
  · refine Or.inr ⟨by decide, ?_⟩
    rw [hsize]
    decide
  · refine Or.inr ⟨by decide, ?_⟩
    rw [hsize]
    decide

/-- The same, with a template that begins at the null page and a slot for the index that is there as
    well. -/
def strayTls : Mapping where
  base := 0x140000000
  bytes := [0x4D, 0x5A, 0x90, 0] ++ List.replicate 0xFC 0 ++ le64 0x10 ++ le64 0x20 ++ le64 0x8 ++
    List.replicate (0x1000 - 0x118) 0
  size_le := by decide +kernel

/-- The first bytes of the image are taken for the template, and overwritten with the index. -/
theorem strayTls_overwritten : ∃ d, readTlsDirectory strayTls 0x100 = some (.ok d) ∧
    (initStaticTls strayTls 0x140000000 d).map
        (fun s => (s.result.toOption.map fun data => data.take 4, s.image.take 4)) =
      some (some [0x4D, 0x5A, 0x90, 0], [0, 0, 0, 0]) ∧
    ¬ ∃ s, initStaticTls strayTls 0x140000000 d = some s ∧ s.Exact strayTls 0x140000000 d := by
  refine ⟨⟨0x10, 0x20, 0x8, 0, 0⟩, by decide +kernel, ?_⟩
  have hrun : (initStaticTls strayTls 0x140000000 ⟨0x10, 0x20, 0x8, 0, 0⟩).map
        (fun s => (s.result.toOption.map fun data => data.take 4, s.image.take 4)) =
      some (some [0x4D, 0x5A, 0x90, 0], [0, 0, 0, 0]) := by decide +kernel
  refine ⟨hrun, ?_⟩
  rintro ⟨s, hs, hexact⟩
  rw [hs, Option.map_some, Option.some.injEq, Prod.mk.injEq] at hrun
  cases hresult : s.result with
  | error e =>
    rw [hresult] at hrun
    exact nomatch hrun.1
  | ok data =>
    have hcontains := (hexact.ok data hresult).template 0x10 (by decide) (by decide)
    exact absurd hcontains.1 (by decide)

end WinCompat.Loader.Tls
