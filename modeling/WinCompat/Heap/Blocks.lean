import Mathlib.Data.List.Pairwise
import WinCompat.Lib.Machine
import WinCompat.Lib.Malloc

/-!
# Heap blocks

`HeapAlloc`, `HeapFree` and `HeapReAlloc` of `win32-kernel32/src/heap.rs`, and `HeapSize` of
`anticheat.rs`. A heap handle is not looked at. Each block begins with a header of 8 bytes, the size
asked for, and the guest gets a pointer behind it; so a payload is 8 bytes past a 16-byte boundary.

The machine takes calls of the guest in any order, with any answers of the C allocator, and stores
of the guest into its payloads. Beside the process it keeps the payloads that are live, with the
size last asked for each.
-/

namespace WinCompat.Heap

open Lib Lib.Bytes Lib.Malloc

/-! ## The calls -/

structure Process where
  heap : Malloc.Heap
  lastError : BitVec 32

def errorNotEnoughMemory : BitVec 32 := 8

def headerSize : Nat := 8

def heapZeroMemory : BitVec 32 := 0x08

/-- `bytes.saturating_add(HEADER_SIZE)`. -/
def withHeader (bytes : Word) : Nat := min (bytes.toNat + headerSize) (2 ^ 64 - 1)

/-- `(mem as *mut u8).wrapping_sub(HEADER_SIZE)`. -/
def baseOf (mem : Word) : Word := mem - BitVec.ofNat 64 headerSize

/-- `heap_alloc`; 0 is NULL. -/
def heapAlloc (p : Process) (flags : BitVec 32) (bytes : Word) (answer : Answer) :
    Word × Process :=
  match p.heap.malloc (withHeader bytes) answer with
  | (none, heap) => (0, ⟨heap, errorNotEnoughMemory⟩)
  | (some raw, heap) =>
    let headed := write64 heap.mem raw bytes
    let payload := off raw headerSize
    let mem :=
      if flags &&& heapZeroMemory ≠ 0 then fillZero headed payload bytes.toNat else headed
    (payload, { p with heap := { heap with mem } })

/-- `heap_free`. -/
def heapFree (p : Process) (mem : Word) (freed : Mem) : Option (Bool × Process) :=
  if mem = 0 then some (true, p)
  else
    (p.heap.free (baseOf mem) freed).map fun heap => (true, { p with heap })

/-- `heap_re_alloc`. -/
def heapReAlloc (p : Process) (flags : BitVec 32) (mem bytes : Word) (answer : Answer) :
    Option (Word × Process) :=
  if mem = 0 then some (heapAlloc p flags bytes answer)
  else
    (p.heap.realloc (baseOf mem) (withHeader bytes) answer).map fun r =>
      match r with
      | (none, heap) => (0, ⟨heap, errorNotEnoughMemory⟩)
      | (some newRaw, heap) =>
        let oldBytes := read64 heap.mem newRaw
        let headed := write64 heap.mem newRaw bytes
        let payload := off newRaw headerSize
        let mem :=
          if flags &&& heapZeroMemory ≠ 0 ∧ bytes.toNat > oldBytes.toNat then
            fillZero headed (off payload oldBytes.toNat) (bytes.toNat - oldBytes.toNat)
          else headed
        (payload, { p with heap := { heap with mem } })

/-- `heap_size`, with the answers of `malloc_usable_size`. -/
def heapSize (usable : Word → Word) (ptr : Word) : Word := if ptr = 0 then 0 else usable ptr

/-! ## Runs -/

/-- What the guest was handed, by the block that it is in. -/
structure Payload where
  base : Word
  size : Word
  deriving DecidableEq

namespace Payload

def addr (q : Payload) : Word := off q.base headerSize

/-- The block that `malloc` returned. -/
def block (q : Payload) : Block := ⟨q.base, q.size.toNat + headerSize⟩

/-- The bytes that are the guest's. -/
def bytes (q : Payload) : Block := ⟨q.addr, q.size.toNat⟩

end Payload

structure State where
  process : Process
  live : List Payload

def State.mem (s : State) : Mem := s.process.heap.mem

inductive Call
  | heapAlloc (flags : BitVec 32) (bytes : Word) (answer : Answer)
  | heapReAlloc (flags : BitVec 32) (mem bytes : Word) (answer : Answer)
  | heapFree (mem : Word) (freed : Mem)
  | heapSize (ptr : Word) (usable : Word → Word)
  -- The guest stores a byte.
  | store (a : Word) (b : Byte)

/-- The live payloads but the one at `mem`. -/
def State.besides (s : State) (mem : Word) : List Payload := s.live.filter fun q => q.addr ≠ mem

/-- What a call returns, and the state after it. -/
def Call.apply (s : State) : Call → Option (Word × State)
  | .heapAlloc flags bytes answer =>
    let r := Heap.heapAlloc s.process flags bytes answer
    some (r.1, ⟨r.2, if r.1 = 0 then s.live else ⟨baseOf r.1, bytes⟩ :: s.live⟩)
  | .heapReAlloc flags mem bytes answer =>
    (Heap.heapReAlloc s.process flags mem bytes answer).map fun r =>
      (r.1, ⟨r.2, if r.1 = 0 then s.live else ⟨baseOf r.1, bytes⟩ :: s.besides mem⟩)
  | .heapFree mem freed =>
    (Heap.heapFree s.process mem freed).map fun r =>
      (if r.1 then 1 else 0, ⟨r.2, s.besides mem⟩)
  | .heapSize ptr usable => some (Heap.heapSize usable ptr, s)
  | .store a b =>
    some (0, { s with process.heap.mem := Function.update s.mem a b })

/-- The C allocator answers as it should, and the guest passes NULL or a live payload and stores
    into live payloads. -/
def Call.Allowed (s : State) : Call → Prop
  | .heapAlloc _ bytes answer => s.process.heap.Mallocs (withHeader bytes) answer
  | .heapReAlloc _ mem bytes answer =>
    if mem = 0 then s.process.heap.Mallocs (withHeader bytes) answer
    else (∃ q ∈ s.live, q.addr = mem) ∧
      s.process.heap.Reallocs (baseOf mem) (withHeader bytes) answer
  | .heapFree mem freed =>
    mem = 0 ∨ (∃ q ∈ s.live, q.addr = mem) ∧ s.process.heap.Frees (baseOf mem) freed
  | .heapSize ptr _ => ptr = 0 ∨ ∃ q ∈ s.live, q.addr = ptr
  | .store a _ => ∃ q ∈ s.live, q.bytes.Contains a

def machine : Machine State Call where
  init s := s.process.heap.blocks = [] ∧ s.live = []
  next s c := (c.apply s).map Prod.snd

/-! ## What is documented -/

/-- `q` is a new payload among `others`: as long as was asked for, in a block of its own, and
    nothing in the others has changed. -/
structure Placed (s s' : State) (others : List Payload) (q : Payload) : Prop where
  live : s'.live = q :: others
  allocated : q.block ∈ s'.process.heap.blocks
  bounded : q.addr.toNat + q.size.toNat ≤ 2 ^ 64
  apart : ∀ q' ∈ others, q.block.Apart q'.block
  keeps : Keeps s.mem s'.mem (others.map Payload.block)

/-- NULL was returned, and no block has changed. -/
structure Failed (s s' : State) (r : Word) : Prop where
  null : r = 0
  heap : s'.process.heap = s.process.heap
  live : s'.live = s.live

/-- What an allocation does. -/
def Allocates (s : State) (flags : BitVec 32) (bytes r : Word) (s' : State) : Prop :=
  Failed s s' r ∨ ∃ q, (q.addr = r ∧ q.size = bytes) ∧ Placed s s' s.live q ∧
    (flags &&& heapZeroMemory ≠ 0 → ∀ i, i < bytes.toNat → s'.mem (off r i) = 0)

/-- What a call is documented to do, alignment and `HeapSize` apart. -/
def Call.Documented (s : State) (r : Word) (s' : State) : Call → Prop
  | .heapAlloc flags bytes _ => Allocates s flags bytes r s'
  | .heapReAlloc flags mem bytes _ =>
    if mem = 0 then Allocates s flags bytes r s'
    else ∀ old ∈ s.live, old.addr = mem → Failed s s' r ∨
      ∃ q, (q.addr = r ∧ q.size = bytes) ∧ Placed s s' (s.besides mem) q ∧
        (∀ i, i < old.size.toNat → i < bytes.toNat → s'.mem (off r i) = s.mem (off mem i)) ∧
        (flags &&& heapZeroMemory ≠ 0 →
          ∀ i, old.size.toNat ≤ i → i < bytes.toNat → s'.mem (off r i) = 0)
  | .heapFree mem _ =>
    r = 1 ∧ if mem = 0 then s'.process = s.process ∧ s'.live = s.live
      else s'.live = s.besides mem ∧ Keeps s.mem s'.mem ((s.besides mem).map Payload.block) ∧
        ∀ old ∈ s.live, old.addr = mem → ∀ b, b ∈ s'.process.heap.blocks ↔
          b ∈ s.process.heap.blocks ∧ b ≠ old.block
  | .heapSize _ _ => s' = s
  | .store _ _ => s'.live = s.live ∧ s'.process.heap.blocks = s.process.heap.blocks

/-- Live payloads are 8 past a 16-byte boundary, each in a block of its own with its size before
    it. -/
structure Sound (s : State) : Prop where
  aligned : ∀ q ∈ s.live, q.addr.toNat % 16 = 8
  allocated : ∀ q ∈ s.live, q.block ∈ s.process.heap.blocks
  bounded : ∀ q ∈ s.live, q.addr.toNat + q.size.toNat ≤ 2 ^ 64
  apart : s.live.Pairwise fun q q' => q.bytes.Apart q'.bytes
  recorded : ∀ q ∈ s.live, read64 s.mem (baseOf q.addr) = q.size

/-! ## The invariant -/

/-- The live blocks are the allocator's, lie apart, and each has its size in its header. -/
structure Inv (s : State) : Prop where
  blocks : s.process.heap.blocks = s.live.map Payload.block
  fits : ∀ q ∈ s.live, q.block.Fits
  apart : s.live.Pairwise fun q q' => q.block.Apart q'.block
  header : ∀ q ∈ s.live, read64 s.mem q.base = q.size

theorem baseOf_addr (q : Payload) : baseOf q.addr = q.base := by
  have h := off_sub q.base 0 headerSize
  rwa [Nat.zero_add, off_zero] at h

variable {q : Payload}

theorem base_bounded (h : q.block.Fits) : q.base.toNat + 16 ≤ 2 ^ 64 := by
  have haligned : q.base.toNat % 16 = 0 := h.aligned
  have hlt := q.base.isLt
  omega

theorem addr_toNat (h : q.block.Fits) : q.addr.toNat = q.base.toNat + 8 := by
  have hbase := base_bounded h
  exact off_toNat (by unfold headerSize; omega)

theorem off_baseOf (mem : Word) : off (baseOf mem) headerSize = mem := BitVec.sub_add_cancel ..

theorem addr_eq_iff {mem : Word} : q.addr = mem ↔ q.base = baseOf mem := by
  constructor
  · intro h
    rw [← h, baseOf_addr]
  · intro h
    rw [← off_baseOf mem, ← h]
    rfl

theorem addr_ne (h : q.block.Fits) : q.addr ≠ 0 := by
  intro hzero
  have hnat := addr_toNat h
  rw [hzero] at hnat
  exact absurd hnat (by simp)

instance : Std.Symm fun q q' : Payload => q.block.Apart q'.block := ⟨fun _ _ h => h.symm⟩

variable {s : State}

/-- Blocks that are apart do not begin at one place. -/
theorem base_ne_of_apart {q q' : Payload} (h : q.block.Apart q'.block) : q.base ≠ q'.base := by
  intro hbase
  unfold Block.Apart Payload.block headerSize at h
  rw [hbase] at h
  dsimp only at h
  omega

theorem Inv.eq_of_addr (hs : Inv s) {q q' : Payload} (hq : q ∈ s.live) (hq' : q' ∈ s.live)
    (h : q.addr = q'.addr) : q = q' := by
  by_contra hne
  refine base_ne_of_apart (hs.apart.forall hq hq' hne) ?_
  rw [← baseOf_addr q, h, baseOf_addr]

theorem bytes_apart {q q' : Payload} (hq : q.block.Fits) (hq' : q'.block.Fits)
    (h : q.block.Apart q'.block) : q.bytes.Apart q'.bytes := by
  have haddr := addr_toNat hq
  have haddr' := addr_toNat hq'
  unfold Block.Apart Payload.block headerSize at h
  unfold Block.Apart Payload.bytes
  dsimp only at *
  omega

theorem Inv.sound (hs : Inv s) : Sound s where
  aligned q hq := by
    have haligned : q.base.toNat % 16 = 0 := (hs.fits q hq).aligned
    rw [addr_toNat (hs.fits q hq)]
    omega
  allocated q hq := by
    rw [hs.blocks]
    exact List.mem_map_of_mem hq
  bounded q hq := by
    have hbounded : q.base.toNat + (q.size.toNat + 8) ≤ 2 ^ 64 := (hs.fits q hq).bounded
    rw [addr_toNat (hs.fits q hq)]
    omega
  apart := hs.apart.imp_of_mem fun hq hq' h => bytes_apart (hs.fits _ hq) (hs.fits _ hq') h
  recorded q hq := by
    rw [baseOf_addr]
    exact hs.header q hq

theorem Inv.others (hs : Inv s) (mem : Word) :
    s.process.heap.others (baseOf mem) = (s.besides mem).map Payload.block := by
  unfold Malloc.Heap.others State.besides
  rw [hs.blocks, List.filter_map]
  refine congrArg (List.map Payload.block) (List.filter_congr fun q _ => ?_)
  simp only [Function.comp_apply, ne_eq, addr_eq_iff]
  rfl

theorem Inv.besides_sublist (mem : Word) : (s.besides mem).Sublist s.live := List.filter_sublist

/-! ## A new payload -/

/-- What both allocating calls leave in memory: the header, and zeros from `k` on. -/
def stamped (m : Mem) (raw bytes : Word) (k n : Nat) : Mem :=
  fillZero (write64 m raw bytes) (off (off raw headerSize) k) n

section

variable {m : Mem} {raw bytes : Word} (hfits : Block.Fits ⟨raw, bytes.toNat + headerSize⟩)
  {k n : Nat} (hkn : n = 0 ∨ k + n ≤ bytes.toNat)

include hfits hkn

/-- Where the zeros go, if there are any. -/
theorem zeros_at (hn : 0 < n) : (off (off raw headerSize) k).toNat = raw.toNat + 8 + k ∧
    (off (off raw headerSize) k).toNat + n ≤ 2 ^ 64 := by
  have hbounded : raw.toNat + (bytes.toNat + 8) ≤ 2 ^ 64 := hfits.bounded
  rw [off_off, off_toNat (by unfold headerSize; omega)]
  unfold headerSize
  omega

theorem stamped_of_not_contains {a : Word}
    (ha : ¬ Block.Contains ⟨raw, bytes.toNat + headerSize⟩ a) :
    stamped m raw bytes k n a = m a := by
  have hbounded : raw.toNat + (bytes.toNat + 8) ≤ 2 ^ 64 := hfits.bounded
  have hhead : ¬ Block.Contains ⟨raw, 8⟩ a := by
    unfold Block.Contains headerSize at *
    dsimp only at *
    omega
  unfold stamped
  cases n with
  | zero => rw [fillZero_zero, write64_of_not_contains (by omega) hhead]
  | succ n =>
    obtain ⟨hat, hend⟩ := zeros_at hfits hkn (Nat.succ_pos n)
    rw [fillZero_of_not_contains hend, write64_of_not_contains (by omega) hhead]
    unfold Block.Contains headerSize at *
    dsimp only at *
    omega

theorem stamped_header : read64 (stamped m raw bytes k n) raw = bytes := by
  have hbounded : raw.toNat + (bytes.toNat + 8) ≤ 2 ^ 64 := hfits.bounded
  unfold stamped
  cases n with
  | zero => rw [fillZero_zero, read64_write64_self]
  | succ n =>
    obtain ⟨hat, hend⟩ := zeros_at hfits hkn (Nat.succ_pos n)
    refine (read64_congr fun j hj => ?_).trans (read64_write64_self m raw bytes)
    apply fillZero_of_not_contains hend
    have hbyte : (raw + BitVec.ofNat 64 j).toNat = raw.toNat + j := off_toNat (by omega)
    unfold Block.Contains
    dsimp only
    omega

theorem stamped_kept {i : Nat} (hi : i < k) (hin : i < bytes.toNat) :
    stamped m raw bytes k n (off (off raw headerSize) i) = m (off (off raw headerSize) i) := by
  have hbounded : raw.toNat + (bytes.toNat + 8) ≤ 2 ^ 64 := hfits.bounded
  have hbyte : (off (off raw headerSize) i).toNat = raw.toNat + 8 + i := by
    rw [off_off, off_toNat (by unfold headerSize; omega)]
    exact (Nat.add_assoc _ _ _).symm
  have hhead : ¬ Block.Contains ⟨raw, 8⟩ (off (off raw headerSize) i) := by
    unfold Block.Contains
    dsimp only
    omega
  unfold stamped
  cases n with
  | zero => rw [fillZero_zero, write64_of_not_contains (by omega) hhead]
  | succ n =>
    obtain ⟨hat, hend⟩ := zeros_at hfits hkn (Nat.succ_pos n)
    rw [fillZero_of_not_contains hend, write64_of_not_contains (by omega) hhead]
    unfold Block.Contains
    dsimp only
    omega

theorem stamped_zero {i : Nat} (hk : k ≤ i) (hi : i < k + n) :
    stamped m raw bytes k n (off (off raw headerSize) i) = 0 := by
  obtain ⟨-, hend⟩ := zeros_at hfits hkn (by omega)
  have hsplit : off (off raw headerSize) i = off (off (off raw headerSize) k) (i - k) := by
    rw [@off_off _ k, Nat.add_sub_cancel' hk]
  unfold stamped
  rw [hsplit]
  exact fillZero_off (by omega) hend

end

variable {others : List Payload}

theorem Inv.header_kept (hs : Inv s) (hsub : others.Sublist s.live) {m : Mem}
    (hkeeps : Keeps s.mem m (others.map Payload.block)) (hq : q ∈ others) :
    read64 m q.base = q.size := by
  have hmem := hsub.subset hq
  have hsize : 0 + 8 ≤ q.block.size := Nat.add_le_add (Nat.zero_le q.size.toNat) (Nat.le_refl 8)
  have hread := hkeeps.read64 (List.mem_map_of_mem hq) hsize (hs.fits q hmem).bounded
  rw [off_zero] at hread
  exact hread.trans (hs.header q hmem)

theorem Inv.place (hs : Inv s) (hsub : others.Sublist s.live) {m : Mem} {lastError : BitVec 32}
    (hfits : q.block.Fits) (hapart : ∀ q' ∈ others, q.block.Apart q'.block)
    (hkeeps : Keeps s.mem m (others.map Payload.block)) (hheader : read64 m q.base = q.size) :
    Inv ⟨⟨⟨m, q.block :: others.map Payload.block⟩, lastError⟩, q :: others⟩ where
  blocks := rfl
  fits q' hq' := by
    rcases List.mem_cons.mp hq' with rfl | hq'
    · exact hfits
    · exact hs.fits q' (hsub.subset hq')
  apart := List.pairwise_cons.mpr ⟨hapart, hs.apart.sublist hsub⟩
  header q' hq' := by
    rcases List.mem_cons.mp hq' with rfl | hq'
    · exact hheader
    · exact hs.header_kept hsub hkeeps hq'

theorem Inv.remove (hs : Inv s) (hsub : others.Sublist s.live) {m : Mem} {lastError : BitVec 32}
    (hkeeps : Keeps s.mem m (others.map Payload.block)) :
    Inv ⟨⟨⟨m, others.map Payload.block⟩, lastError⟩, others⟩ where
  blocks := rfl
  fits q' hq' := hs.fits q' (hsub.subset hq')
  apart := hs.apart.sublist hsub
  header _ hq' := hs.header_kept hsub hkeeps hq'

theorem withHeader_of_granted {bytes base : Word} {others : List Block} {m m' : Mem}
    (h : Granted others m (withHeader bytes) base m') :
    withHeader bytes = bytes.toNat + headerSize := by
  have hbounded : base.toNat + withHeader bytes ≤ 2 ^ 64 := h.fits.bounded
  have hpos : base.toNat ≠ 0 := fun hzero => h.fits.base_ne (BitVec.eq_of_toNat_eq hzero)
  have haligned : base.toNat % 16 = 0 := h.fits.aligned
  unfold withHeader at *
  omega

theorem Inv.granted (hs : Inv s) (hsub : others.Sublist s.live) {bytes base : Word} {m : Mem}
    (lastError : BitVec 32) (h : Granted (others.map Payload.block) s.mem (withHeader bytes) base m)
    {k n : Nat} (hkn : n = 0 ∨ k + n ≤ bytes.toNat) :
    let s' : State := ⟨⟨⟨stamped m base bytes k n, ⟨base, withHeader bytes⟩ ::
      others.map Payload.block⟩, lastError⟩, ⟨base, bytes⟩ :: others⟩
    Inv s' ∧ Placed s s' others ⟨base, bytes⟩ := by
  have hsize := withHeader_of_granted h
  rw [hsize] at h ⊢
  have hfits : (Payload.mk base bytes).block.Fits := h.fits
  have hapart : ∀ q' ∈ others, (Payload.mk base bytes).block.Apart q'.block :=
    fun q' hq' => h.apart _ (List.mem_map_of_mem hq')
  have hkeeps : Keeps s.mem (stamped m base bytes k n) (others.map Payload.block) :=
    h.keeps.trans (keeps_of_apart h.apart fun a ha => stamped_of_not_contains hfits hkn ha)
  have hinv : Inv ⟨⟨⟨stamped m base bytes k n, (Payload.mk base bytes).block ::
      others.map Payload.block⟩, lastError⟩, ⟨base, bytes⟩ :: others⟩ :=
    hs.place hsub hfits hapart hkeeps (stamped_header hfits hkn)
  exact ⟨hinv, rfl, List.mem_cons_self, hinv.sound.bounded _ List.mem_cons_self, hapart, hkeeps⟩

/-! ## The calls, one by one -/

theorem heapAlloc_some (p : Process) (flags : BitVec 32) (bytes base : Word) (m : Mem) :
    heapAlloc p flags bytes (some (base, m)) =
      (off base headerSize, ⟨⟨stamped m base bytes 0
          (if flags &&& heapZeroMemory ≠ 0 then bytes.toNat else 0),
        ⟨base, withHeader bytes⟩ :: p.heap.blocks⟩, p.lastError⟩) := by
  unfold heapAlloc stamped Malloc.Heap.malloc
  rw [off_zero]
  by_cases hzero : flags &&& heapZeroMemory ≠ 0
  · simp only [if_pos hzero]
  · simp only [if_neg hzero, fillZero_zero]

theorem Inv.heapAlloc (hs : Inv s) (flags : BitVec 32) {bytes : Word} {answer : Answer}
    (h : s.process.heap.Mallocs (withHeader bytes) answer) :
    let r := Heap.heapAlloc s.process flags bytes answer
    let s' : State := ⟨r.2, if r.1 = 0 then s.live else ⟨baseOf r.1, bytes⟩ :: s.live⟩
    Inv s' ∧ Allocates s flags bytes r.1 s' := by
  cases answer with
  | none =>
    refine ⟨⟨hs.blocks, hs.fits, hs.apart, hs.header⟩, .inl ⟨rfl, rfl, rfl⟩⟩
  | some granted =>
    obtain ⟨base, m⟩ := granted
    have hgranted := h base m rfl
    rw [hs.blocks] at hgranted
    have hkn : (if flags &&& heapZeroMemory ≠ 0 then bytes.toNat else 0) = 0 ∨
        0 + (if flags &&& heapZeroMemory ≠ 0 then bytes.toNat else 0) ≤ bytes.toNat := by
      split <;> omega
    have hfits := hgranted.fits
    rw [withHeader_of_granted hgranted] at hfits
    have hne : off base headerSize ≠ 0 := addr_ne (q := ⟨base, bytes⟩) hfits
    have hbase : baseOf (off base headerSize) = base := baseOf_addr ⟨base, bytes⟩
    obtain ⟨hinv, hplaced⟩ :=
      hs.granted (List.Sublist.refl _) s.process.lastError hgranted hkn
    rw [heapAlloc_some, hs.blocks]
    simp only [if_neg hne, hbase]
    refine ⟨hinv, .inr ⟨⟨base, bytes⟩, ⟨rfl, rfl⟩, hplaced, fun hzero i hi => ?_⟩⟩
    refine stamped_zero hfits hkn (Nat.zero_le i) ?_
    rw [if_pos hzero]
    omega

theorem heapReAlloc_some (p : Process) (flags : BitVec 32) {mem bytes base : Word} {m : Mem}
    (hmem : mem ≠ 0) (hblock : ∃ b ∈ p.heap.blocks, b.base = baseOf mem) :
    heapReAlloc p flags mem bytes (some (base, m)) =
      some (off base headerSize, ⟨⟨stamped m base bytes (read64 m base).toNat
          (if flags &&& heapZeroMemory ≠ 0 ∧ bytes.toNat > (read64 m base).toNat then
            bytes.toNat - (read64 m base).toNat else 0),
        ⟨base, withHeader bytes⟩ :: p.heap.others (baseOf mem)⟩, p.lastError⟩) := by
  unfold heapReAlloc stamped Malloc.Heap.realloc
  rw [if_neg hmem, if_pos hblock]
  simp only [Option.map_some]
  by_cases hzero : flags &&& heapZeroMemory ≠ 0 ∧ bytes.toNat > (read64 m base).toNat
  · simp only [if_pos hzero]
  · simp only [if_neg hzero, fillZero_zero]

theorem payload_byte {m m' : Mem} {base base' : Word} {i n : Nat} (hi : i < n)
    (h : ∀ j, j < n + headerSize → m' (off base' j) = m (off base j)) :
    m' (off (off base' headerSize) i) = m (off (off base headerSize) i) := by
  rw [off_off, off_off]
  exact h (headerSize + i) (by unfold headerSize; omega)

theorem Inv.heapReAlloc (hs : Inv s) (flags : BitVec 32) {mem bytes : Word} {answer : Answer}
    (hmem : mem ≠ 0) {old : Payload} (hold : old ∈ s.live) (haddr : old.addr = mem)
    (h : s.process.heap.Reallocs (baseOf mem) (withHeader bytes) answer) :
    ∃ r, Heap.heapReAlloc s.process flags mem bytes answer = some r ∧
      let s' : State := ⟨r.2, if r.1 = 0 then s.live else ⟨baseOf r.1, bytes⟩ :: s.besides mem⟩
      Inv s' ∧ (Failed s s' r.1 ∨
        ∃ q, (q.addr = r.1 ∧ q.size = bytes) ∧ Placed s s' (s.besides mem) q ∧
          (∀ i, i < old.size.toNat → i < bytes.toNat → s'.mem (off r.1 i) = s.mem (off mem i)) ∧
          (flags &&& heapZeroMemory ≠ 0 →
            ∀ i, old.size.toNat ≤ i → i < bytes.toNat → s'.mem (off r.1 i) = 0)) := by
  have hbaseOf : baseOf mem = old.base := by rw [← haddr, baseOf_addr]
  have hmemBlock : old.block ∈ s.process.heap.blocks := by
    rw [hs.blocks]
    exact List.mem_map_of_mem hold
  have hblock : ∃ b ∈ s.process.heap.blocks, b.base = baseOf mem :=
    ⟨old.block, hmemBlock, hbaseOf.symm⟩
  cases answer with
  | none =>
    refine ⟨(0, ⟨s.process.heap, errorNotEnoughMemory⟩), ?_,
      ⟨hs.blocks, hs.fits, hs.apart, hs.header⟩, .inl ⟨rfl, rfl, rfl⟩⟩
    unfold Heap.heapReAlloc Malloc.Heap.realloc
    rw [if_neg hmem, if_pos hblock]
    rfl
  | some granted =>
    obtain ⟨base, m⟩ := granted
    obtain ⟨hgranted, hcontents⟩ := h base m rfl
    have hcontents := hcontents old.block hmemBlock hbaseOf.symm
    rw [hs.others mem] at hgranted
    have hsize := withHeader_of_granted hgranted
    have hfits := hgranted.fits
    rw [hsize] at hfits hcontents
    rw [hbaseOf] at hcontents
    -- The header has come along, so the size that is read is the old one.
    have hread : read64 m base = old.size := by
      have hsame : read64 m base = read64 s.mem old.base :=
        read64_eq_iff.mpr fun j hj => by
          rw [byte_read64 _ _ hj]
          exact hcontents j (Nat.lt_of_lt_of_le hj (Nat.le_add_left 8 _))
            (Nat.lt_of_lt_of_le hj (Nat.le_add_left 8 _))
      rw [hsame, hs.header old hold]
    have hne : off base headerSize ≠ 0 := addr_ne (q := ⟨base, bytes⟩) hfits
    have hbase : baseOf (off base headerSize) = base := baseOf_addr ⟨base, bytes⟩
    refine ⟨_, heapReAlloc_some s.process flags hmem hblock, ?_⟩
    simp only [if_neg hne, hbase, hread]
    rw [hs.others mem]
    generalize hzeros : (if flags &&& heapZeroMemory ≠ 0 ∧ bytes.toNat > old.size.toNat then
      bytes.toNat - old.size.toNat else 0) = n
    have hkn : n = 0 ∨ old.size.toNat + n ≤ bytes.toNat := by
      rw [← hzeros]
      split <;> omega
    obtain ⟨hinv, hplaced⟩ :=
      hs.granted (Inv.besides_sublist mem) s.process.lastError hgranted hkn
    refine ⟨hinv, .inr ⟨⟨base, bytes⟩, ⟨rfl, rfl⟩, hplaced, fun i hi hi' => ?_,
      fun hzero i hi hi' => ?_⟩⟩
    · refine (stamped_kept hfits hkn hi hi').trans ?_
      rw [← haddr]
      refine payload_byte (Nat.lt_min.mpr ⟨hi, hi'⟩) fun j hj => hcontents j ?_ ?_
      · exact Nat.lt_of_lt_of_le hj (Nat.add_le_add_right (Nat.min_le_left _ _) _)
      · exact Nat.lt_of_lt_of_le hj (Nat.add_le_add_right (Nat.min_le_right _ _) _)
    · refine stamped_zero hfits hkn hi ?_
      rw [← hzeros, if_pos ⟨hzero, by omega⟩]
      omega

theorem Inv.heapFree (hs : Inv s) {mem : Word} {freed : Mem} (hmem : mem ≠ 0)
    (hlive : ∃ q ∈ s.live, q.addr = mem) (h : s.process.heap.Frees (baseOf mem) freed) :
    ∃ p', Heap.heapFree s.process mem freed = some (true, p') ∧ Inv ⟨p', s.besides mem⟩ ∧
      Keeps s.mem p'.heap.mem ((s.besides mem).map Payload.block) ∧
      ∀ old ∈ s.live, old.addr = mem → ∀ b, b ∈ p'.heap.blocks ↔
        b ∈ s.process.heap.blocks ∧ b ≠ old.block := by
  obtain ⟨q, hq, haddr⟩ := hlive
  have hbaseOf : baseOf mem = q.base := by rw [← haddr, baseOf_addr]
  have hblock : ∃ b ∈ s.process.heap.blocks, b.base = baseOf mem := by
    rw [hs.blocks]
    exact ⟨q.block, List.mem_map_of_mem hq, hbaseOf.symm⟩
  unfold Malloc.Heap.Frees at h
  rw [hs.others mem] at h
  refine ⟨⟨⟨freed, (s.besides mem).map Payload.block⟩, s.process.lastError⟩, ?_,
    hs.remove (Inv.besides_sublist mem) h, h, ?_⟩
  · unfold Heap.heapFree Malloc.Heap.free
    rw [if_neg hmem, if_pos hblock, hs.others mem]
    rfl
  · intro old hold haddr' b
    rw [hs.blocks]
    simp only [List.mem_map, State.besides, List.mem_filter, decide_eq_true_eq]
    constructor
    · rintro ⟨q', ⟨hq', hne⟩, rfl⟩
      refine ⟨⟨q', hq', rfl⟩, fun he => hne ?_⟩
      rw [← haddr', ← off_baseOf q'.addr, ← off_baseOf old.addr, baseOf_addr, baseOf_addr]
      exact congrArg (fun b => off b.base headerSize) he
    · rintro ⟨⟨q', hq', rfl⟩, hne⟩
      refine ⟨q', ⟨hq', fun he => hne ?_⟩, rfl⟩
      rw [hs.eq_of_addr hq' hold (he.trans haddr'.symm)]

theorem Inv.store (hs : Inv s) {a : Word} {b : Byte} (ha : ∃ q ∈ s.live, q.bytes.Contains a) :
    Inv { s with process.heap.mem := Function.update s.mem a b } where
  blocks := hs.blocks
  fits := hs.fits
  apart := hs.apart
  header q hq := by
    refine Eq.trans (read64_congr fun j hj => Function.update_of_ne ?_ _ _) (hs.header q hq)
    -- The guest's byte is in no header.
    obtain ⟨q', hq', hin⟩ := ha
    rintro rfl
    have hat : (q.base + BitVec.ofNat 64 j).toNat = q.base.toNat + j := by
      have hbounded := base_bounded (hs.fits q hq)
      exact off_toNat (by omega)
    have haddr := addr_toNat (hs.fits q' hq')
    unfold Block.Contains Payload.bytes at hin
    rw [hat] at hin
    dsimp only at hin
    by_cases hsame : q' = q
    · subst hsame
      omega
    · have hapart := hs.apart.forall hq' hq hsame
      unfold Block.Apart Payload.block headerSize at hapart
      dsimp only at hapart
      omega

/-! ## Every run -/

theorem Inv.besides_zero (hs : Inv s) : s.besides 0 = s.live :=
  List.filter_eq_self.mpr fun q hq => decide_eq_true (addr_ne (hs.fits q hq))

theorem Inv.step (hs : Inv s) (c : Call) (h : c.Allowed s) :
    ∃ r s', c.apply s = some (r, s') ∧ Inv s' ∧ c.Documented s r s' := by
  cases c with
  | heapAlloc flags bytes answer => exact ⟨_, _, rfl, hs.heapAlloc flags h⟩
  | heapReAlloc flags mem bytes answer =>
    dsimp only [Call.Allowed] at h
    dsimp only [Call.apply, Call.Documented]
    by_cases hmem : mem = 0
    · rw [if_pos hmem] at h
      have hstep := hs.heapAlloc flags h
      rw [hmem]
      simp only [Heap.heapReAlloc, if_true, Option.map_some, hs.besides_zero]
      exact ⟨_, _, rfl, hstep⟩
    · rw [if_neg hmem] at h
      obtain ⟨⟨old, hold, haddr⟩, hreallocs⟩ := h
      obtain ⟨r, hr, hinv, hdone⟩ := hs.heapReAlloc flags hmem hold haddr hreallocs
      rw [hr]
      refine ⟨_, _, rfl, hinv, ?_⟩
      rw [if_neg hmem]
      intro old' hold' haddr'
      obtain rfl := hs.eq_of_addr hold' hold (haddr'.trans haddr.symm)
      exact hdone
  | heapFree mem freed =>
    dsimp only [Call.apply, Call.Documented]
    by_cases hmem : mem = 0
    · rw [hmem]
      simp only [Heap.heapFree, if_true, Option.map_some, hs.besides_zero]
      exact ⟨_, _, rfl, hs, rfl, rfl, rfl⟩
    · obtain ⟨hlive, hfrees⟩ := h.resolve_left hmem
      obtain ⟨p', hfree, hinv, hkeeps, hexact⟩ := hs.heapFree hmem hlive hfrees
      rw [hfree]
      refine ⟨_, _, rfl, hinv, rfl, ?_⟩
      rw [if_neg hmem]
      exact ⟨rfl, hkeeps, hexact⟩
  | heapSize ptr usable => exact ⟨_, _, rfl, hs, rfl⟩
  | store a b => exact ⟨_, _, rfl, hs.store h, rfl, rfl⟩

/-- The runs in which the allocator and the guest keep to what they may do. -/
def Reached (s : State) : Prop := machine.ReachableIf (fun s c => c.Allowed s) s

theorem Reached.inv (h : Reached s) : Inv s := by
  refine Machine.ReachableIf.invariant h (fun s hinit => ?_) fun s c s' hs hallowed hn => ?_
  · obtain ⟨hblocks, hlive⟩ := hinit
    refine ⟨?_, ?_, ?_, ?_⟩
    · rw [hblocks, hlive]
      rfl
    · simp [hlive]
    · simp [hlive]
    · simp [hlive]
  · obtain ⟨r, s₁, happly, hinv, -⟩ := hs.step c hallowed
    unfold machine at hn
    dsimp only at hn
    rw [happly] at hn
    exact Option.some.inj hn ▸ hinv

theorem Reached.call (h : Reached s) {c : Call} (hallowed : c.Allowed s) :
    ∃ r s', c.apply s = some (r, s') ∧ Reached s' ∧ c.Documented s r s' := by
  obtain ⟨r, s', happly, -, hdone⟩ := h.inv.step c hallowed
  exact ⟨r, s', happly, .step h hallowed (congrArg (Option.map Prod.snd) happly), hdone⟩

/-- **Heap blocks over every run**: payloads are apart, 8 past a 16-byte boundary, in a block of
    their own behind their size; and each further call does what is documented. -/
theorem heap_blocks (h : Reached s) :
    Sound s ∧ ∀ c : Call, c.Allowed s →
      ∃ r s', c.apply s = some (r, s') ∧ Reached s' ∧ Sound s' ∧ c.Documented s r s' := by
  refine ⟨h.inv.sound, fun c hallowed => ?_⟩
  obtain ⟨r, s', happly, hreached, hdone⟩ := h.call hallowed
  exact ⟨r, s', happly, hreached, hreached.inv.sound, hdone⟩

/-- Nothing allocated, and memory all 0. -/
def untouched : State := ⟨⟨⟨fun _ => 0, []⟩, 0⟩, []⟩

/-- `malloc` finds room at 16. -/
def atSixteen : Call := .heapAlloc 0 8 (some (16, fun _ => 0))

theorem atSixteen_allowed : atSixteen.Allowed untouched := by
  intro base m h
  cases h
  exact ⟨⟨by decide, by decide, by decide⟩, fun _ hb => absurd hb List.not_mem_nil,
    fun _ hb => absurd hb List.not_mem_nil⟩

/-- The block at 16 is allocated. -/
def oneBlock : State := ⟨(heapAlloc untouched.process 0 8 (some (16, fun _ => 0))).2, [⟨16, 8⟩]⟩

/-- And one at 48. -/
def twoBlocks : State :=
  ⟨(heapAlloc oneBlock.process 0 8 (some (48, oneBlock.mem))).2, [⟨48, 8⟩, ⟨16, 8⟩]⟩

theorem twoBlocks_reached : Reached twoBlocks := by
  refine .step (a := .heapAlloc 0 8 (some (48, oneBlock.mem)))
    (.step (a := atSixteen) (.start ⟨rfl, rfl⟩) atSixteen_allowed rfl) ?_ rfl
  intro base m h
  cases h
  exact ⟨⟨by decide, by decide, by decide⟩, by decide, fun _ _ _ _ => rfl⟩

/-- The memory when the block at 16 has gone to 96. -/
def movedMem : Mem := fun a => if 96 ≤ a.toNat then twoBlocks.mem (a - 80) else twoBlocks.mem a

/-- The block at 16 is to grow to 32 bytes, and `realloc` finds room at 96. -/
def growing : Call := .heapReAlloc 0 24 32 (some (96, movedMem))

theorem growing_allowed : growing.Allowed twoBlocks := by
  have hbase : baseOf 24 = 16 := by decide
  have hothers : twoBlocks.process.heap.others 16 = [⟨48, 16⟩] := by decide
  have hlive : ∃ q ∈ twoBlocks.live, q.addr = 24 := by decide
  refine ⟨hlive, ?_⟩
  intro base m h
  cases h
  rw [hbase, hothers]
  refine ⟨⟨⟨by decide, by decide, by decide⟩, by decide, ?_⟩, ?_⟩
  · intro b hb a ha
    rw [List.mem_singleton.mp hb] at ha
    obtain ⟨-, ha⟩ := ha
    exact if_neg (Nat.not_le.mpr (Nat.lt_trans ha (by decide)))
  · intro b hb hat i hi _
    have hsizes : ∀ b ∈ twoBlocks.process.heap.blocks, b.size = 16 := by decide
    rw [hsizes b hb] at hi
    have hmoved : off 96 i - 80 = off 16 i := by unfold off; bv_omega
    have hle : 96 ≤ (off 96 i).toNat := by unfold off; bv_omega
    rw [movedMem, if_pos hle, hmoved]
    rfl

/-- The block moves with its contents, and the one at 48 stays as it is. -/
theorem heap_blocks_growing : ∃ r s', growing.apply twoBlocks = some (r, s') ∧ Reached s' ∧
    Sound s' ∧ growing.Documented twoBlocks r s' :=
  (heap_blocks twoBlocks_reached).2 growing growing_allowed

/-- The payload of a block at 16 is at 24, which is no multiple of 16; and `HeapSize` asks
    `malloc_usable_size` about it, which is the address of no block. -/
theorem payload_not_aligned :
    ∃ r s', atSixteen.apply untouched = some (r, s') ∧ atSixteen.Allowed untouched ∧ r ≠ 0 ∧
      r.toNat % 16 ≠ 0 ∧ (∀ usable, heapSize usable r = usable r) ∧
      ∀ b ∈ s'.process.heap.blocks, b.base ≠ r := by
  refine ⟨24, _, rfl, atSixteen_allowed, by decide, by decide, fun _ => rfl, ?_⟩
  intro b hb
  obtain rfl := List.mem_singleton.mp hb
  decide

end WinCompat.Heap
