import WinCompat.Memory.Query

/-!
# Sizes at the top of the address range

`round_up` adds before it masks, and `VirtualProtect` adds the offset in the page before that. A
debug build panics where a sum overflows, a release build wraps, so the calls are written here for
either, with the kernel's own checks on what comes out: an `mmap` of nothing is refused, an
`mprotect` of nothing succeeds, and one that ends beyond the last address is refused.

An `mprotect` that comes to a hole fails as well, with the pages before the hole changed.
-/

namespace WinCompat.Memory

open Lib Lib.Paging

/-! ## The two builds -/

inductive Build
  | debug
  | release
  deriving DecidableEq

/-- An addition in `usize`. -/
def Build.add (b : Build) (x y : Nat) : Option Nat :=
  if x + y < 2 ^ 64 then some (x + y)
  else
    match b with
    | .debug => none
    | .release => some ((x + y) % 2 ^ 64)

/-- A subtraction in `usize`. -/
def Build.sub (b : Build) (x y : Nat) : Option Nat :=
  if y ≤ x then some (x - y)
  else
    match b with
    | .debug => none
    | .release => some (x + 2 ^ 64 - y)

/-- `round_up`. -/
def Build.roundUp (b : Build) (n : Nat) : Option Nat := do
  let sum ← b.add n pageSize
  let last ← b.sub sum 1
  return roundDown last pageSize

/-- `mprotect(2)`. -/
def mprotectCall (s : Space) (addr len : Nat) (p : Prot) : Bool × Space :=
  if len = 0 then (true, s)
  else if 2 ^ 64 ≤ addr + len then (false, s)
  else mprotect s (addr / pageSize) (len / pageSize) p

/-- `VirtualAlloc`. `mmap` is the kernel's answer to a length: a page, or a refusal. -/
def virtualAllocIn (b : Build) (p : Process) (_addr size : BitVec 64) (allocType prot : BitVec 32)
    (mmap : Nat → Option Nat) : Option (Nat × Process) :=
  if size = 0 then
    some (0, p)
  else if allocType &&& (memCommit ||| memReserve) = 0 then
    some (0, p)
  else
    (b.roundUp size.toNat).map fun rounded =>
      match mmap rounded with
      | none => (0, p)
      | some page =>
        let linuxProt := winProtToLinux prot
        let space := mapZero p.space page (rounded / pageSize) .readWrite
        let r := if linuxProt = .readWrite then (true, space)
          else mprotectCall space (page * pageSize) rounded linuxProt
        if r.1 then
          (page * pageSize,
            { space := r.2, table := p.table.insert ⟨page * pageSize, rounded, linuxProt⟩ })
        else
          (0, { p with space := unmap r.2 page (rounded / pageSize) })

/-- `VirtualProtect`. -/
def virtualProtectIn (b : Build) (p : Process) (addr size : BitVec 64) (newProt : BitVec 32) :
    Option ((Bool × Option (BitVec 32)) × Process) :=
  if addr = 0 ∨ size = 0 then
    some ((false, none), p)
  else
    let baseAligned := roundDown addr.toNat pageSize
    (do
      let offset ← b.sub addr.toNat baseAligned
      let span ← b.add size.toNat offset
      b.roundUp span).map fun rounded =>
        let old := match p.table.containing addr.toNat with
          | some r => r.prot
          | none => .readWrite
        let linuxProt := winProtToLinux newProt
        let r := mprotectCall p.space baseAligned rounded linuxProt
        if r.1 then
          ((true, some (linuxProtToWin old)),
            { space := r.2, table := p.table.setProt baseAligned linuxProt })
        else
          ((false, none), { p with space := r.2 })

/-! ## Rounding -/

theorem Build.roundUp_of_lt (b : Build) {n : Nat} (h : n + pageSize < 2 ^ 64) :
    b.roundUp n = some (Paging.roundUp n pageSize) := by
  have hpage : 1 ≤ n + pageSize := Nat.le_add_left 1 (n + 4095)
  simp only [Build.roundUp, Build.add, if_pos h, Build.sub, if_pos hpage, Option.bind_eq_bind,
    Option.bind_some]
  rfl

theorem Build.roundUp_debug {n : Nat} (h : ¬ n + pageSize < 2 ^ 64) :
    Build.debug.roundUp n = none := by
  simp only [Build.roundUp, Build.add, if_neg h]
  rfl

/-- The pages of a range that is rounded down and up. -/
theorem inRange_iff_touched {addr size i : Nat} :
    InRange (addr / pageSize) (Paging.roundUp (size + addr % pageSize) pageSize / pageSize) i ↔
      Touched addr size i := by
  unfold InRange Paging.roundUp Touched pageSize
  omega

/-! ## `VirtualAlloc` -/

/-- What `mmap` promises: pages that nobody has, and none for a length of 0. -/
def KernelMaps (s : Space) (mmap : Nat → Option Nat) : Prop :=
  ∀ len page, mmap len = some page → 0 < len ∧ Fresh s page (len / pageSize)

/-- NULL, or the base of new pages, which are the ones recorded and have room for `size` bytes. -/
def AllocSound (p : Process) (size : BitVec 64) : Option (Nat × Process) → Prop
  | none => False
  | some (addr, p') => addr = 0 ∨ ∃ page len prot, addr = page * pageSize ∧
      p'.table.get? addr = some ⟨addr, len, prot⟩ ∧ size.toNat ≤ len ∧ len % pageSize = 0 ∧
      Unmapped p.space page (len / pageSize) ∧ Mapped p'.space page (len / pageSize) ∧
      ∀ i, ¬ InRange page (len / pageSize) i → p'.space i = p.space i

theorem get?_insert (t : AllocTable) (r : Region) : (t.insert r).get? r.base = some r := by
  simp [AllocTable.insert, AllocTable.get?]

/-- The new pages can be given any protection. -/
theorem mprotectCall_fresh {s : Space} {page len : Nat} {prot : Prot} (hlen : len ≠ 0)
    (hfresh : Fresh s page (len / pageSize)) (hwhole : len % pageSize = 0) :
    mprotectCall (mapZero s page (len / pageSize) .readWrite) (page * pageSize) len prot =
      (true, mapZero s page (len / pageSize) prot) := by
  obtain ⟨-, hend, -⟩ := hfresh
  have hlow : ¬ 2 ^ 64 ≤ page * pageSize + len := by
    unfold taskSize pageSize at *
    omega
  have hpage : page * pageSize / pageSize = page := Nat.mul_div_cancel _ (by decide)
  unfold mprotectCall
  rw [if_neg hlen, if_neg hlow, hpage, mprotect_of_mapped (mapped_mapZero s page _ _),
    protect_mapZero]

theorem alloc_sound (b : Build) (p : Process) (addr : BitVec 64) {size : BitVec 64}
    (allocType prot : BitVec 32) {mmap : Nat → Option Nat} (hm : KernelMaps p.space mmap)
    (h : size.toNat + pageSize < 2 ^ 64) :
    AllocSound p size (virtualAllocIn b p addr size allocType prot mmap) := by
  unfold virtualAllocIn
  split_ifs with hzero hflags
  · exact .inl rfl
  · exact .inl rfl
  · rw [b.roundUp_of_lt h, Option.map_some]
    cases hmap : mmap (Paging.roundUp size.toNat pageSize) with
    | none => exact .inl rfl
    | some page =>
      obtain ⟨hlen, hfresh⟩ := hm _ _ hmap
      have hwhole : Paging.roundUp size.toNat pageSize % pageSize = 0 := Nat.mul_mod_left _ _
      have hspace : (if winProtToLinux prot = .readWrite then
            (true, mapZero p.space page (Paging.roundUp size.toNat pageSize / pageSize) .readWrite)
          else mprotectCall
            (mapZero p.space page (Paging.roundUp size.toNat pageSize / pageSize) .readWrite)
            (page * pageSize) (Paging.roundUp size.toNat pageSize) (winProtToLinux prot)) =
          (true, mapZero p.space page (Paging.roundUp size.toNat pageSize / pageSize)
            (winProtToLinux prot)) := by
        split_ifs with hrw
        · rw [hrw]
        · exact mprotectCall_fresh (Nat.ne_of_gt hlen) hfresh hwhole
      simp only [hspace, if_true]
      refine .inr ⟨page, _, _, rfl, get?_insert _ _, ?_, hwhole, hfresh.2.2, ?_, ?_⟩
      · unfold Paging.roundUp pageSize
        omega
      · exact mapped_mapZero _ _ _ _
      · exact fun i hi => mapZero_of_not_inRange hi

/-! ## `VirtualProtect` -/

/-- TRUE, and the protection of exactly the pages of the range has been changed, or FALSE and
    nothing has. -/
def ProtectSound (p : Process) (addr size : BitVec 64) (newProt : BitVec 32) :
    Option ((Bool × Option (BitVec 32)) × Process) → Prop
  | none => False
  | some ((true, _), p') =>
    (∀ i, Touched addr.toNat size.toNat i →
      ∃ pg, p.space i = some pg ∧ p'.space i = some { pg with prot := winProtToLinux newProt }) ∧
    ∀ i, ¬ Touched addr.toNat size.toNat i → p'.space i = p.space i
  | some ((false, old), p') => old = none ∧ p' = p

/-- When `VirtualProtect` does that. -/
def ProtectFits (p : Process) (addr size : BitVec 64) (newProt : BitVec 32) : Prop :=
  let span := size.toNat + addr.toNat % pageSize
  let count := Paging.roundUp span pageSize / pageSize
  addr = 0 ∨ size = 0 ∨ span + pageSize < 2 ^ 64 ∧
    (2 ^ 64 ≤ roundDown addr.toNat pageSize + Paging.roundUp span pageSize ∨
      Mapped p.space (addr.toNat / pageSize) count ∨
      Unaffected p.space (addr.toNat / pageSize) count (winProtToLinux newProt))

variable {addr size : BitVec 64}

variable {newProt : BitVec 32}

/-- The arithmetic when no sum overflows. -/
theorem virtualProtectIn_of_lt (b : Build) (p : Process) (hargs : ¬ (addr = 0 ∨ size = 0))
    (h : size.toNat + addr.toNat % pageSize + pageSize < 2 ^ 64) :
    virtualProtectIn b p addr size newProt =
      let r := mprotectCall p.space (roundDown addr.toNat pageSize)
        (Paging.roundUp (size.toNat + addr.toNat % pageSize) pageSize) (winProtToLinux newProt)
      if r.1 then
        some ((true, some (linuxProtToWin (match p.table.containing addr.toNat with
          | some r => r.prot
          | none => .readWrite))),
          { space := r.2
            table := p.table.setProt (roundDown addr.toNat pageSize) (winProtToLinux newProt) })
      else
        some ((false, none), { p with space := r.2 }) := by
  have hoffset : addr.toNat - roundDown addr.toNat pageSize = addr.toNat % pageSize := by
    unfold roundDown pageSize
    omega
  have hle : roundDown addr.toNat pageSize ≤ addr.toNat := Nat.div_mul_le_self _ _
  have hspan : size.toNat + addr.toNat % pageSize < 2 ^ 64 := by omega
  unfold virtualProtectIn
  rw [if_neg hargs]
  simp only [Build.sub, if_pos hle, hoffset, Build.add, if_pos hspan, b.roundUp_of_lt h,
    Option.bind_eq_bind, Option.bind_some, Option.map_some]
  split <;> rfl

theorem virtualProtectIn_debug (p : Process) (hargs : ¬ (addr = 0 ∨ size = 0))
    (h : ¬ size.toNat + addr.toNat % pageSize + pageSize < 2 ^ 64) :
    virtualProtectIn .debug p addr size newProt = none := by
  have hoffset : addr.toNat - roundDown addr.toNat pageSize = addr.toNat % pageSize := by
    unfold roundDown pageSize
    omega
  have hle : roundDown addr.toNat pageSize ≤ addr.toNat := Nat.div_mul_le_self _ _
  unfold virtualProtectIn
  rw [if_neg hargs]
  simp only [Build.sub, if_pos hle, hoffset, Option.bind_eq_bind, Option.bind_some]
  by_cases hspan : size.toNat + addr.toNat % pageSize < 2 ^ 64
  · simp only [Build.add, if_pos hspan, Option.bind_some, Build.roundUp_debug h, Option.map_none]
  · simp only [Build.add, if_neg hspan, Option.bind_none, Option.map_none]

theorem protect_sound_of_lt (b : Build) (p : Process) (hargs : ¬ (addr = 0 ∨ size = 0))
    (h : size.toNat + addr.toNat % pageSize + pageSize < 2 ^ 64) :
    ProtectSound p addr size newProt (virtualProtectIn b p addr size newProt) ↔
      ProtectFits p addr size newProt := by
  have hzero : ¬ addr = 0 := fun h => hargs (.inl h)
  have hsize : ¬ size = 0 := fun h => hargs (.inr h)
  have hpos : size.toNat ≠ 0 := fun h => hsize (BitVec.eq_of_toNat_eq h)
  have hlen : Paging.roundUp (size.toNat + addr.toNat % pageSize) pageSize ≠ 0 := by
    unfold Paging.roundUp pageSize
    omega
  unfold ProtectFits
  simp only [hzero, hsize, h, false_or, true_and]
  rw [virtualProtectIn_of_lt b p hargs h]
  unfold mprotectCall
  rw [if_neg hlen]
  by_cases htop : 2 ^ 64 ≤ roundDown addr.toNat pageSize +
      Paging.roundUp (size.toNat + addr.toNat % pageSize) pageSize
  · rw [if_pos htop]
    exact iff_of_true ⟨rfl, rfl⟩ (.inl htop)
  · rw [if_neg htop, roundDown_div]
    simp only [htop, false_or]
    by_cases hmapped : Mapped p.space (addr.toNat / pageSize)
        (Paging.roundUp (size.toNat + addr.toNat % pageSize) pageSize / pageSize)
    · rw [mprotect_of_mapped hmapped]
      refine iff_of_true ⟨fun i hi => ?_, fun i hi => ?_⟩ (.inl hmapped)
      · have hin := inRange_iff_touched.mpr hi
        obtain ⟨pg, hpg⟩ := Option.isSome_iff_exists.mp (hmapped i hin)
        refine ⟨pg, hpg, ?_⟩
        dsimp only
        rw [protect_of_inRange hin, hpg]
        rfl
      · exact protect_of_not_inRange fun hin => hi (inRange_iff_touched.mp hin)
    · have hfalse := Bool.eq_false_iff.mpr fun h =>
        hmapped ((@mprotect_fst _ _ (winProtToLinux newProt) p.space).mp h)
      simp only [hfalse, hmapped, false_or, Bool.false_eq_true, if_false]
      rw [← mprotect_snd_eq_iff]
      exact ⟨fun hsound => congrArg Process.space hsound.2, fun hsame => ⟨rfl, by rw [hsame]⟩⟩

theorem protect_sound_iff (p : Process) (addr size : BitVec 64) (newProt : BitVec 32) :
    (∀ b, ProtectSound p addr size newProt (virtualProtectIn b p addr size newProt)) ↔
      ProtectFits p addr size newProt := by
  by_cases hargs : addr = 0 ∨ size = 0
  · refine iff_of_true (fun b => ?_) ?_
    · unfold virtualProtectIn
      rw [if_pos hargs]
      exact ⟨rfl, rfl⟩
    · exact hargs.imp id .inl
  by_cases hspan : size.toNat + addr.toNat % pageSize + pageSize < 2 ^ 64
  · exact (forall_congr' fun b => protect_sound_of_lt b p hargs hspan).trans
      ⟨fun h => h .debug, fun h _ => h⟩
  · refine iff_of_false (fun h => ?_) fun h => ?_
    · have hdebug := h .debug
      rw [virtualProtectIn_debug p hargs hspan] at hdebug
      exact hdebug
    · rcases h with h | h | h
      · exact hargs (.inl h)
      · exact hargs (.inr h)
      · exact hspan h.1

theorem alloc_sound_iff {p : Process} (addr : BitVec 64) (allocType prot : BitVec 32)
    {mmap : Nat → Option Nat} (hm : KernelMaps p.space mmap) :
    (∀ b, AllocSound p size (virtualAllocIn b p addr size allocType prot mmap)) ↔
      size = 0 ∨ allocType &&& (memCommit ||| memReserve) = 0 ∨
        size.toNat + pageSize < 2 ^ 64 := by
  constructor
  · intro h
    by_cases hsize : size = 0
    · exact .inl hsize
    by_cases hflags : allocType &&& (memCommit ||| memReserve) = 0
    · exact .inr (.inl hflags)
    refine .inr (.inr (by_contra fun hsum => ?_))
    have hdebug := h .debug
    unfold virtualAllocIn at hdebug
    rw [if_neg hsize, if_neg hflags, Build.roundUp_debug hsum] at hdebug
    exact hdebug
  · intro h b
    rcases h with hsize | hflags | hsum
    · unfold virtualAllocIn
      rw [if_pos hsize]
      exact .inl rfl
    · unfold virtualAllocIn
      rw [if_pos hflags]
      split_ifs
      · exact .inl rfl
      · exact .inl rfl
    · exact alloc_sound b p addr allocType prot hm hsum

/-! ## The calls the other modules are about -/

theorem virtualProtectIn_eq (b : Build) (p : Process) (newProt : BitVec 32)
    (h : size.toNat + addr.toNat % pageSize + pageSize < 2 ^ 64)
    (htop : roundDown addr.toNat pageSize +
      Paging.roundUp (size.toNat + addr.toNat % pageSize) pageSize < 2 ^ 64) :
    virtualProtectIn b p addr size newProt = virtualProtect p addr size newProt := by
  by_cases hargs : addr = 0 ∨ size = 0
  · unfold virtualProtectIn virtualProtect
    rw [if_pos hargs, if_pos hargs]
  · have hoffset : addr.toNat - roundDown addr.toNat pageSize = addr.toNat % pageSize := by
      unfold roundDown pageSize
      omega
    have hpos : size.toNat ≠ 0 := fun h => hargs (.inr (BitVec.eq_of_toNat_eq h))
    have hlen : Paging.roundUp (size.toNat + addr.toNat % pageSize) pageSize ≠ 0 := by
      unfold Paging.roundUp pageSize
      omega
    have hspan : ¬ 2 ^ 64 ≤ size.toNat + addr.toNat % pageSize := by omega
    rw [virtualProtectIn_of_lt b p hargs h]
    unfold virtualProtect mprotectCall checkedRoundUp
    rw [if_neg hargs, if_neg hlen, if_neg (Nat.not_le.mpr htop)]
    dsimp only
    rw [hoffset, if_neg hspan, if_pos h, Option.map_some]
    split <;> rfl

/-! ## The condition -/

/-- `VirtualAlloc` and `VirtualProtect` of any size, in either build. A build that checks overflow
    panics where the other wraps, so it takes both to be sound. -/
theorem memory_arithmetic_iff (p : Process) :
    (∀ (addr size : BitVec 64) (allocType prot : BitVec 32) (mmap : Nat → Option Nat),
      KernelMaps p.space mmap →
        ((∀ b, AllocSound p size (virtualAllocIn b p addr size allocType prot mmap)) ↔
          size = 0 ∨ allocType &&& (memCommit ||| memReserve) = 0 ∨
            size.toNat + pageSize < 2 ^ 64)) ∧
      ∀ (addr size : BitVec 64) (newProt : BitVec 32),
        (∀ b, ProtectSound p addr size newProt (virtualProtectIn b p addr size newProt)) ↔
          ProtectFits p addr size newProt :=
  ⟨fun addr _ allocType prot _ hm => alloc_sound_iff addr allocType prot hm,
    protect_sound_iff p⟩

/-- The two pages after those of the only allocation, if that is what is asked for. -/
def nextPages (len : Nat) : Option Nat := if len = 0x2000 then some 0x12 else none

theorem nextPages_kernelMaps : KernelMaps twoPages.space nextPages := by
  intro len page h
  obtain ⟨rfl, hpage⟩ := Option.ite_none_right_eq_some.mp h
  cases hpage
  exact ⟨by decide, by decide, by decide, by decide⟩

theorem memory_arithmetic_twoPages :
    (∀ b, AllocSound twoPages 0x1001
      (virtualAllocIn b twoPages 0 0x1001 memCommit pageReadwrite nextPages)) ∧
      ∀ b, ProtectSound twoPages 0x10800 0x1000 pageReadonly
        (virtualProtectIn b twoPages 0x10800 0x1000 pageReadonly) :=
  ⟨((memory_arithmetic_iff twoPages).1 0 0x1001 memCommit pageReadwrite nextPages
      nextPages_kernelMaps).mpr (.inr (.inr (by decide))),
    ((memory_arithmetic_iff twoPages).2 0x10800 0x1000 pageReadonly).mpr
      (.inr (.inr ⟨by decide, .inr (.inl (by decide))⟩))⟩

/-- The debug build panics; in the release build the sum comes to 0, and an `mprotect` of nothing
    is a success; a hole is noticed when the page before it is done. -/
theorem protect_of_everything :
    ¬ AllocSound twoPages 0xFFFFFFFFFFFFFFFF
        (virtualAllocIn .debug twoPages 0 0xFFFFFFFFFFFFFFFF memCommit pageReadwrite nextPages) ∧
      ¬ ProtectSound twoPages 0x10000 0xFFFFFFFFFFFFFFFF pageReadonly
        (virtualProtectIn .release twoPages 0x10000 0xFFFFFFFFFFFFFFFF pageReadonly) ∧
      ¬ ProtectSound twoPages 0x11000 0x2000 pageReadonly
        (virtualProtectIn .release twoPages 0x11000 0x2000 pageReadonly) := by
  have hpage : ∀ i, InRange 0x10 2 i → twoPages.space i = some ⟨.readWrite, fun _ => 0⟩ :=
    fun i hi => @mapZero_of_inRange (fun _ => none) 0x10 2 i .readWrite hi
  refine ⟨fun h => h, fun h => ?_, fun h => ?_⟩
  · obtain ⟨pg, hpg, hchanged⟩ := h.1 0x10 ⟨by decide, by decide⟩
    have hkept : twoPages.space 0x10 = some { pg with prot := winProtToLinux pageReadonly } :=
      hchanged
    rw [hpage 0x10 (by decide)] at hkept
    have hprot : Prot.readWrite = winProtToLinux pageReadonly :=
      congrArg Page.prot (Option.some.inj hkept)
    exact absurd hprot (by decide)
  · have hfits := (protect_sound_of_lt .release twoPages (by decide) (by decide)).mp h
    have hmixed : ¬ Unaffected twoPages.space 0x11 2 (winProtToLinux pageReadonly) := by
      intro hall
      have hprot := hall 0x11 (by decide) (by decide)
      unfold protAt at hprot
      rw [hpage 0x11 (by decide)] at hprot
      exact absurd hprot (by decide)
    rcases hfits with h | h | ⟨-, h | h | h⟩
    · exact absurd h (by decide)
    · exact absurd h (by decide)
    · exact absurd h (by decide)
    · exact absurd h (by decide)
    · exact hmixed h

end WinCompat.Memory
