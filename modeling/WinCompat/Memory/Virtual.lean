import Mathlib.Data.List.MinMax
import WinCompat.Lib.Paging

/-!
# `VirtualAlloc`, `VirtualFree`, `VirtualProtect`, `VirtualQuery`

`ntapi/src/memory.rs`. A table keeps one record per allocation, with one protection for the whole
of it; the kernel keeps one per page. A call takes its guest arguments as 64-bit words and computes
in `usize`; `none` stands for a sum that overflows (a debug build panics there, a release build
wraps).

What the kernel decides is an argument too: where an `mmap` lands, and whether the `mmap` of a
decommit is refused.
-/

namespace WinCompat.Memory

open Lib.Paging

/-! ## Flags -/

def memCommit : BitVec 32 := 0x00001000
def memReserve : BitVec 32 := 0x00002000
def memDecommit : BitVec 32 := 0x00004000
def memRelease : BitVec 32 := 0x00008000

def pageNoaccess : BitVec 32 := 0x01
def pageReadonly : BitVec 32 := 0x02
def pageReadwrite : BitVec 32 := 0x04
def pageExecute : BitVec 32 := 0x10
def pageExecuteRead : BitVec 32 := 0x20
def pageExecuteReadwrite : BitVec 32 := 0x40

/-- `MEM_PRIVATE`. -/
def memPrivate : BitVec 32 := 0x00020000

def winProtToLinux (prot : BitVec 32) : Prot :=
  if prot = pageNoaccess then
    .noAccess
  else
    { read := decide (prot &&& (pageReadwrite ||| pageExecuteReadwrite) ≠ 0) ||
        decide (prot &&& (pageReadonly ||| pageExecuteRead) ≠ 0)
      write := decide (prot &&& (pageReadwrite ||| pageExecuteReadwrite) ≠ 0)
      exec := decide (prot &&& (pageExecute ||| pageExecuteRead ||| pageExecuteReadwrite) ≠ 0) }

def linuxProtToWin (p : Prot) : BitVec 32 :=
  match p.read, p.write, p.exec with
  | false, false, false => pageNoaccess
  | true, false, false => pageReadonly
  | true, true, false => pageReadwrite
  | true, false, true => pageExecuteRead
  | true, true, true => pageExecuteReadwrite
  | false, false, true => pageExecute
  | false, true, _ => pageReadwrite

/-! ## The table -/

/-- A tracked allocation: its base, its size, and one protection. -/
structure Region where
  base : Nat
  size : Nat
  prot : Prot
  deriving DecidableEq

/-- The map from base addresses to regions. -/
abbrev AllocTable := List Region

namespace AllocTable

def insert (t : AllocTable) (r : Region) : AllocTable :=
  r :: t.filter fun r' => r'.base ≠ r.base

def get? (t : AllocTable) (base : Nat) : Option Region :=
  t.find? fun r => r.base = base

def remove (t : AllocTable) (base : Nat) : AllocTable :=
  t.filter fun r => r.base ≠ base

/-- The record with the last base at or below `addr`, if it reaches `addr`. -/
def containing (t : AllocTable) (addr : Nat) : Option Region :=
  ((t.filter fun r => r.base ≤ addr).argmax Region.base).filter fun r =>
    r.base ≤ addr ∧ addr < r.base + r.size

/-- The record at `base`, if there is one, with its protection changed. -/
def setProt (t : AllocTable) (base : Nat) (p : Prot) : AllocTable :=
  t.map fun r => if r.base = base then { r with prot := p } else r

end AllocTable

structure Process where
  space : Space
  table : AllocTable

/-! ## The calls -/

/-- `round_up`; the first sum is `n + page`. -/
def checkedRoundUp (n : Nat) : Option Nat :=
  if n + pageSize < 2 ^ 64 then some (roundUp n pageSize) else none

/-- `munmap`: `none` is a refusal (`EINVAL`). -/
def munmapCall (s : Space) (addr len : Nat) : Option Space :=
  if len = 0 ∨ taskSize < addr + len then
    none
  else
    some (unmap s (addr / pageSize) (len / pageSize))

/-- `VirtualAlloc`. `mmap` is the page the kernel maps at, `none` when it refuses. The result is the
    base address, 0 for NULL. -/
def virtualAlloc (p : Process) (size : BitVec 64) (allocType prot : BitVec 32)
    (mmap : Option Nat) : Option (Nat × Process) :=
  if size = 0 then
    some (0, p)
  else if allocType &&& (memCommit ||| memReserve) = 0 then
    some (0, p)
  else
    (checkedRoundUp size.toNat).map fun rounded =>
      match mmap with
      | none => (0, p)
      | some page =>
        let linuxProt := winProtToLinux prot
        let count := rounded / pageSize
        let space := mapZero p.space page count .readWrite
        let r := if linuxProt = .readWrite then (true, space) else mprotect space page count linuxProt
        if r.1 then
          (page * pageSize,
            { space := r.2, table := p.table.insert ⟨page * pageSize, rounded, linuxProt⟩ })
        else
          (0, { p with space := unmap r.2 page count })

/-- `VirtualFree`; the result says TRUE or FALSE. -/
def virtualFree (p : Process) (addr size : BitVec 64) (freeType : BitVec 32)
    (remapRefused : Bool) : Option (Bool × Process) :=
  if addr = 0 then
    some (false, p)
  else if freeType &&& memRelease ≠ 0 then
    match p.table.get? addr.toNat with
    | none => some (false, p)
    | some r =>
      match munmapCall p.space addr.toNat r.size with
      | none => some (false, { p with table := p.table.remove addr.toNat })
      | some space => some (true, { space, table := p.table.remove addr.toNat })
  else if freeType &&& memDecommit ≠ 0 then
    if size = 0 then
      some (false, p)
    else
      (checkedRoundUp size.toNat).map fun rounded =>
        let baseAligned := roundDown addr.toNat pageSize
        match munmapCall p.space baseAligned rounded with
        | none => (false, p)
        | some space =>
          if remapRefused then
            (false, { p with space })
          else
            (true, { p with
              space := mapZero space (baseAligned / pageSize) (rounded / pageSize) .noAccess })
  else
    some (false, p)

/-- `VirtualProtect`: TRUE or FALSE, and what it writes through `lpflOldProtect`. -/
def virtualProtect (p : Process) (addr size : BitVec 64) (newProt : BitVec 32) :
    Option ((Bool × Option (BitVec 32)) × Process) :=
  if addr = 0 ∨ size = 0 then
    some ((false, none), p)
  else
    let baseAligned := roundDown addr.toNat pageSize
    let span := size.toNat + (addr.toNat - baseAligned)
    if 2 ^ 64 ≤ span then
      none
    else
      (checkedRoundUp span).map fun rounded =>
        let old := match p.table.containing addr.toNat with
          | some r => r.prot
          | none => .readWrite
        let linuxProt := winProtToLinux newProt
        let r := mprotect p.space (baseAligned / pageSize) (rounded / pageSize) linuxProt
        if r.1 then
          ((true, some (linuxProtToWin old)),
            { space := r.2, table := p.table.setProt baseAligned linuxProt })
        else
          ((false, none), { p with space := r.2 })

/-- The fields that are filled in. -/
structure MemoryBasicInformation where
  baseAddress : Nat
  allocationBase : Nat
  allocationProtect : BitVec 32
  regionSize : Nat
  state : BitVec 32
  protect : BitVec 32
  type : BitVec 32
  deriving DecidableEq

/-- `VirtualQuery` with a buffer of `length` bytes; `none` is a return value of 0. -/
def virtualQuery (p : Process) (addr : BitVec 64) (length : Nat) :
    Option MemoryBasicInformation :=
  if length < 48 then
    none
  else
    (p.table.containing addr.toNat).map fun r =>
      { baseAddress := r.base
        allocationBase := r.base
        allocationProtect := pageReadwrite
        regionSize := r.size
        state := memCommit
        protect := linuxProtToWin r.prot
        type := memPrivate }

end WinCompat.Memory
