import WinCompat.Lib.Fallible
import WinCompat.Lib.Paging

/-!
# Mapped images

`pe-loader/src/mapping.rs`. `Pe` is the part of the parsed file that the loader reads back after
mapping. A `MappedImage` is page-aligned, and since its size is a `u32` rounded up to a page it is
at most `2^32` bytes long.
-/

namespace WinCompat.Loader

open Lib Lib.Paging

structure Section where
  /-- `sec.name().unwrap_or("")`. -/
  name : String
  virtualAddress : BitVec 32
  virtualSize : BitVec 32
  sizeOfRawData : BitVec 32
  pointerToRawData : BitVec 32
  characteristics : BitVec 32
  deriving DecidableEq

/-- goblin's view of the file, as far as mapping reads it. -/
structure Pe where
  sections : List Section
  deriving DecidableEq

structure DataDirectory where
  virtualAddress : BitVec 32
  size : BitVec 32
  deriving DecidableEq

structure MappedImage where
  /-- A page number: the mapping starts there. -/
  basePage : Nat
  size : Nat
  preferredBase : BitVec 64
  size_le : size ≤ 2 ^ 32

/-- The address the image is mapped at. -/
def MappedImage.base (img : MappedImage) : Nat := img.basePage * pageSize

def MappedImage.rvaToPtr (img : MappedImage) (rva : BitVec 32) : Option Nat :=
  if rva.toNat < img.size then some (img.base + rva.toNat) else none

/-- The errors relocation can report. The kernel's only refusal here is `ENOMEM`. -/
inductive MapError
  | mprotectFailed (section_ : String) (addr : Nat) (len : Nat)
  | relocRvaOutOfRange (rva : BitVec 32)
  | relocBlockOverflow
  | relocDirOutOfRange (rva : BitVec 32)
  deriving DecidableEq

/-- Section characteristics as `mprotect` flags: never both writable and executable. -/
def sectionProt (name : String) (characteristics : BitVec 32) : Prot :=
  let executable := characteristics &&& 0x20000000 ≠ 0
  let readable := characteristics &&& 0x40000000 ≠ 0
  let writable := characteristics &&& 0x80000000 ≠ 0
  { read := decide readable || !decide executable
    write := decide writable && !decide executable
    exec := decide executable && !name.startsWith ".debug" }

end WinCompat.Loader
