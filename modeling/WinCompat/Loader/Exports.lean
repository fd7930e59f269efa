import WinCompat.Loader.Module

/-!
# The export table

The second half of `pe-loader/src/dllmod.rs`: the export directory read back from the mapped image,
and a lookup in it. A reader checks only its first byte against the image; what it then finds
beyond the image is read as it is, and as zero where the source would fault.
-/

namespace WinCompat.Loader

open Lib Lib.Paging

/-! ## Arithmetic on RVAs -/

def saturatingAdd (a b : BitVec 32) : BitVec 32 :=
  if a.toNat + b.toNat < 2 ^ 32 then a + b else BitVec.allOnes 32

def saturatingMul (a b : BitVec 32) : BitVec 32 :=
  if a.toNat * b.toNat < 2 ^ 32 then a * b else BitVec.allOnes 32

def checkedAdd (a b : BitVec 32) : Option (BitVec 32) :=
  if a.toNat + b.toNat < 2 ^ 32 then some (a + b) else none

/-- `elem_rva`. -/
def elemRva (arrayRva index elemSize : BitVec 32) : BitVec 32 :=
  saturatingAdd arrayRva (saturatingMul index elemSize)

/-! ## Readers -/

def readU16 (space : Space) (img : MappedImage) (rva : BitVec 32) : Option (BitVec 16) :=
  (img.rvaToPtr rva).map fun p => (loadWord space p 2).setWidth 16

def readU32 (space : Space) (img : MappedImage) (rva : BitVec 32) : Option (BitVec 32) :=
  (img.rvaToPtr rva).map fun p => (loadWord space p 4).setWidth 32

def maxNameLen : Nat := 4096

/-- The loop of `read_bytes_nul`, with the number of turns it has left. -/
def readBytesNulFrom (space : Space) (img : MappedImage) : Nat → BitVec 32 → Option (List Byte)
  | 0, _ => none
  | n + 1, off => do
    let p ← img.rvaToPtr off
    let b := (getByte space p).getD 0
    if b = 0 then
      return []
    else
      let rest ← readBytesNulFrom space img n (← checkedAdd off 1)
      return b :: rest

def readBytesNul (space : Space) (img : MappedImage) (rva : BitVec 32) : Option (List Byte) :=
  readBytesNulFrom space img maxNameLen rva

/-! ## The directory -/

def readExportDirAt (space : Space) (img : MappedImage) (ddOffset : BitVec 32) :
    Option DataDirectory := do
  let rva ← readU32 space img ddOffset
  let size ← readU32 space img (← checkedAdd ddOffset 4)
  if rva = 0 then none else return ⟨rva, size⟩

def locateExportDir (space : Space) (img : MappedImage) : Option DataDirectory := do
  let magicDos ← readU16 space img 0
  if magicDos ≠ 0x5A4D then
    none
  else
    let eLfanew ← readU32 space img 0x3C
    let coff ← checkedAdd eLfanew 4
    let opt ← checkedAdd coff 20
    match ← readU16 space img opt with
    | 0x20B => readExportDirAt space img (← checkedAdd opt 112)
    | 0x10B => readExportDirAt space img (← checkedAdd opt 96)
    | _ => none

/-- The `i`-th named export. -/
def namedExport (space : Space) (img : MappedImage) (addrFunctions addrNames addrOrdinals : BitVec 32)
    (i : BitVec 32) : Option (List Byte × BitVec 32) := do
  let nameRva ← readU32 space img (elemRva addrNames i 4)
  let ordIdx ← readU16 space img (elemRva addrOrdinals i 2)
  let funcRva ← readU32 space img (elemRva addrFunctions (ordIdx.setWidth 32) 4)
  let name ← readBytesNul space img nameRva
  return (name, funcRva)

/-- The loop over the named exports from the `i`-th on, which stops at the first that cannot be
    read. -/
def namedExports (entry : BitVec 32 → Option (List Byte × BitVec 32)) :
    Nat → Nat → List (List Byte × BitVec 32) → List (List Byte × BitVec 32)
  | 0, _, out => out
  | left + 1, i, out =>
    match entry (BitVec.ofNat 32 i) with
    | none => out
    | some e => namedExports entry left (i + 1) (e :: out)

/-- `parse_export_table`. -/
def parseExportTable (space : Space) (img : MappedImage) : ExportTable :=
  match locateExportDir space img with
  | none => ⟨[], [], 1, ⟨0, 0⟩⟩
  | some dir =>
    let field (off : BitVec 32) := readU32 space img (saturatingAdd dir.virtualAddress off)
    match field 16, field 20, field 24, field 28, field 32, field 36 with
    | some ordinalBase, some nFunctions, some nNames, some addrFunctions, some addrNames,
        some addrOrdinals =>
      { names := namedExports (namedExport space img addrFunctions addrNames addrOrdinals)
          nNames.toNat 0 []
        functionRvas := (List.range nFunctions.toNat).filterMap fun i =>
          readU32 space img (elemRva addrFunctions (BitVec.ofNat 32 i) 4)
        ordinalBase := ordinalBase
        exportDir := dir }
    -- Truncated: the image is taken to have no exports.
    | _, _, _, _, _, _ => ⟨[], [], 1, dir⟩

/-! ## Lookup -/

def ExportTable.functionRvaByOrdinal (t : ExportTable) (ordinal : BitVec 32) :
    Option (BitVec 32) :=
  if t.ordinalBase.toNat ≤ ordinal.toNat then
    t.functionRvas[ordinal.toNat - t.ordinalBase.toNat]?
  else
    none

/-- `export_addr`; NULL is 0. -/
def exportAddr (m : LoadedModule) (rva : BitVec 32) : Nat :=
  let dir := m.exports.exportDir
  if rva = 0 ∨ (dir.virtualAddress.toNat ≤ rva.toNat ∧
      rva.toNat < (saturatingAdd dir.virtualAddress dir.size).toNat) then
    0
  else
    (m.image.rvaToPtr rva).getD 0

/-- The part of `GetProcAddress` that is about a registered module. `read_guest_cstring` has cut
    the name off at `maxNameLen` bytes. -/
def LoadedModule.procAddress (m : LoadedModule) : ProcName → Nat
  | .ordinal n =>
    match m.exports.functionRvaByOrdinal (BitVec.ofNat 32 n) with
    | none => 0
    | some rva => exportAddr m rva
  | .name bytes =>
    match m.exports.names.lookup (bytes.take maxNameLen) with
    | none => 0
    | some rva => exportAddr m rva

end WinCompat.Loader
