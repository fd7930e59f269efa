import WinCompat.Loader.Image

/-!
# `apply_relocations`

The relocation directory is a stream of blocks, each a page RVA, a byte count and a row of 16-bit
entries: four bits of type over twelve bits of offset. The walk patches entry by entry and stops at
the first error, keeping what it has done.

Only the first byte of a field is checked against the image, after the RVA has been narrowed to 32
bits. `State.patches` records every store with the entry it was made for; nothing reads it.
-/

namespace WinCompat.Loader

open Lib Lib.Paging

/-- One 16-bit entry, with the page RVA of its block. -/
structure Entry where
  pageRva : BitVec 32
  word : BitVec 16
  deriving DecidableEq

namespace Entry

def typ (e : Entry) : Nat := (e.word >>> 12).toNat

def offset (e : Entry) : Nat := (e.word &&& 0x0FFF).toNat

/-- `page_rva as usize + offset`. -/
def targetRva (e : Entry) : Nat := e.pageRva.toNat + e.offset

/-- `target_rva as u32`. -/
def narrowRva (e : Entry) : BitVec 32 := BitVec.ofNat 32 e.targetRva

end Entry

/-- A store of `width` bytes at `addr`, made for `entry`. -/
structure Patch where
  entry : Entry
  addr : Nat
  width : Nat
  deriving DecidableEq

structure State where
  space : Space
  patches : List Patch

abbrev Reloc (α : Type) := Fallible State MapError α

/-! ## Words in memory -/

def loadWord (s : Space) (a width : Nat) : BitVec 64 :=
  BitVec.ofNat 64 ((loadBytes s a width).foldr (fun b acc => acc * 256 + b.toNat) 0)

/-- The `width` low bytes of a word, least significant first. -/
def lowBytes (v : BitVec 64) (width : Nat) : List Byte :=
  (List.range width).map fun j => v.extractLsb' (8 * j) 8

theorem lowBytes_length (v : BitVec 64) (width : Nat) : (lowBytes v width).length = width := by
  simp [lowBytes]

/-- Add `delta` to the `width`-byte word at `target`. -/
def State.patch (s : State) (e : Entry) (target width : Nat) (delta : BitVec 64) : State where
  space := storeBytes s.space target (lowBytes (loadWord s.space target width + delta) width)
  patches := s.patches ++ [⟨e, target, width⟩]

/-- `apply_one_reloc`, which always returns `Ok`. -/
def applyOneReloc (e : Entry) (target : Nat) (delta : BitVec 64) (s : State) : State :=
  match e.typ with
  -- IMAGE_REL_BASED_DIR64
  | 10 => s.patch e target 8 delta
  -- IMAGE_REL_BASED_HIGHLOW
  | 3 => s.patch e target 4 delta
  -- IMAGE_REL_BASED_LOW
  | 2 => s.patch e target 2 delta
  -- ABSOLUTE is padding; HIGH, HIGHADJ and whatever else there is are logged and skipped.
  | _ => s

/-- The pages of the `span` bytes at `addr` as an address and a length, and the protection they
    are to have afterwards. -/
def unprotectSpan (img : MappedImage) (pe : Pe) (addr span : Nat) : Nat × Nat × Prot :=
  let start := roundDown addr pageSize
  let len := roundUp (addr + span) pageSize - start
  let rva := (BitVec.ofNat 32 (addr - img.base)).toNat
  let owner := pe.sections.find? fun sec =>
    decide (sec.virtualAddress.toNat ≤ rva ∧ rva < sec.virtualAddress.toNat + sec.virtualSize.toNat)
  match owner with
  | some sec => (start, len, { sectionProt sec.name sec.characteristics with read := true })
  | none => (start, len, .readWrite)

/-- The system call, on addresses. -/
def mprotectCall (start len : Nat) (p : Prot) : Reloc Bool :=
  .run fun s =>
    let r := mprotect s.space (start / pageSize) (len / pageSize) p
    (r.1, { s with space := r.2 })

/-- The body of the loop over the entries of a block. -/
def applyEntry (img : MappedImage) (pe : Pe) (delta : BitVec 64) (e : Entry) : Reloc Unit :=
  if e.typ = 0 then
    pure ()
  else
    match img.rvaToPtr e.narrowRva with
    | none => .throw (.relocRvaOutOfRange e.narrowRva)
    | some target => do
      let (flipStart, flipLen, restoreProt) := unprotectSpan img pe target 8
      if ← mprotectCall flipStart flipLen .readWrite then do
        .modify (applyOneReloc e target delta)
        let _ ← mprotectCall flipStart flipLen restoreProt
        pure ()
      else
        .throw (.mprotectFailed "relocation target" flipStart flipLen)

def applyEntries (img : MappedImage) (pe : Pe) (delta : BitVec 64) : List Entry → Reloc Unit
  | [] => pure ()
  | e :: es => do
    applyEntry img pe delta e
    applyEntries img pe delta es

/-! ## Reading the stream -/

def u32At (bs : List Byte) (i : Nat) : BitVec 32 :=
  bs.getD (i + 3) 0 ++ bs.getD (i + 2) 0 ++ bs.getD (i + 1) 0 ++ bs.getD i 0

/-- The entries of a block, two bytes each; a last odd byte is left. -/
def blockEntries (pageRva : BitVec 32) : List Byte → List Entry
  | lo :: hi :: rest => ⟨pageRva, hi ++ lo⟩ :: blockEntries pageRva rest
  | _ => []

/-- The `u32` at 4 is no size of a block that is wholly there. -/
def BadBlock (rest : List Byte) : Prop :=
  (u32At rest 4).toNat < 8 ∨ rest.length < (u32At rest 4).toNat

instance (rest : List Byte) : Decidable (BadBlock rest) := inferInstanceAs (Decidable (_ ∨ _))

/-- The loop over the blocks, on what is left of the stream. -/
def applyBlocks (img : MappedImage) (pe : Pe) (delta : BitVec 64) (rest : List Byte) :
    Reloc Unit :=
  if rest.length < 8 then
    pure ()
  else if BadBlock rest then
    .throw .relocBlockOverflow
  else do
    applyEntries img pe delta
      (blockEntries (u32At rest 0) ((rest.take (u32At rest 4).toNat).drop 8))
    applyBlocks img pe delta (rest.drop (u32At rest 4).toNat)
  termination_by rest.length
  decreasing_by
    unfold BadBlock at *
    rw [List.length_drop]
    omega

/-- The file offset of an RVA. The source parses `bytes` again here, which gives the sections it
    has already. -/
def rvaToFileOffset (bytes : List Byte) (pe : Pe) (rva : BitVec 32) : Option Nat :=
  pe.sections.findSome? fun sec =>
    let va := sec.virtualAddress.toNat
    let rsz := sec.sizeOfRawData.toNat
    let raw := sec.pointerToRawData.toNat
    if va ≤ rva.toNat ∧ rva.toNat < va + max sec.virtualSize.toNat rsz ∧ rva.toNat - va < rsz ∧
        raw + (rva.toNat - va) < bytes.length then
      some (raw + (rva.toNat - va))
    else
      none

/-- `base - preferred_base`. -/
def MappedImage.delta (img : MappedImage) : BitVec 64 :=
  BitVec.ofNat 64 img.base - img.preferredBase

def applyRelocations (img : MappedImage) (bytes : List Byte) (pe : Pe) (dir : DataDirectory) :
    Reloc Unit :=
  if dir.virtualAddress = 0 ∨ dir.size = 0 then
    pure ()
  else if img.delta = 0 then
    pure ()
  else
    match rvaToFileOffset bytes pe dir.virtualAddress with
    | none => .throw (.relocDirOutOfRange dir.virtualAddress)
    | some start =>
      if bytes.length < start + dir.size.toNat then
        .throw (.relocDirOutOfRange dir.virtualAddress)
      else
        applyBlocks img pe img.delta ((bytes.drop start).take dir.size.toNat)

end WinCompat.Loader
