import WinCompat.Lib.Logged
import WinCompat.Loader.Exports

/-!
# What is read of an image for its exports

The readers of `Loader/Exports` again, with a log of the bytes they read; their values are the same
(`value_exportTable`). `Asked` lists the words that the headers, the directory and its arrays make
the loader want, from what is in the image.

A reader checks the first byte of its word only. So everything that is read is in the image exactly
if no wanted word is cut off by the end of the image (`exportReads_inside_iff`).
-/

namespace WinCompat.Loader

open Lib Lib.Paging

/-- A read of `width` bytes. -/
structure Access where
  addr : Nat
  width : Nat
  deriving DecidableEq

abbrev Reading := Logged Access

/-- `[base, base + size)`. -/
def MappedImage.Inside (img : MappedImage) (a : Access) : Prop :=
  img.base ≤ a.addr ∧ a.addr + a.width ≤ img.base + img.size

instance (img : MappedImage) (a : Access) : Decidable (img.Inside a) :=
  inferInstanceAs (Decidable (_ ∧ _))

/-- The word at `rva` begins in the image and does not end there. -/
def MappedImage.CutOff (img : MappedImage) (rva : BitVec 32) (width : Nat) : Prop :=
  rva.toNat < img.size ∧ img.size < rva.toNat + width

/-- The fields of the directory that the loader reads. -/
structure DirectoryFields where
  ordinalBase : BitVec 32
  nFunctions : BitVec 32
  nNames : BitVec 32
  addrFunctions : BitVec 32
  addrNames : BitVec 32
  addrOrdinals : BitVec 32
  deriving DecidableEq

/-- All of them, or none if the directory is truncated. -/
def DirectoryFields.collect (ordinalBase nFunctions nNames addrFunctions addrNames
    addrOrdinals : Option (BitVec 32)) : Option DirectoryFields := do
  return ⟨← ordinalBase, ← nFunctions, ← nNames, ← addrFunctions, ← addrNames, ← addrOrdinals⟩

def directoryFields (space : Space) (img : MappedImage) (dir : DataDirectory) :
    Option DirectoryFields :=
  let field (off : BitVec 32) := readU32 space img (saturatingAdd dir.virtualAddress off)
  DirectoryFields.collect (field 16) (field 20) (field 24) (field 28) (field 32) (field 36)

/-- The optional header, past a DOS header that is one. -/
def optionalHeaderRva (space : Space) (img : MappedImage) : Option (BitVec 32) := do
  let magicDos ← readU16 space img 0
  if magicDos ≠ 0x5A4D then
    none
  else
    let eLfanew ← readU32 space img 0x3C
    let coff ← checkedAdd eLfanew 4
    checkedAdd coff 20

/-- The export entry of the data directories, after a magic that is known. -/
def exportEntryRva (space : Space) (img : MappedImage) : Option (BitVec 32) := do
  let opt ← optionalHeaderRva space img
  match ← readU16 space img opt with
  | 0x20B => checkedAdd opt 112
  | 0x10B => checkedAdd opt 96
  | _ => none

/-! ## The readers with a log -/

namespace Reading

def u16 (space : Space) (img : MappedImage) (rva : BitVec 32) : Reading (BitVec 16) := do
  let p ← .ofOption (img.rvaToPtr rva)
  .tell ⟨p, 2⟩
  return (loadWord space p 2).setWidth 16

def u32 (space : Space) (img : MappedImage) (rva : BitVec 32) : Reading (BitVec 32) := do
  let p ← .ofOption (img.rvaToPtr rva)
  .tell ⟨p, 4⟩
  return (loadWord space p 4).setWidth 32

def bytesNulFrom (space : Space) (img : MappedImage) : Nat → BitVec 32 → Reading (List Byte)
  | 0, _ => .ofOption none
  | n + 1, off => do
    let p ← .ofOption (img.rvaToPtr off)
    .tell ⟨p, 1⟩
    let b := (getByte space p).getD 0
    if b = 0 then
      return []
    else
      let next ← .ofOption (checkedAdd off 1)
      let rest ← bytesNulFrom space img n next
      return b :: rest

def exportDirAt (space : Space) (img : MappedImage) (ddOffset : BitVec 32) :
    Reading DataDirectory := do
  let rva ← u32 space img ddOffset
  let size ← u32 space img (← .ofOption (checkedAdd ddOffset 4))
  if rva = 0 then .ofOption none else return ⟨rva, size⟩

/-- The optional header, past the DOS header. -/
def optionalHeader (space : Space) (img : MappedImage) : Reading (BitVec 32) := do
  let magicDos ← u16 space img 0
  if magicDos ≠ 0x5A4D then
    .ofOption none
  else
    let eLfanew ← u32 space img 0x3C
    let coff ← .ofOption (checkedAdd eLfanew 4)
    .ofOption (checkedAdd coff 20)

/-- The export entry of the data directories. -/
def exportEntry (space : Space) (img : MappedImage) : Reading (BitVec 32) := do
  let opt ← optionalHeader space img
  match ← u16 space img opt with
  | 0x20B => .ofOption (checkedAdd opt 112)
  | 0x10B => .ofOption (checkedAdd opt 96)
  | _ => .ofOption none

def locateExportDir (space : Space) (img : MappedImage) : Reading DataDirectory := do
  exportDirAt space img (← exportEntry space img)

def namedExport (space : Space) (img : MappedImage)
    (addrFunctions addrNames addrOrdinals i : BitVec 32) : Reading (List Byte × BitVec 32) := do
  let nameRva ← u32 space img (elemRva addrNames i 4)
  let ordIdx ← u16 space img (elemRva addrOrdinals i 2)
  let funcRva ← u32 space img (elemRva addrFunctions (ordIdx.setWidth 32) 4)
  let name ← bytesNulFrom space img maxNameLen nameRva
  return (name, funcRva)

def namedExports (entry : BitVec 32 → Reading (List Byte × BitVec 32)) :
    Nat → Nat → List (List Byte × BitVec 32) → Reading (List (List Byte × BitVec 32))
  | 0, _, out => return out
  | left + 1, i, out => do
    match ← (entry (BitVec.ofNat 32 i)).attempt with
    | none => return out
    | some e => namedExports entry left (i + 1) (e :: out)

/-- The readable ones of a list of reads. -/
def filterMap (read : Nat → Reading (BitVec 32)) : List Nat → Reading (List (BitVec 32))
  | [] => return []
  | i :: is => do
    let r ← (read i).attempt
    let rest ← filterMap read is
    return r.toList ++ rest

/-- `parse_export_table`. All six fields are read, also when one of them is missing. -/
def exportTable (space : Space) (img : MappedImage) : Reading ExportTable := do
  match ← (locateExportDir space img).attempt with
  | none => return ⟨[], [], 1, ⟨0, 0⟩⟩
  | some dir =>
    let field (off : BitVec 32) := (u32 space img (saturatingAdd dir.virtualAddress off)).attempt
    let ordinalBase ← field 16
    let nFunctions ← field 20
    let nNames ← field 24
    let addrFunctions ← field 28
    let addrNames ← field 32
    let addrOrdinals ← field 36
    match DirectoryFields.collect ordinalBase nFunctions nNames addrFunctions addrNames
      addrOrdinals with
    | some f =>
      let names ← namedExports
        (namedExport space img f.addrFunctions f.addrNames f.addrOrdinals) f.nNames.toNat 0 []
      let functionRvas ← filterMap
        (fun i => u32 space img (elemRva f.addrFunctions (BitVec.ofNat 32 i) 4))
        (List.range f.nFunctions.toNat)
      return ⟨names, functionRvas, f.ordinalBase, dir⟩
    | none => return ⟨[], [], 1, dir⟩

end Reading

/-! ## The same values -/

variable {space : Space} {img : MappedImage}

@[simp] theorem value_u16 (rva : BitVec 32) :
    (Reading.u16 space img rva).value = readU16 space img rva := by
  unfold Reading.u16 readU16
  cases img.rvaToPtr rva with
  | none => rfl
  | some p => rfl

@[simp] theorem value_u32 (rva : BitVec 32) :
    (Reading.u32 space img rva).value = readU32 space img rva := by
  unfold Reading.u32 readU32
  cases img.rvaToPtr rva with
  | none => rfl
  | some p => rfl

@[simp] theorem value_bytesNulFrom : ∀ (n : Nat) (off : BitVec 32),
    (Reading.bytesNulFrom space img n off).value = readBytesNulFrom space img n off := by
  intro n
  induction n with
  | zero =>
    intro off
    rfl
  | succ n ih =>
    intro off
    unfold Reading.bytesNulFrom readBytesNulFrom
    cases img.rvaToPtr off with
    | none => rfl
    | some p =>
      by_cases hb : (getByte space p).getD 0#8 = 0#8
      · simp [hb]
      · simp [hb, ih]

@[simp] theorem value_exportDirAt (ddOffset : BitVec 32) :
    (Reading.exportDirAt space img ddOffset).value = readExportDirAt space img ddOffset := by
  unfold Reading.exportDirAt readExportDirAt
  simp only [Logged.value_bind, value_u32, Logged.value_ofOption, Option.bind_eq_bind]
  congr 1
  funext rva
  congr 1
  funext at_
  congr 1
  funext size
  split_ifs <;> rfl

@[simp] theorem value_optionalHeader :
    (Reading.optionalHeader space img).value = optionalHeaderRva space img := by
  unfold Reading.optionalHeader optionalHeaderRva
  simp only [Logged.value_bind, value_u16, Option.bind_eq_bind]
  congr 1
  funext magicDos
  split_ifs
  · rfl
  · simp only [Logged.value_bind, value_u32, Logged.value_ofOption]

@[simp] theorem value_exportEntry :
    (Reading.exportEntry space img).value = exportEntryRva space img := by
  unfold Reading.exportEntry exportEntryRva
  simp only [Logged.value_bind, value_optionalHeader, value_u16, Option.bind_eq_bind]
  congr 1
  funext opt
  congr 1
  funext magic
  split
  · rfl
  · rfl
  · simp

/-- The directory is read at its entry. -/
theorem locateExportDir_eq :
    locateExportDir space img = (exportEntryRva space img).bind (readExportDirAt space img) := by
  unfold locateExportDir exportEntryRva optionalHeaderRva
  simp only [Option.bind_eq_bind, Option.bind_assoc]
  congr 1
  funext magicDos
  split_ifs
  · rfl
  · simp only [Option.bind_assoc]
    congr 1
    funext eLfanew
    congr 1
    funext coff
    congr 1
    funext opt
    congr 1
    funext magic
    split
    · rfl
    · rfl
    · simp

@[simp] theorem value_locateExportDir :
    (Reading.locateExportDir space img).value = locateExportDir space img := by
  unfold Reading.locateExportDir
  simp only [Logged.value_bind, value_exportEntry, value_exportDirAt, locateExportDir_eq]

@[simp] theorem value_namedExport (addrFunctions addrNames addrOrdinals i : BitVec 32) :
    (Reading.namedExport space img addrFunctions addrNames addrOrdinals i).value =
      namedExport space img addrFunctions addrNames addrOrdinals i := by
  unfold Reading.namedExport namedExport readBytesNul
  simp [Option.bind_eq_bind]

@[simp] theorem value_namedExports {entry : BitVec 32 → Reading (List Byte × BitVec 32)} :
    ∀ (left i : Nat) (out : List (List Byte × BitVec 32)),
      (Reading.namedExports entry left i out).value =
        some (namedExports (fun j => (entry j).value) left i out) := by
  intro left
  induction left with
  | zero =>
    intro i out
    rfl
  | succ left ih =>
    intro i out
    unfold Reading.namedExports namedExports
    simp only [Logged.value_bind, Logged.value_attempt, Option.bind_some]
    cases (entry (BitVec.ofNat 32 i)).value with
    | none => rfl
    | some e => exact ih (i + 1) (e :: out)

@[simp] theorem value_filterMap {read : Nat → Reading (BitVec 32)} : ∀ is : List Nat,
    (Reading.filterMap read is).value = some (is.filterMap fun i => (read i).value) := by
  intro is
  induction is with
  | nil => rfl
  | cons i is ih =>
    unfold Reading.filterMap
    simp only [Logged.value_bind, Logged.value_attempt, Option.bind_some, ih, List.filterMap_cons]
    cases (read i).value with
    | none => rfl
    | some v => rfl

theorem parseExportTable_of_none {dir : DataDirectory} (h : locateExportDir space img = some dir)
    (hf : directoryFields space img dir = none) :
    parseExportTable space img = ⟨[], [], 1, dir⟩ := by
  unfold parseExportTable
  simp only [h]
  split
  · simp_all [directoryFields, DirectoryFields.collect]
  · rfl

theorem parseExportTable_of_some {dir : DataDirectory} {f : DirectoryFields}
    (h : locateExportDir space img = some dir) (hf : directoryFields space img dir = some f) :
    parseExportTable space img =
      { names := namedExports (namedExport space img f.addrFunctions f.addrNames f.addrOrdinals)
          f.nNames.toNat 0 []
        functionRvas := (List.range f.nFunctions.toNat).filterMap fun i =>
          readU32 space img (elemRva f.addrFunctions (BitVec.ofNat 32 i) 4)
        ordinalBase := f.ordinalBase
        exportDir := dir } := by
  unfold directoryFields DirectoryFields.collect at hf
  simp only [Option.bind_eq_bind, Option.bind_eq_some_iff, Option.pure_def, Option.some.injEq] at hf
  obtain ⟨_, h16, _, h20, _, h24, _, h28, _, h32, _, h36, rfl⟩ := hf
  unfold parseExportTable
  simp only [h, h16, h20, h24, h28, h32, h36]

theorem value_exportTable :
    (Reading.exportTable space img).value = some (parseExportTable space img) := by
  unfold Reading.exportTable
  simp only [Logged.value_bind, Logged.value_attempt, Option.bind_some, value_locateExportDir]
  cases hdir : locateExportDir space img with
  | none =>
    unfold parseExportTable
    rw [hdir]
    rfl
  | some dir =>
    simp only [Logged.value_bind, Logged.value_attempt, Option.bind_some, value_u32]
    cases hf : directoryFields space img dir with
    | none =>
      rw [parseExportTable_of_none hdir hf]
      unfold directoryFields at hf
      simp only [hf]
      rfl
    | some f =>
      rw [parseExportTable_of_some hdir hf]
      unfold directoryFields at hf
      simp only [hf]
      simp

/-! ## The words that are wanted -/

/-- The directory and its fields, if all of it is there. -/
def exportDirectory (space : Space) (img : MappedImage) : Option DirectoryFields := do
  directoryFields space img (← locateExportDir space img)

/-- A word of `width` bytes at an RVA, wanted because of what is in the image. -/
inductive Asked (space : Space) (img : MappedImage) : BitVec 32 → Nat → Prop
  | magicDos : Asked space img 0 2
  | eLfanew (h : readU16 space img 0 = some 0x5A4D) : Asked space img 0x3C 4
  | magicOpt {opt : BitVec 32} (h : optionalHeaderRva space img = some opt) :
      Asked space img opt 2
  | dirRva {dd : BitVec 32} (h : exportEntryRva space img = some dd) : Asked space img dd 4
  | dirSize {dd rva next : BitVec 32} (h : exportEntryRva space img = some dd)
      (hrva : readU32 space img dd = some rva) (hnext : checkedAdd dd 4 = some next) :
      Asked space img next 4
  | field {dir : DataDirectory} {off : BitVec 32} (h : locateExportDir space img = some dir)
      (hoff : off ∈ [16, 20, 24, 28, 32, 36]) :
      Asked space img (saturatingAdd dir.virtualAddress off) 4
  | function {f : DirectoryFields} {i : Nat} (h : exportDirectory space img = some f)
      (hi : i < f.nFunctions.toNat) :
      Asked space img (elemRva f.addrFunctions (BitVec.ofNat 32 i) 4) 4
  /-- The three words of a name, which is wanted if those before it have been found. -/
  | name {f : DirectoryFields} {i : Nat} (h : exportDirectory space img = some f)
      (hi : i < f.nNames.toNat)
      (hbefore : ∀ j < i, (namedExport space img f.addrFunctions f.addrNames f.addrOrdinals
        (BitVec.ofNat 32 j)).isSome) :
      Asked space img (elemRva f.addrNames (BitVec.ofNat 32 i) 4) 4
  | ordinal {f : DirectoryFields} {i : Nat} (h : exportDirectory space img = some f)
      (hi : i < f.nNames.toNat)
      (hbefore : ∀ j < i, (namedExport space img f.addrFunctions f.addrNames f.addrOrdinals
        (BitVec.ofNat 32 j)).isSome)
      (hname : (readU32 space img (elemRva f.addrNames (BitVec.ofNat 32 i) 4)).isSome) :
      Asked space img (elemRva f.addrOrdinals (BitVec.ofNat 32 i) 2) 2
  | nameFunction {f : DirectoryFields} {i : Nat} {ordIdx : BitVec 16}
      (h : exportDirectory space img = some f) (hi : i < f.nNames.toNat)
      (hbefore : ∀ j < i, (namedExport space img f.addrFunctions f.addrNames f.addrOrdinals
        (BitVec.ofNat 32 j)).isSome)
      (hname : (readU32 space img (elemRva f.addrNames (BitVec.ofNat 32 i) 4)).isSome)
      (hord : readU16 space img (elemRva f.addrOrdinals (BitVec.ofNat 32 i) 2) = some ordIdx) :
      Asked space img (elemRva f.addrFunctions (ordIdx.setWidth 32) 4) 4

/-! ## The log -/

/-- The read of a word that begins in the image. -/
def wordAt (img : MappedImage) (rva : BitVec 32) (width : Nat) (a : Access) : Prop :=
  rva.toNat < img.size ∧ a = ⟨img.base + rva.toNat, width⟩

variable {a : Access}

variable {rva : BitVec 32}

theorem mem_log_u16 : a ∈ (Reading.u16 space img rva).log ↔ wordAt img rva 2 a := by
  unfold Reading.u16 MappedImage.rvaToPtr wordAt
  by_cases h : rva.toNat < img.size
  · simp [h]
  · simp [h]

theorem mem_log_u32 : a ∈ (Reading.u32 space img rva).log ↔ wordAt img rva 4 a := by
  unfold Reading.u32 MappedImage.rvaToPtr wordAt
  by_cases h : rva.toNat < img.size
  · simp [h]
  · simp [h]

/-- The bytes of a name are checked one by one. -/
theorem inside_of_mem_bytesNul : ∀ {n : Nat} {off : BitVec 32},
    a ∈ (Reading.bytesNulFrom space img n off).log → img.Inside a := by
  intro n
  induction n with
  | zero =>
    intro off h
    exact absurd h List.not_mem_nil
  | succ n ih =>
    intro off h
    unfold Reading.bytesNulFrom MappedImage.rvaToPtr at h
    by_cases hin : off.toNat < img.size
    · simp only [hin, if_true, Logged.mem_log_bind, Logged.log_ofOption, List.not_mem_nil,
        false_or, Logged.value_ofOption, Option.some.injEq, exists_eq_left', Logged.log_tell,
        List.mem_singleton, Logged.value_tell] at h
      rcases h with rfl | ⟨_, -, h⟩
      · refine ⟨Nat.le_add_right _ _, ?_⟩
        show img.base + off.toNat + 1 ≤ img.base + img.size
        omega
      · split_ifs at h
        · exact absurd h List.not_mem_nil
        · simp only [Logged.mem_log_bind, Logged.log_ofOption, List.not_mem_nil, false_or,
            Logged.log_pure, and_false, exists_false, or_false] at h
          obtain ⟨next, -, h⟩ := h
          exact ih h
    · simp [hin] at h

theorem mem_log_exportDirAt {dd : BitVec 32} :
    a ∈ (Reading.exportDirAt space img dd).log ↔ wordAt img dd 4 a ∨
      ∃ rva next, readU32 space img dd = some rva ∧ checkedAdd dd 4 = some next ∧
        wordAt img next 4 a := by
  unfold Reading.exportDirAt
  simp only [Logged.mem_log_bind, mem_log_u32, value_u32, Logged.log_ofOption, List.not_mem_nil,
    false_or, Logged.value_ofOption]
  refine or_congr_right (exists_congr fun rva => ?_)
  simp only [exists_and_left]
  refine and_congr_right fun _ => exists_congr fun next => and_congr_right fun _ => ?_
  refine or_iff_left ?_
  rintro ⟨size, -, h⟩
  split_ifs at h
  · exact absurd h List.not_mem_nil
  · exact absurd h List.not_mem_nil

theorem mem_log_optionalHeader :
    a ∈ (Reading.optionalHeader space img).log ↔ wordAt img 0 2 a ∨
      (readU16 space img 0 = some 0x5A4D ∧ wordAt img 0x3C 4 a) := by
  unfold Reading.optionalHeader
  simp only [Logged.mem_log_bind, mem_log_u16, value_u16]
  refine or_congr_right ⟨?_, ?_⟩
  · rintro ⟨magicDos, hmagic, h⟩
    split_ifs at h with hdos
    · exact absurd h List.not_mem_nil
    · rw [not_not.mp hdos] at hmagic
      simp only [Logged.mem_log_bind, mem_log_u32, Logged.log_ofOption, List.not_mem_nil,
        and_false, exists_false, or_false] at h
      exact ⟨hmagic, h⟩
  · rintro ⟨hmagic, h⟩
    refine ⟨_, hmagic, ?_⟩
    rw [if_neg fun hne => hne rfl, Logged.mem_log_bind, mem_log_u32]
    exact Or.inl h

theorem mem_log_exportEntry :
    a ∈ (Reading.exportEntry space img).log ↔ a ∈ (Reading.optionalHeader space img).log ∨
      ∃ opt, optionalHeaderRva space img = some opt ∧ wordAt img opt 2 a := by
  unfold Reading.exportEntry
  simp only [Logged.mem_log_bind, mem_log_u16, value_optionalHeader]
  refine or_congr_right (exists_congr fun opt => and_congr_right fun _ => or_iff_left ?_)
  rintro ⟨magic, -, h⟩
  split at h
  · exact absurd h List.not_mem_nil
  · exact absurd h List.not_mem_nil
  · exact absurd h List.not_mem_nil

theorem asked_of_locate (h : a ∈ (Reading.locateExportDir space img).log) :
    ∃ rva width, Asked space img rva width ∧ wordAt img rva width a := by
  unfold Reading.locateExportDir at h
  simp only [Logged.mem_log_bind, mem_log_exportEntry, mem_log_optionalHeader,
    value_exportEntry, mem_log_exportDirAt] at h
  rcases h with ((h | ⟨hmagic, h⟩) | ⟨opt, hopt, h⟩) | ⟨dd, hdd, h | ⟨rva, next, hrva, hnext, h⟩⟩
  · exact ⟨_, _, .magicDos, h⟩
  · exact ⟨_, _, .eLfanew hmagic, h⟩
  · exact ⟨_, _, .magicOpt hopt, h⟩
  · exact ⟨_, _, .dirRva hdd, h⟩
  · exact ⟨_, _, .dirSize hdd hrva hnext, h⟩

theorem mem_log_namedExport {addrFunctions addrNames addrOrdinals i : BitVec 32} :
    a ∈ (Reading.namedExport space img addrFunctions addrNames addrOrdinals i).log ↔
      wordAt img (elemRva addrNames i 4) 4 a ∨
      ∃ nameRva, readU32 space img (elemRva addrNames i 4) = some nameRva ∧
        (wordAt img (elemRva addrOrdinals i 2) 2 a ∨
        ∃ ordIdx, readU16 space img (elemRva addrOrdinals i 2) = some ordIdx ∧
          (wordAt img (elemRva addrFunctions (ordIdx.setWidth 32) 4) 4 a ∨
          ∃ funcRva, readU32 space img (elemRva addrFunctions (ordIdx.setWidth 32) 4) =
            some funcRva ∧ a ∈ (Reading.bytesNulFrom space img maxNameLen nameRva).log)) := by
  unfold Reading.namedExport
  simp only [Logged.mem_log_bind, mem_log_u16, mem_log_u32, value_u16, value_u32, Logged.log_pure,
    List.not_mem_nil, and_false, exists_false, or_false]

theorem mem_log_namedExports {entry : BitVec 32 → Reading (List Byte × BitVec 32)} :
    ∀ {left i : Nat} {out : List (List Byte × BitVec 32)},
      a ∈ (Reading.namedExports entry left i out).log ↔
        ∃ j, i ≤ j ∧ j < i + left ∧
          (∀ k, i ≤ k → k < j → (entry (BitVec.ofNat 32 k)).value.isSome) ∧
          a ∈ (entry (BitVec.ofNat 32 j)).log := by
  intro left
  induction left with
  | zero =>
    intro i out
    refine iff_of_false List.not_mem_nil ?_
    rintro ⟨j, hlow, hhigh, -⟩
    omega
  | succ left ih =>
    intro i out
    unfold Reading.namedExports
    rw [Logged.mem_log_bind]
    simp only [Logged.log_attempt, Logged.value_attempt, Option.some.injEq, exists_eq_left']
    constructor
    · intro h
      rcases h with h | h
      · exact ⟨i, Nat.le_refl i, by omega, fun k hlow hhigh => by omega, h⟩
      · cases hentry : (entry (BitVec.ofNat 32 i)).value with
        | none =>
          rw [hentry] at h
          exact absurd h List.not_mem_nil
        | some e =>
          rw [hentry] at h
          obtain ⟨j, hlow, hhigh, hbefore, hmem⟩ := ih.mp h
          refine ⟨j, by omega, by omega, ?_, hmem⟩
          intro k hk hkj
          by_cases hki : k = i
          · rw [hki, hentry]
            rfl
          · exact hbefore k (by omega) hkj
    · intro h
      obtain ⟨j, hlow, hhigh, hbefore, hmem⟩ := h
      by_cases hji : j = i
      · rw [hji] at hmem
        exact Or.inl hmem
      · obtain ⟨e, he⟩ := Option.isSome_iff_exists.mp (hbefore i (Nat.le_refl i) (by omega))
        rw [he]
        exact Or.inr (ih.mpr
          ⟨j, by omega, by omega, fun k hk hkj => hbefore k (by omega) hkj, hmem⟩)

theorem mem_log_filterMap {read : Nat → Reading (BitVec 32)} : ∀ {is : List Nat},
    a ∈ (Reading.filterMap read is).log ↔ ∃ i ∈ is, a ∈ (read i).log := by
  intro is
  induction is with
  | nil => simp [Reading.filterMap]
  | cons i is ih =>
    unfold Reading.filterMap
    simp [ih]

/-- The reads of the arrays that the directory points to. -/
def ArrayRead (space : Space) (img : MappedImage) (f : DirectoryFields) (a : Access) : Prop :=
  (∃ i < f.nNames.toNat,
    (∀ j < i, (namedExport space img f.addrFunctions f.addrNames f.addrOrdinals
      (BitVec.ofNat 32 j)).isSome) ∧
    a ∈ (Reading.namedExport space img f.addrFunctions f.addrNames f.addrOrdinals
      (BitVec.ofNat 32 i)).log) ∨
  ∃ i < f.nFunctions.toNat, wordAt img (elemRva f.addrFunctions (BitVec.ofNat 32 i) 4) 4 a

theorem mem_log_exportTable :
    a ∈ (Reading.exportTable space img).log ↔ a ∈ (Reading.locateExportDir space img).log ∨
      ∃ dir, locateExportDir space img = some dir ∧
        ((∃ off ∈ [16, 20, 24, 28, 32, 36],
            wordAt img (saturatingAdd dir.virtualAddress off) 4 a) ∨
          ∃ f, directoryFields space img dir = some f ∧ ArrayRead space img f a) := by
  unfold Reading.exportTable
  rw [Logged.mem_log_bind, Logged.log_attempt]
  refine or_congr_right ?_
  simp only [Logged.value_attempt, Option.some.injEq, exists_eq_left', value_locateExportDir]
  cases locateExportDir space img with
  | none => simp
  | some dir =>
    simp only [Option.some.injEq, exists_eq_left', Logged.mem_log_bind, Logged.log_attempt,
      Logged.value_attempt, mem_log_u32, value_u32, List.mem_cons, List.not_mem_nil, or_false,
      exists_eq_or_imp, exists_eq_left, or_assoc]
    iterate 6 refine or_congr_right ?_
    cases hf : directoryFields space img dir with
    | none =>
      unfold directoryFields at hf
      simp only [hf]
      simp
    | some f =>
      unfold directoryFields at hf
      simp only [hf]
      simp only [Logged.mem_log_bind, value_namedExports, value_filterMap, Option.some.injEq,
        exists_eq_left', Logged.log_pure, List.not_mem_nil, or_false, mem_log_namedExports,
        value_namedExport, mem_log_filterMap, mem_log_u32, List.mem_range]
      refine or_congr_left (exists_congr fun i => ?_)
      simp

theorem asked_of_read (h : a ∈ (Reading.exportTable space img).log) :
    (∃ rva width, Asked space img rva width ∧ wordAt img rva width a) ∨ img.Inside a := by
  rcases mem_log_exportTable.mp h with h | ⟨dir, hdir, h⟩
  · exact Or.inl (asked_of_locate h)
  rcases h with ⟨off, hoff, h⟩ | ⟨f, hf, h⟩
  · exact Or.inl ⟨_, _, .field hdir hoff, h⟩
  have hfields : exportDirectory space img = some f := by
    unfold exportDirectory
    rw [hdir]
    exact hf
  rcases h with ⟨i, hi, hbefore, h⟩ | ⟨i, hi, h⟩
  · rcases mem_log_namedExport.mp h with h | ⟨nameRva, hname, h⟩
    · exact Or.inl ⟨_, _, .name hfields hi hbefore, h⟩
    have hread := Option.isSome_iff_exists.mpr ⟨_, hname⟩
    rcases h with h | ⟨ordIdx, hord, h | ⟨funcRva, -, h⟩⟩
    · exact Or.inl ⟨_, _, .ordinal hfields hi hbefore hread, h⟩
    · exact Or.inl ⟨_, _, .nameFunction hfields hi hbefore hread hord, h⟩
    · exact Or.inr (inside_of_mem_bytesNul h)
  · exact Or.inl ⟨_, _, .function hfields hi, h⟩

theorem read_of_asked {width : Nat} (h : Asked space img rva width) (ha : wordAt img rva width a) :
    a ∈ (Reading.exportTable space img).log := by
  have hlocate : a ∈ (Reading.locateExportDir space img).log →
      a ∈ (Reading.exportTable space img).log := fun h => mem_log_exportTable.mpr (Or.inl h)
  have harrays : ∀ {f : DirectoryFields}, exportDirectory space img = some f →
      ArrayRead space img f a → a ∈ (Reading.exportTable space img).log := by
    intro f hf h
    obtain ⟨dir, hdir, hf⟩ := Option.bind_eq_some_iff.mp hf
    exact mem_log_exportTable.mpr (Or.inr ⟨dir, hdir, Or.inr ⟨f, hf, h⟩⟩)
  have hheader : a ∈ (Reading.exportEntry space img).log →
      a ∈ (Reading.exportTable space img).log := fun h =>
    hlocate (Logged.mem_log_bind.mpr (Or.inl h))
  have hentry : ∀ {dd : BitVec 32}, exportEntryRva space img = some dd →
      a ∈ (Reading.exportDirAt space img dd).log → a ∈ (Reading.exportTable space img).log :=
    fun hdd h => hlocate (Logged.mem_log_bind.mpr (Or.inr ⟨_, value_exportEntry.trans hdd, h⟩))
  cases h with
  | magicDos =>
    exact hheader (mem_log_exportEntry.mpr (Or.inl (mem_log_optionalHeader.mpr (Or.inl ha))))
  | eLfanew hmagic =>
    exact hheader (mem_log_exportEntry.mpr
      (Or.inl (mem_log_optionalHeader.mpr (Or.inr ⟨hmagic, ha⟩))))
  | magicOpt hopt => exact hheader (mem_log_exportEntry.mpr (Or.inr ⟨_, hopt, ha⟩))
  | dirRva hdd => exact hentry hdd (mem_log_exportDirAt.mpr (Or.inl ha))
  | dirSize hdd hrva hnext =>
    exact hentry hdd (mem_log_exportDirAt.mpr (Or.inr ⟨_, _, hrva, hnext, ha⟩))
  | field hdir hoff => exact mem_log_exportTable.mpr (Or.inr ⟨_, hdir, Or.inl ⟨_, hoff, ha⟩⟩)
  | function hf hi => exact harrays hf (Or.inr ⟨_, hi, ha⟩)
  | name hf hi hbefore =>
    exact harrays hf (Or.inl ⟨_, hi, hbefore, mem_log_namedExport.mpr (Or.inl ha)⟩)
  | ordinal hf hi hbefore hname =>
    obtain ⟨nameRva, hname⟩ := Option.isSome_iff_exists.mp hname
    exact harrays hf (Or.inl ⟨_, hi, hbefore,
      mem_log_namedExport.mpr (Or.inr ⟨nameRva, hname, Or.inl ha⟩)⟩)
  | nameFunction hf hi hbefore hname hord =>
    obtain ⟨nameRva, hname⟩ := Option.isSome_iff_exists.mp hname
    exact harrays hf (Or.inl ⟨_, hi, hbefore,
      mem_log_namedExport.mpr (Or.inr ⟨nameRva, hname, Or.inr ⟨_, hord, Or.inl ha⟩⟩)⟩)

/-! ## Inside the image -/

theorem namedExports_length_le (entry : BitVec 32 → Option (List Byte × BitVec 32)) :
    ∀ (left i : Nat) (out : List (List Byte × BitVec 32)),
      (namedExports entry left i out).length ≤ out.length + left := by
  intro left
  induction left with
  | zero =>
    intro i out
    exact Nat.le_refl _
  | succ left ih =>
    intro i out
    unfold namedExports
    cases entry (BitVec.ofNat 32 i) with
    | none => exact Nat.le_add_right _ _
    | some e =>
      have hlen := ih (i + 1) (e :: out)
      rw [List.length_cons] at hlen
      show (namedExports entry left (i + 1) (e :: out)).length ≤ _
      omega

/-- The table is empty if the directory is not all there, and else no longer than the directory
    says. -/
structure Curtailed (space : Space) (img : MappedImage) (t : ExportTable) : Prop where
  empty : exportDirectory space img = none → t.names = [] ∧ t.functionRvas = []
  shorter : ∀ f, exportDirectory space img = some f →
    t.names.length ≤ f.nNames.toNat ∧ t.functionRvas.length ≤ f.nFunctions.toNat

theorem parseExportTable_curtailed (space : Space) (img : MappedImage) :
    Curtailed space img (parseExportTable space img) := by
  cases hdir : locateExportDir space img with
  | none =>
    have hnone : exportDirectory space img = none := by
      unfold exportDirectory
      rw [hdir]
      rfl
    have htable : parseExportTable space img = ⟨[], [], 1, ⟨0, 0⟩⟩ := by
      unfold parseExportTable
      rw [hdir]
    rw [htable]
    refine ⟨fun _ => ⟨rfl, rfl⟩, fun f hf => ?_⟩
    rw [hnone] at hf
    cases hf
  | some dir =>
    have hsome : exportDirectory space img = directoryFields space img dir := by
      unfold exportDirectory
      rw [hdir]
      rfl
    cases hf : directoryFields space img dir with
    | none =>
      rw [parseExportTable_of_none hdir hf]
      refine ⟨fun _ => ⟨rfl, rfl⟩, fun f hf' => ?_⟩
      rw [hsome, hf] at hf'
      cases hf'
    | some f =>
      rw [parseExportTable_of_some hdir hf]
      constructor
      · intro hnone
        rw [hsome, hf] at hnone
        cases hnone
      intro f' hf'
      rw [hsome, hf] at hf'
      cases hf'
      constructor
      · have hlen := namedExports_length_le
          (namedExport space img f.addrFunctions f.addrNames f.addrOrdinals) f.nNames.toNat 0 []
        rwa [List.length_nil, Nat.zero_add] at hlen
      · have hlen := List.length_filterMap_le
          (fun i => readU32 space img (elemRva f.addrFunctions (BitVec.ofNat 32 i) 4))
          (List.range f.nFunctions.toNat)
        rwa [List.length_range] at hlen

/-- Parsing reads only the image, and makes the most of what is there. -/
structure ReadsInside (space : Space) (img : MappedImage) : Prop where
  inside : ∀ a ∈ (Reading.exportTable space img).log, img.Inside a
  result : ∃ t, (Reading.exportTable space img).value = some t ∧ Curtailed space img t

/-- Everything read is in the image exactly if no wanted word is cut off by its end: the check is on
    the first byte of a word. The log is tied to the code's own readers by `value_exportTable`. -/
theorem exportReads_inside_iff (space : Space) (img : MappedImage) :
    ReadsInside space img ↔
      ∀ rva width, Asked space img rva width → ¬ img.CutOff rva width := by
  constructor
  · intro hreads rva width hasked hcut
    have hin := hreads.inside _ (read_of_asked hasked ⟨hcut.1, rfl⟩)
    have hout := hcut.2
    have hle : img.base + rva.toNat + width ≤ img.base + img.size := hin.2
    omega
  · intro hasked
    refine ⟨?_, _, value_exportTable, parseExportTable_curtailed space img⟩
    intro a ha
    rcases asked_of_read ha with ⟨rva, width, hrva, hlt, rfl⟩ | hin
    · have hfits := hasked rva width hrva
      unfold MappedImage.CutOff at hfits
      refine ⟨Nat.le_add_right _ _, ?_⟩
      show img.base + rva.toNat + width ≤ img.base + img.size
      omega
    · exact hin

/-! ## A header at the end of the image -/

/-- One page that begins with a DOS header and has the optional header in its last byte. -/
def tailHeader : MappedImage := ⟨0x10, 0x1000, 0x180000000, by decide⟩

def tailHeaderSpace : Space :=
  storeBytes (storeBytes (mapZero (fun _ => none) 0x10 1 .readWrite) 0x10000 [0x4D, 0x5A])
    0x1003C [0xE7, 0x0F, 0, 0]

/-- Its magic number is read across the end. -/
theorem tailHeader_not_readsInside : ¬ ReadsInside tailHeaderSpace tailHeader := by
  intro h
  have hread : (⟨0x10FFF, 2⟩ : Access) ∈ (Reading.exportTable tailHeaderSpace tailHeader).log := by
    decide
  exact absurd (h.inside _ hread) (by decide)

end WinCompat.Loader
