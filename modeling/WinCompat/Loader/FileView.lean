import WinCompat.Loader.Mapping

/-!
# Two views of a file

An RVA is looked up in the file by `rva_to_file_offset`, which goes by the raw size of a section,
and in memory by where mapping has put it, which goes by the virtual size. `mappedFrom` is the
second translation; the two agree where no section has raw data past its virtual size
(`consistent_of_fits`).

Past the virtual size the file goes on with raw data, and memory with zeros, the headers or another
section. The relocation directory is read from the file, up to an end that is checked against the
length of the file and not against its section.
-/

namespace WinCompat.Loader

open Lib Lib.Paging

/-! ## The views -/

/-- The offset in the file that mapping takes the byte at an RVA from, if it takes it from there. -/
def mappedFrom (f : DllFile) (r : Nat) : Option Nat :=
  match sectionAt f.file.pe.sections r with
  | some sec =>
    if r - sec.virtualAddress.toNat < sec.sizeOfRawData.toNat ∧
        sec.pointerToRawData.toNat + (r - sec.virtualAddress.toNat) < f.bytes.length then
      some (sec.pointerToRawData.toNat + (r - sec.virtualAddress.toNat))
    else
      none
  | none => if r < f.opt.sizeOfHeaders.toNat ∧ r < f.bytes.length then some r else none

/-- Where in the file `apply_relocations` begins to walk, if it comes to that. -/
def relocStart (img : MappedImage) (bytes : List Byte) (pe : Pe) (dir : DataDirectory) :
    Option Nat :=
  if dir.virtualAddress = 0 ∨ dir.size = 0 ∨ img.delta = 0 then
    none
  else
    (rvaToFileOffset bytes pe dir.virtualAddress).filter fun start =>
      start + dir.size.toNat ≤ bytes.length

/-- The image has a byte at an RVA. -/
def ImageHas (img : MappedImage) (t : Space) (r : Nat) (b : Byte) : Prop :=
  r < img.size ∧ getByte t (img.base + r) = some b

/-- What the file has for an RVA the image has there, and what is walked as the relocation directory
    is what the image has as the directory. -/
structure ViewsAgree (f : DllFile) (img : MappedImage) (dir : DataDirectory) (t : Space) :
    Prop where
  bytes : ∀ r off, rvaToFileOffset f.bytes f.file.pe r = some off →
    ImageHas img t r.toNat (f.bytes.getD off 0)
  directory : ∀ start, relocStart img f.bytes f.file.pe dir = some start →
    ∀ j < dir.size.toNat, ImageHas img t (dir.virtualAddress.toNat + j)
      (((f.bytes.drop start).take dir.size.toNat).getD j 0)

/-- An RVA is in the image, and mapping takes its byte from the offset, or finds the same byte
    elsewhere. -/
def Shown (f : DllFile) (size r off : Nat) : Prop :=
  r < size ∧
    (mappedFrom f r = some off ∨
      ((mappedFrom f r).map fun off' => f.bytes.getD off' 0).getD 0 = f.bytes.getD off 0)

/-- What the file view accepts is shown. -/
structure Consistent (f : DllFile) (img : MappedImage) (dir : DataDirectory) : Prop where
  bytes : ∀ r off, rvaToFileOffset f.bytes f.file.pe r = some off → Shown f img.size r.toNat off
  directory : ∀ start, relocStart img f.bytes f.file.pe dir = some start →
    ∀ j < dir.size.toNat, Shown f img.size (dir.virtualAddress.toNat + j) (start + j)

/-! ## They agree where what is read is shown -/

variable {f : DllFile} {page : Nat} {s : Space} {r off : Nat}

theorem imageBytes_eq {size : Nat} (hdisj : Disjoint f.file.pe.sections) (hr : r < size) :
    imageBytes f size r = ((mappedFrom f r).map fun off => f.bytes.getD off 0).getD 0 := by
  unfold mappedFrom
  cases hat : sectionAt f.file.pe.sections r with
  | none =>
    rw [imageBytes_of_outside (sectionAt_none hat)]
    simp only [headerStroke, lt_min_iff, hr, and_true]
    split_ifs <;> rfl
  | some sec =>
    obtain ⟨hmem, hin⟩ := sectionAt_some hat
    rw [imageBytes_of_contains hdisj hmem hin hr]
    unfold Section.fileByte
    dsimp only
    split_ifs <;> rfl

theorem imageHas_iff (hdisj : Disjoint f.file.pe.sections) :
    ImageHas (f.imageAt page) (mapImageAt f page s).2 r (f.bytes.getD off 0) ↔
      Shown f (f.imageAt page).size r off := by
  unfold ImageHas Shown
  refine and_congr_right fun hr => ?_
  rw [getByte_mapImageAt f page s hr, imageBytes_eq hdisj hr, Option.some.injEq]
  refine ⟨Or.inr, fun h => h.elim (fun hsame => ?_) id⟩
  rw [hsame]
  rfl

/-- The file and the mapped image agree exactly if what the file view accepts is shown, byte by byte
    and for the directory that is read from the file. -/
theorem views_agree_iff (f : DllFile) (page : Nat) (s : Space) (dir : DataDirectory)
    (hdisj : Disjoint f.file.pe.sections) :
    ViewsAgree f (f.imageAt page) dir (mapImageAt f page s).2 ↔
      Consistent f (f.imageAt page) dir := by
  have hslice : ∀ start j, j < dir.size.toNat →
      ((f.bytes.drop start).take dir.size.toNat).getD j 0 = f.bytes.getD (start + j) 0 := by
    intro start j hj
    simp [List.getD, hj]
  constructor
  · intro h
    constructor
    · intro r off hoff
      exact (imageHas_iff hdisj).mp (h.bytes r off hoff)
    · intro start hstart j hj
      have hhas := h.directory start hstart j hj
      rw [hslice start j hj] at hhas
      exact (imageHas_iff hdisj).mp hhas
  · intro h
    constructor
    · intro r off hoff
      exact (imageHas_iff hdisj).mpr (h.bytes r off hoff)
    · intro start hstart j hj
      rw [hslice start j hj]
      exact (imageHas_iff hdisj).mpr (h.directory start hstart j hj)

/-! ## Sections without an overhang -/

/-- The raw data is within the virtual size, and this within the image. -/
structure Section.Fits (size : Nat) (sec : Section) : Prop where
  raw : sec.sizeOfRawData.toNat ≤ sec.virtualSize.toNat
  image : sec.virtualAddress.toNat + sec.virtualSize.toNat ≤ size

theorem mappedFrom_of_contains (hdisj : Disjoint f.file.pe.sections) {sec : Section}
    (hmem : sec ∈ f.file.pe.sections) (hin : sec.Contains r)
    (hraw : r - sec.virtualAddress.toNat < sec.sizeOfRawData.toNat)
    (hfile : sec.pointerToRawData.toNat + (r - sec.virtualAddress.toNat) < f.bytes.length) :
    mappedFrom f r = some (sec.pointerToRawData.toNat + (r - sec.virtualAddress.toNat)) := by
  unfold mappedFrom
  rw [sectionAt_of_contains hdisj hmem hin]
  exact if_pos ⟨hraw, hfile⟩

/-- What the file view goes by. -/
theorem rvaToFileOffset_some {bytes : List Byte} {pe : Pe} {rva : BitVec 32}
    (h : rvaToFileOffset bytes pe rva = some off) :
    ∃ sec ∈ pe.sections, sec.virtualAddress.toNat ≤ rva.toNat ∧
      rva.toNat - sec.virtualAddress.toNat < sec.sizeOfRawData.toNat ∧
      off = sec.pointerToRawData.toNat + (rva.toNat - sec.virtualAddress.toNat) ∧
      off < bytes.length := by
  obtain ⟨sec, hmem, hsec⟩ := List.exists_of_findSome?_eq_some h
  dsimp only at hsec
  split_ifs at hsec with hfound
  obtain rfl := Option.some.inj hsec
  exact ⟨sec, hmem, hfound.1, hfound.2.2.1, rfl, hfound.2.2.2⟩

theorem consistent_of_fits {img : MappedImage} {dir : DataDirectory}
    (hdisj : Disjoint f.file.pe.sections) (hfits : ∀ sec ∈ f.file.pe.sections, sec.Fits img.size)
    (hdir : ∀ sec ∈ f.file.pe.sections, sec.Contains dir.virtualAddress.toNat →
      dir.virtualAddress.toNat + dir.size.toNat ≤
        sec.virtualAddress.toNat + sec.sizeOfRawData.toNat) :
    Consistent f img dir where
  bytes := by
    intro r off hoff
    obtain ⟨sec, hmem, hlow, hraw, rfl, hfile⟩ := rvaToFileOffset_some hoff
    have hle := (hfits sec hmem).raw
    have himage := (hfits sec hmem).image
    refine ⟨by omega, Or.inl ?_⟩
    exact mappedFrom_of_contains hdisj hmem ⟨hlow, by omega⟩ hraw hfile
  directory := by
    intro start hstart j hj
    unfold relocStart at hstart
    split_ifs at hstart
    obtain ⟨hoff, hlen⟩ := Option.filter_eq_some_iff.mp hstart
    obtain ⟨sec, hmem, hlow, hraw, rfl, -⟩ := rvaToFileOffset_some hoff
    have hlen := of_decide_eq_true hlen
    have hle := (hfits sec hmem).raw
    have himage := (hfits sec hmem).image
    have hwithin := hdir sec hmem ⟨hlow, by omega⟩
    have hsum : sec.pointerToRawData.toNat + (dir.virtualAddress.toNat + j -
        sec.virtualAddress.toNat) = sec.pointerToRawData.toNat +
          (dir.virtualAddress.toNat - sec.virtualAddress.toNat) + j := by
      omega
    refine ⟨by omega, Or.inl ?_⟩
    rw [← hsum]
    apply mappedFrom_of_contains hdisj hmem
    · constructor
      · omega
      · omega
    · omega
    · omega

theorem views_agree_iff_plainFile :
    Disjoint plainFile.file.pe.sections ∧
    ViewsAgree plainFile (plainFile.imageAt 0x10000) ⟨0x1000, 0x10⟩
      (mapImageAt plainFile 0x10000 fun _ => none).2 := by
  have hdisj : Disjoint plainFile.file.pe.sections := (laid_codeFile _ _).disjoint
  refine ⟨hdisj, ?_⟩
  apply (views_agree_iff plainFile 0x10000 (fun _ => none) ⟨0x1000, 0x10⟩ hdisj).mpr
  apply consistent_of_fits hdisj
  · intro sec hmem
    rw [List.mem_singleton.mp hmem]
    exact ⟨by decide, by decide⟩
  · intro sec hmem _
    rw [List.mem_singleton.mp hmem]
    decide

/-! ## A section with an overhang -/

/-- Sixteen bytes of code, in a section whose raw data fills a sector. -/
def shortSection : Section := ⟨".text", 0x1000, 0x10, 0x200, 0x200, 0x60000020⟩

/-- The headers of `plainFile`, but for the virtual size of the section, and the code. -/
def shortBytes : List Byte :=
  (codeHeaders (List.replicate 8 0)).take 336 ++ [0x10, 0, 0, 0] ++
    (codeHeaders (List.replicate 8 0)).drop 340 ++ List.replicate 512 0xC3

def shortFile : DllFile where
  bytes := shortBytes
  file := ⟨⟨[shortSection]⟩, 0x2022, some ⟨0, 0x180000000, 0x2000, 0x200, none⟩, []⟩
  opt := ⟨0, 0x180000000, 0x2000, 0x200, none⟩

/-- Behind the sixteen bytes the file has more code, and memory zeros. -/
theorem shortFile_views_differ :
    Disjoint shortFile.file.pe.sections ∧
    ¬ ViewsAgree shortFile (shortFile.imageAt 0x10000) ⟨0, 0⟩
      (mapImageAt shortFile 0x10000 fun _ => none).2 := by
  have hdisj : Disjoint shortFile.file.pe.sections := List.pairwise_singleton _ _
  refine ⟨hdisj, ?_⟩
  intro hagree
  have hoff : rvaToFileOffset shortFile.bytes shortFile.file.pe 0x1010 = some 0x210 := by
    decide +kernel
  have hhas := hagree.bytes 0x1010 0x210 hoff
  obtain ⟨-, hshown⟩ := (imageHas_iff hdisj).mp hhas
  have hnone : mappedFrom shortFile 0x1010 = none := by decide +kernel
  have hbyte : shortFile.bytes.getD 0x210 0 = 0xC3 := by decide +kernel
  have hrva : (0x1010 : BitVec 32).toNat = 0x1010 := rfl
  rw [hrva, hnone, hbyte] at hshown
  rcases hshown with hfrom | hsame
  · cases hfrom
  · exact absurd hsame (by decide)

end WinCompat.Loader
