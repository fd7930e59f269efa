import WinCompat.Lib.Painter
import WinCompat.Loader.ExecPages

/-!
# What mapping copies

Nothing is known of the sizes in a section header, and what keeps the calls that copy inside the
file and the mapping is that every length is the least of what is left there (`imageFills_inside`).
Painted one over the other, the calls make each byte what the last section to have it in its virtual
range makes it, and where there is none what the headers do (`getByte_mapImageAt`).
-/

namespace WinCompat.Loader

open Lib Lib.Paging Lib.Painter

/-! ## The calls are strokes -/

namespace Fill

/-- What the call gives the byte at an offset of the mapping. -/
def stroke (bytes : List Byte) (a : Fill) : Stroke Nat Byte := fun r =>
  if a.start ≤ r ∧ r < a.start + (a.content bytes).length then
    some ((a.content bytes).getD (r - a.start) 0)
  else
    none

end Fill

/-- All the calls of `map_image_with_preferred_base`, in order. -/
def imageFills (f : DllFile) (size : Nat) : List Fill := .zero 0 size :: copyFills f size

theorem imageFills_inside (f : DllFile) (size : Nat) :
    ∀ a ∈ imageFills f size, a.Inside f.bytes.length size :=
  List.forall_mem_cons.mpr ⟨Nat.le_of_eq (Nat.zero_add size), copyFills_inside f size⟩

/-- Memory after the calls. -/
def runFills (f : DllFile) (img : MappedImage) (space : Space) : Space :=
  (imageFills f img.size).foldl (Fill.run f.bytes img.base) space

variable {f : DllFile} {img : MappedImage} {page : Nat} {s : Space} {r : Nat}

/-- Memory in which the image has just been mapped, before anything is copied. -/
def fresh (img : MappedImage) (s : Space) : Space :=
  mapZero s img.basePage (img.size / pageSize) .readWrite

theorem getByte_fresh (hwhole : img.size % pageSize = 0) (hr : r < img.size) :
    getByte (fresh img s) (img.base + r) = some 0 := by
  have hin : InRange img.basePage (img.size / pageSize) ((img.base + r) / pageSize) := by
    unfold InRange MappedImage.base pageSize at *
    omega
  unfold getByte fresh
  rw [mapZero_of_inRange hin]
  rfl

theorem holds_fresh (hwhole : img.size % pageSize = 0) {len : Nat} : ∀ {r : Nat},
    r + len ≤ img.size → Holds (fresh img s) (img.base + r) (List.replicate len 0) := by
  induction len with
  | zero =>
    intro r _
    trivial
  | succ len ih =>
    intro r hle
    have hrest := @ih (r + 1) (by omega)
    rw [← Nat.add_assoc] at hrest
    exact ⟨getByte_fresh hwhole (by omega), hrest⟩

/-- Zeroing the fresh memory first changes nothing. -/
theorem copyImage_eq (hwhole : img.size % pageSize = 0) :
    copyImage f img (fresh img s) = runFills f img (fresh img s) := by
  have hzero : Fill.run f.bytes img.base (fresh img s) (.zero 0 img.size) = fresh img s :=
    storeBytes_of_holds (@holds_fresh img s hwhole img.size 0 (by omega))
  rw [runFills, imageFills, List.foldl_cons, hzero]
  rfl

/-- The bytes of an image, by offset. -/
def bytesOf (img : MappedImage) (s : Space) : Nat → Byte := fun r =>
  (getByte s (img.base + r)).getD 0

theorem getByte_eq_some (h : Placed img s) (hr : r < img.size) :
    getByte s (img.base + r) = some (bytesOf img s r) := by
  obtain ⟨pg, hpg⟩ := Option.isSome_iff_exists.mp
    (h.isSome_of_lt (Nat.le_add_right _ _) (Nat.add_lt_add_left hr _))
  unfold bytesOf getByte
  rw [hpg]
  rfl

theorem stroke_zero (bytes : List Byte) (dst len r : Nat) :
    (Fill.zero dst len).stroke bytes r =
      if dst ≤ r ∧ r < dst + len then some 0 else none := by
  simp only [Fill.stroke, Fill.start, Fill.content, List.length_replicate]
  split_ifs with hin
  · rw [List.getD_eq_getElem?_getD, List.getElem?_replicate, if_pos (by omega)]
    rfl
  · rfl

theorem stroke_copy {bytes : List Byte} {src len : Nat} (h : src + len ≤ bytes.length)
    (dst r : Nat) :
    (Fill.copy src dst len).stroke bytes r =
      if dst ≤ r ∧ r < dst + len then some (bytes.getD (src + (r - dst)) 0) else none := by
  have hlen : ((bytes.drop src).take len).length = len := by
    rw [List.length_take, List.length_drop]
    omega
  simp only [Fill.stroke, Fill.start, Fill.content, hlen]
  split_ifs with hin
  · have hlt : r - dst < len := by omega
    simp [List.getD, hlt]
  · rfl

theorem bytesOf_run (h : Placed img s) {a : Fill} (ha : a.Inside f.bytes.length img.size) :
    bytesOf img (a.run f.bytes img.base s) = paint (bytesOf img s) (a.stroke f.bytes) := by
  have hlen := ha.start_add_length
  funext r
  unfold paint Fill.stroke
  split_ifs with hin
  · have hholds : Holds (a.run f.bytes img.base s) (img.base + a.start) (a.content f.bytes) := by
      apply holds_storeBytes
      intro x hlow hhigh
      exact h.isSome_of_lt (by omega) (by omega)
    have hj : r - a.start < (a.content f.bytes).length := by omega
    have hbyte := Holds.getByte hholds hj
    have haddr : img.base + a.start + (r - a.start) = img.base + r := by omega
    rw [haddr] at hbyte
    unfold bytesOf
    rw [hbyte]
    simp [List.getD, hj]
  · have hkeep : getByte (a.run f.bytes img.base s) (img.base + r) = getByte s (img.base + r) := by
      apply getByte_storeBytes_of_not_mem
      omega
    unfold bytesOf
    rw [hkeep]
    rfl

theorem Placed.run (h : Placed img s) (bytes : List Byte) (a : Fill) :
    Placed img (a.run bytes img.base s) :=
  h.congr fun i => storeBytes_isSome i _ _ _

theorem bytesOf_foldl {as : List Fill} : ∀ {s : Space}, Placed img s →
    (∀ a ∈ as, a.Inside f.bytes.length img.size) →
      bytesOf img (as.foldl (Fill.run f.bytes img.base) s) =
        painter (bytesOf img s) (as.map (Fill.stroke f.bytes)) := by
  induction as with
  | nil =>
    intro s _ _
    rfl
  | cons a as ih =>
    intro s h hall
    have hrest := ih (h.run f.bytes a) fun a' ha' => hall a' (List.mem_cons_of_mem _ ha')
    rw [bytesOf_run h (hall a List.mem_cons_self)] at hrest
    exact hrest

/-! ## One stroke for a section -/

namespace Section

/-- The byte that the file has for an RVA of the section, and zero past the raw data or the end of
    the file. -/
def fileByte (bytes : List Byte) (sec : Section) (r : Nat) : Byte :=
  if r - sec.virtualAddress.toNat < sec.sizeOfRawData.toNat ∧
      sec.pointerToRawData.toNat + (r - sec.virtualAddress.toNat) < bytes.length then
    bytes.getD (sec.pointerToRawData.toNat + (r - sec.virtualAddress.toNat)) 0
  else
    0

/-- The zeros and the raw data of a section together. -/
def stroke (bytes : List Byte) (size : Nat) (sec : Section) : Stroke Nat Byte := fun r =>
  if sec.Contains r ∧ r < size then some (sec.fileByte bytes r) else none

end Section

theorem paint_section (b : Nat → Byte) (bytes : List Byte) (size : Nat) (sec : Section) :
    painter b ((sectionFills bytes.length size sec).map (Fill.stroke bytes)) =
      paint b (sec.stroke bytes size) := by
  have hcontains : ∀ r, sec.Contains r ∧ r < size ↔
      sec.virtualAddress.toNat ≤ r ∧ r < sec.virtualAddress.toNat +
        (min (sec.virtualAddress.toNat + sec.virtualSize.toNat) size -
          sec.virtualAddress.toNat) := by
    intro r
    unfold Section.Contains
    omega
  unfold sectionFills
  dsimp only
  split_ifs with hskip hraw
  · funext r
    have hout : ¬ (sec.Contains r ∧ r < size) := by
      unfold Section.Contains
      omega
    simp [painter, paint, Section.stroke, hout]
  · rw [List.map_cons, List.map_singleton, painter_cons, painter_cons, painter_nil, paint_paint]
    congr 1
    funext r
    rw [stroke_zero, stroke_copy (by omega)]
    unfold Section.stroke Section.fileByte
    simp only [hcontains]
    by_cases hin : sec.virtualAddress.toNat ≤ r ∧ r < sec.virtualAddress.toNat +
        (min (sec.virtualAddress.toNat + sec.virtualSize.toNat) size - sec.virtualAddress.toNat)
    · rw [if_pos hin, if_pos hin]
      by_cases hdata : r - sec.virtualAddress.toNat < sec.sizeOfRawData.toNat ∧
          sec.pointerToRawData.toNat + (r - sec.virtualAddress.toNat) < bytes.length
      · rw [if_pos (by omega), if_pos hdata, Option.some_or]
      · rw [if_neg (by omega), if_neg hdata, Option.none_or]
    · rw [if_neg hin, if_neg hin, if_neg (by omega)]
      rfl
  · rw [List.map_singleton, painter_cons, painter_nil]
    congr 1
    funext r
    rw [stroke_zero]
    unfold Section.stroke Section.fileByte
    simp only [hcontains]
    rw [if_neg (by omega : ¬ (r - sec.virtualAddress.toNat < sec.sizeOfRawData.toNat ∧
      sec.pointerToRawData.toNat + (r - sec.virtualAddress.toNat) < bytes.length))]

/-! ## The bytes of a mapped image -/

/-- What the headers give the bytes of the image. -/
def headerStroke (f : DllFile) (size : Nat) : Stroke Nat Byte := fun r =>
  if r < min (min f.opt.sizeOfHeaders.toNat f.bytes.length) size then
    some (f.bytes.getD r 0)
  else
    none

/-- The image as it is painted: the headers, and the sections over them. -/
def imageBytes (f : DllFile) (size : Nat) : Nat → Byte :=
  painter (fun _ => 0)
    (headerStroke f size :: f.file.pe.sections.map (Section.stroke f.bytes size))

theorem painter_sections (bytes : List Byte) (size : Nat) (secs : List Section) :
    ∀ b : Nat → Byte,
      painter b ((secs.flatMap (sectionFills bytes.length size)).map (Fill.stroke bytes)) =
        painter b (secs.map (Section.stroke bytes size)) := by
  induction secs with
  | nil =>
    intro b
    rfl
  | cons sec secs ih =>
    intro b
    rw [List.flatMap_cons, List.map_append, painter_append, paint_section, ih, List.map_cons,
      painter_cons]

theorem bytesOf_runFills (hwhole : img.size % pageSize = 0) (hr : r < img.size) :
    bytesOf img (runFills f img (fresh img s)) r = imageBytes f img.size r := by
  have hplaced : Placed img (fresh img s) := ⟨hwhole, mapped_mapZero s _ _ _⟩
  have hblank : bytesOf img (fresh img s) r = 0 := by
    unfold bytesOf
    rw [getByte_fresh hwhole hr]
    rfl
  unfold runFills
  rw [bytesOf_foldl hplaced (imageFills_inside f img.size)]
  unfold imageFills copyFills imageBytes
  rw [List.map_cons, List.map_cons, painter_cons, painter_cons, painter_cons, painter_sections]
  apply painter_congr
  unfold paint headerStroke
  rw [stroke_zero, stroke_copy (by omega), hblank]
  simp [hr]

theorem getByte_protectSections (x : Nat) : ∀ (secs : List Section) (s : Space),
    getByte (protectSections img secs s).2 x = getByte s x := by
  intro secs
  induction secs with
  | nil =>
    intro s
    rfl
  | cons sec secs ih =>
    intro s
    rw [protectSections_cons]
    dsimp only
    split_ifs
    · exact ih s
    · exact (ih _).trans (getByte_mprotect x)
    · exact getByte_mprotect x

theorem getByte_mapImageAt (f : DllFile) (page : Nat) (s : Space)
    (hr : r < (f.imageAt page).size) :
    getByte (mapImageAt f page s).2 ((f.imageAt page).base + r) =
      some (imageBytes f (f.imageAt page).size r) := by
  have hwhole : (f.imageAt page).size % pageSize = 0 := Nat.mul_mod_left _ _
  have hplaced : Placed (f.imageAt page)
      (copyImage f (f.imageAt page) (fresh (f.imageAt page) s)) :=
    ⟨hwhole, (mapped_congr (SamePages.copyImage _ _ _)).mpr (mapped_mapZero s _ _ _)⟩
  have hcopied : getByte (mapImageAt f page s).2 ((f.imageAt page).base + r) =
      getByte (copyImage f (f.imageAt page) (fresh (f.imageAt page) s))
        ((f.imageAt page).base + r) :=
    getByte_protectSections _ _ _
  rw [hcopied, getByte_eq_some hplaced hr, copyImage_eq hwhole, bytesOf_runFills hwhole hr]

/-! ## Disjoint sections -/

theorem imageBytes_of_contains {size : Nat} (hdisj : Disjoint f.file.pe.sections) {sec : Section}
    (hmem : sec ∈ f.file.pe.sections) (hin : sec.Contains r) (hr : r < size) :
    imageBytes f size r = sec.fileByte f.bytes r := by
  obtain ⟨pre, post, hsplit⟩ := List.append_of_mem hmem
  unfold Disjoint at hdisj
  rw [hsplit, List.pairwise_append] at hdisj
  have hpost := (List.pairwise_cons.mp hdisj.2.1).1
  have hstrokes : headerStroke f size :: f.file.pe.sections.map (Section.stroke f.bytes size) =
      (headerStroke f size :: pre.map (Section.stroke f.bytes size)) ++
        sec.stroke f.bytes size :: post.map (Section.stroke f.bytes size) := by
    rw [hsplit, List.map_append, List.map_cons, List.cons_append]
  apply painter_of_last hstrokes
  · exact if_pos ⟨hin, hr⟩
  · intro w hw
    obtain ⟨sec', hmem', rfl⟩ := List.mem_map.mp hw
    exact if_neg fun h => hpost sec' hmem' r hin h.1

theorem imageBytes_of_outside {size : Nat} (hout : ∀ sec ∈ f.file.pe.sections, ¬ sec.Contains r) :
    imageBytes f size r = (headerStroke f size r).getD 0 := by
  have hrest : painter (paint (fun _ => 0) (headerStroke f size))
      (f.file.pe.sections.map (Section.stroke f.bytes size)) r =
        paint (fun _ => 0) (headerStroke f size) r := by
    apply painter_of_uncovered
    intro w hw
    obtain ⟨sec, hmem, rfl⟩ := List.mem_map.mp hw
    exact if_neg fun h => hout sec hmem h.1
  exact hrest

/-! ## In bounds, and exact -/

/-- The sections begin behind the headers. -/
def BehindHeaders (f : DllFile) : Prop :=
  ∀ sec ∈ f.file.pe.sections, f.opt.sizeOfHeaders.toNat ≤ sec.virtualAddress.toNat

/-- The image in memory is what the file says. -/
structure Exact (f : DllFile) (img : MappedImage) (t : Space) : Prop where
  /-- A section has its raw data, and zeros behind it. -/
  sections : ∀ sec ∈ f.file.pe.sections, ∀ r < img.size, sec.Contains r →
    getByte t (img.base + r) = some (sec.fileByte f.bytes r)
  headers : ∀ r < img.size, r < f.opt.sizeOfHeaders.toNat → r < f.bytes.length →
    getByte t (img.base + r) = some (f.bytes.getD r 0)
  rest : ∀ r < img.size, (∀ sec ∈ f.file.pe.sections, ¬ sec.Contains r) →
    ¬ (r < f.opt.sizeOfHeaders.toNat ∧ r < f.bytes.length) → getByte t (img.base + r) = some 0

/-- Whatever the section headers say, mapping is the calls of `imageFills`, which stay inside the
    file and the mapping; and sections that are disjoint and behind the headers are where the file
    says. -/
theorem mapImage_inside_exact (f : DllFile) (page : Nat) (s : Space) :
    let img := f.imageAt page
    (mapImageAt f page s =
        protectSections img f.file.pe.sections (runFills f img (fresh img s)) ∧
      ∀ a ∈ imageFills f img.size, a.Inside f.bytes.length img.size) ∧
    (Disjoint f.file.pe.sections → BehindHeaders f → Exact f img (mapImageAt f page s).2) := by
  intro img
  constructor
  · constructor
    · have hwhole : img.size % pageSize = 0 := Nat.mul_mod_left _ _
      rw [← copyImage_eq hwhole]
      rfl
    · exact imageFills_inside f img.size
  · intro hdisj hbehind
    constructor
    · intro sec hmem r hr hin
      rw [getByte_mapImageAt f page s hr, imageBytes_of_contains hdisj hmem hin hr]
    · intro r hr hheader hfile
      have hout : ∀ sec ∈ f.file.pe.sections, ¬ sec.Contains r := by
        intro sec hmem hin
        have hle := hbehind sec hmem
        have hlow := hin.1
        omega
      rw [getByte_mapImageAt f page s hr, imageBytes_of_outside hout, headerStroke,
        if_pos (lt_min (lt_min hheader hfile) hr)]
      rfl
    · intro r hr hout hnot
      rw [getByte_mapImageAt f page s hr, imageBytes_of_outside hout, headerStroke,
        if_neg (by omega)]
      rfl

theorem mapImage_inside_exact_plainFile :
    Exact plainFile (plainFile.imageAt 0x10000) (mapImageAt plainFile 0x10000 fun _ => none).2 := by
  apply (mapImage_inside_exact plainFile 0x10000 fun _ => none).2
  · exact (laid_codeFile _ _).disjoint
  · intro sec hmem
    rw [List.mem_singleton.mp hmem]
    decide

end WinCompat.Loader
