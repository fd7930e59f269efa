import WinCompat.Loader.Mapping

/-!
# Protections after relocation

To patch a field, relocation makes the pages of the eight bytes from it on writable, and then gives
all of them the protection of the section that the first byte is in, always readable, and read-write
if it is in none. A page of the image has in the end what the last entry to reach it has made it
(`lastReaching`), unless the walk stops at an entry whose pages are not all mapped: what it had made
writable by then stays so.

`relocation_restores_iff` compares this with what mapping gave the page.
-/

namespace WinCompat.Loader

open Lib Lib.Paging

/-! ## The entries that are gone through -/

/-- The walk goes on past the entry: it is padding, or aims into the image and its pages are all
    mapped. -/
def Entry.Accepted (img : MappedImage) (s : Space) (e : Entry) : Prop :=
  e.typ = 0 ∨ e.narrowRva.toNat < img.size ∧ e.SpanMapped img s

instance (img : MappedImage) (s : Space) (e : Entry) : Decidable (e.SpanMapped img s) :=
  inferInstanceAs (Decidable (Mapped _ _ _))

instance (img : MappedImage) (s : Space) (e : Entry) : Decidable (e.Accepted img s) :=
  inferInstanceAs (Decidable (_ ∨ _))

/-- The entries before the first that the walk does not go past. -/
def accepted (img : MappedImage) (s : Space) (es : List Entry) : List Entry :=
  es.takeWhile fun e => decide (e.Accepted img s)

/-- The walk stops at an entry that aims at page `i` of the image and runs out of mapped pages. -/
def StuckOn (img : MappedImage) (s : Space) (i : Nat) (es : List Entry) : Prop :=
  ∃ e, (es.dropWhile fun e => decide (e.Accepted img s)).head? = some e ∧
    e.narrowRva.toNat < img.size ∧ e.Reaches img i

variable {img : MappedImage} {s : Space} {i : Nat} {pe : Pe} {d : BitVec 64}

variable {e : Entry} {es : List Entry}

theorem accepted_cons_of_pos (h : e.Accepted img s) :
    accepted img s (e :: es) = e :: accepted img s es := by
  simp [accepted, h]

theorem accepted_cons_of_neg (h : ¬ e.Accepted img s) : accepted img s (e :: es) = [] := by
  simp [accepted, h]

theorem stuckOn_cons_of_pos (h : e.Accepted img s) :
    StuckOn img s i (e :: es) ↔ StuckOn img s i es := by
  simp [StuckOn, h]

theorem stuckOn_cons_of_neg (h : ¬ e.Accepted img s) :
    StuckOn img s i (e :: es) ↔ e.narrowRva.toNat < img.size ∧ e.Reaches img i := by
  simp [StuckOn, h]

theorem accepted_congr {s' : Space} (h : ∀ j, (s' j).isSome = (s j).isSome) :
    e.Accepted img s' ↔ e.Accepted img s :=
  or_congr_right (and_congr_right fun _ => mapped_congr h)

/-! ## One entry -/

theorem applyEntry_accepted {st : State} (h : e.Accepted img st.space) :
    ∃ st', applyEntry img pe d e st = (.ok (), st') := by
  by_cases ht : e.typ = 0
  · unfold applyEntry
    rw [if_pos ht]
    exact ⟨st, rfl⟩
  · obtain ⟨hr, hmapped⟩ := h.resolve_left ht
    rw [applyEntry_of_lt pe d st ht hr]
    simp only [unprotectSpan_fst, unprotectSpan_len]
    rw [if_pos (flip_fst.mpr hmapped)]
    exact ⟨_, rfl⟩

theorem applyEntry_outside (st : State) (ht : e.typ ≠ 0) (hr : ¬ e.narrowRva.toNat < img.size) :
    applyEntry img pe d e st = (.error (.relocRvaOutOfRange e.narrowRva), st) := by
  have hptr : img.rvaToPtr e.narrowRva = none := if_neg hr
  unfold applyEntry
  rw [if_neg ht]
  simp only [hptr]
  rfl

theorem applyEntry_blocked (st : State) (ht : e.typ ≠ 0) (hr : e.narrowRva.toNat < img.size)
    (hm : ¬ e.SpanMapped img st.space) :
    ∃ err, applyEntry img pe d e st =
      (.error err, (st.flip (roundDown (e.target img) pageSize)
        (roundUp (e.target img + 8) pageSize - roundDown (e.target img) pageSize)).2) := by
  have heq := applyEntry_of_lt pe d st ht hr
  simp only [unprotectSpan_fst, unprotectSpan_len] at heq
  have hflip : (st.flip (roundDown (e.target img) pageSize)
      (roundUp (e.target img + 8) pageSize - roundDown (e.target img) pageSize)).1 = true ↔
        e.SpanMapped img st.space := flip_fst
  rw [if_neg fun h => hm (hflip.mp h)] at heq
  exact ⟨_, heq⟩

theorem mapped_up_to (hplaced : Placed img s) (hi : img.HasPage i) {j : Nat}
    (hlow : roundDown (e.target img) pageSize / pageSize ≤ j) (hle : j ≤ i) : (s j).isSome := by
  apply hplaced.mapped
  have hhigh := hi.2
  unfold Entry.target MappedImage.base roundDown pageSize at hlow
  unfold InRange
  constructor
  · omega
  · omega

theorem flip_space (st : State) (start len : Nat) : (st.flip start len).2.space =
    (mprotect st.space (start / pageSize) (len / pageSize) .readWrite).2 := rfl

theorem protAt_flip {st : State} (hplaced : Placed img st.space) (hi : img.HasPage i)
    (ht : e.typ ≠ 0) :
    protAt (st.flip (roundDown (e.target img) pageSize)
        (roundUp (e.target img + 8) pageSize - roundDown (e.target img) pageSize)).2.space i =
      if e.Reaches img i then some .readWrite else protAt st.space i := by
  rw [flip_space]
  by_cases hreach : e.Reaches img i
  · rw [if_pos hreach]
    apply protAt_mprotect_of_mapped (inRange_span.mpr hreach.2)
    intro j hlow hle
    exact mapped_up_to hplaced hi hlow hle
  · rw [if_neg hreach]
    apply protAt_mprotect_of_not_inRange
    exact mt inRange_span.mp fun htouch => hreach ⟨ht, htouch⟩

theorem applyEntry_refused {st : State} (h : ¬ e.Accepted img st.space)
    (hplaced : Placed img st.space) (hi : img.HasPage i) :
    ∃ err st', applyEntry img pe d e st = (.error err, st') ∧
      protAt st'.space i =
        if e.narrowRva.toNat < img.size ∧ e.Reaches img i then some .readWrite
        else protAt st.space i := by
  obtain ⟨ht, hnot⟩ := not_or.mp h
  by_cases hr : e.narrowRva.toNat < img.size
  · obtain ⟨err, heq⟩ := @applyEntry_blocked img pe d e st ht hr fun hm => hnot ⟨hr, hm⟩
    refine ⟨err, _, heq, ?_⟩
    simp only [protAt_flip hplaced hi ht, hr, true_and]
  · refine ⟨_, st, applyEntry_outside st ht hr, ?_⟩
    rw [if_neg fun hboth => hr hboth.1]

theorem applyEntries_left (hplaced : Placed img s) (hi : img.HasPage i) : ∀ {es : List Entry}
    {st : State}, (∀ j, (st.space j).isSome = (s j).isSome) →
      (StuckOn img s i es →
        protAt (applyEntries img pe d es st).2.space i = some .readWrite) ∧
      (¬ StuckOn img s i es → protAt (applyEntries img pe d es st).2.space i =
        (lastReaching img i (accepted img s es)).elim (protAt st.space i) fun e =>
          some (e.restoreProt img pe)) := by
  intro es
  induction es with
  | nil =>
    intro st _
    refine ⟨?_, fun _ => rfl⟩
    intro hstuck
    obtain ⟨e, he, -⟩ := hstuck
    cases he
  | cons e es ih =>
    intro st hkeep
    rw [applyEntries_cons]
    by_cases haccept : e.Accepted img s
    · obtain ⟨st₁, hfirst⟩ :=
        @applyEntry_accepted img pe d e st ((accepted_congr hkeep).mpr haccept)
      have hkeep₁ : ∀ j, (st₁.space j).isSome = (s j).isSome := by
        obtain ⟨_, _, st', _, heq, _, hkeep'⟩ := @applyEntry_walk img s pe d e st hkeep
        rw [hfirst] at heq
        rw [(Prod.mk.inj heq).2]
        exact hkeep'
      rw [Fallible.bind_ok hfirst, stuckOn_cons_of_pos haccept, accepted_cons_of_pos haccept]
      obtain ⟨hstuck, hlast⟩ := ih hkeep₁
      refine ⟨hstuck, fun hnot => ?_⟩
      rw [hlast hnot, applyEntry_prot hfirst, lastReaching_cons]
      cases lastReaching img i (accepted img s es) with
      | some e' => rfl
      | none =>
        by_cases hreach : e.Reaches img i
        · simp [hreach]
        · simp [hreach]
    · obtain ⟨err, st₁, hfirst, hprot⟩ := @applyEntry_refused img i pe d e st
        (mt (accepted_congr hkeep).mp haccept) (hplaced.congr hkeep) hi
      rw [Fallible.bind_error hfirst, stuckOn_cons_of_neg haccept, accepted_cons_of_neg haccept]
      constructor
      · intro hstuck
        rw [hprot, if_pos hstuck]
      · intro hnot
        rw [hprot, if_neg hnot]
        rfl

/-! ## Any stream -/

theorem applyBlocks_state (rest : List Byte) : ∀ st : State,
    (applyBlocks img pe d rest st).2 = (applyEntries img pe d (streamEntries rest) st).2 := by
  induction rest using streamEntries.induct with
  | case1 rest hlen =>
    intro st
    rw [applyBlocks, streamEntries, if_pos hlen, if_pos hlen]
    rfl
  | case2 rest hlen hbad =>
    intro st
    rw [applyBlocks, streamEntries, if_neg hlen, if_neg hlen, if_pos hbad, if_pos hbad]
    rfl
  | case3 rest hlen hbad ih =>
    intro st
    rw [applyBlocks, streamEntries, if_neg hlen, if_neg hlen, if_neg hbad, if_neg hbad,
      applyEntries_append]
    cases hfirst : applyEntries img pe d
        (blockEntries (u32At rest 0) ((rest.take (u32At rest 4).toNat).drop 8)) st with
    | mk r st₁ =>
      cases r with
      | error err => rw [Fallible.bind_error hfirst, Fallible.bind_error hfirst]
      | ok =>
        rw [Fallible.bind_ok hfirst, Fallible.bind_ok hfirst]
        exact ih st₁

theorem relocateImage_space {f : DllFile} (hdelta : img.delta ≠ 0) :
    (relocateImage f img s).2 =
      (applyEntries img f.file.pe img.delta f.entries ⟨s, []⟩).2.space := by
  unfold relocateImage DllFile.entries
  cases f.opt.baseRelocationTable with
  | none => rfl
  | some dir =>
    unfold applyRelocations relocEntries
    by_cases hdir : dir.virtualAddress = 0 ∨ dir.size = 0
    · simp only [if_pos hdir]
      rfl
    · simp only [if_neg hdir, if_neg hdelta]
      cases rvaToFileOffset f.bytes f.file.pe dir.virtualAddress with
      | none => rfl
      | some start =>
        by_cases hlen : f.bytes.length < start + dir.size.toNat
        · simp only [if_pos hlen]
          rfl
        · simp only [if_neg hlen, applyBlocks_state]

theorem relocateImage_of_delta {f : DllFile} (hdelta : img.delta = 0) :
    (relocateImage f img s).2 = s := by
  unfold relocateImage
  cases f.opt.baseRelocationTable with
  | none => rfl
  | some dir =>
    unfold applyRelocations
    by_cases hdir : dir.virtualAddress = 0 ∨ dir.size = 0
    · simp only [if_pos hdir]
      rfl
    · simp only [if_neg hdir, if_pos hdelta]
      rfl

/-! ## The protection of a page -/

/-- The RVA that a page of the image begins at. -/
def MappedImage.pageRva (img : MappedImage) (i : Nat) : Nat := (i - img.basePage) * pageSize

theorem hasPage_iff_contains {sec : Section} (haligned : sec.virtualAddress.toNat % pageSize = 0)
    (hi : img.HasPage i) : sec.HasPage img i ↔ sec.Contains (img.pageRva i) := by
  have hlow := hi.1
  rw [hasPage_iff haligned]
  unfold Section.Contains MappedImage.pageRva MappedImage.base
  unfold pageSize at *
  omega

/-- Read-write sections are passed over. -/
theorem protectSections_filter : ∀ (secs : List Section) (s : Space),
    protectSections img (secs.filter fun sec =>
        sectionProt sec.name sec.characteristics ≠ .readWrite) s =
      protectSections img secs s := by
  intro secs
  induction secs with
  | nil =>
    intro s
    rfl
  | cons sec secs ih =>
    intro s
    by_cases hrw : sectionProt sec.name sec.characteristics = .readWrite
    · rw [List.filter_cons_of_neg (by simp [hrw]), protectSections_cons,
        if_pos (Or.inr (Or.inr hrw))]
      exact ih s
    · rw [List.filter_cons_of_pos (by simp [hrw]), protectSections_cons, protectSections_cons]
      simp only [ih]

theorem Laid.filter {secs : List Section} (h : Laid secs) (p : Section → Bool) :
    Laid (secs.filter p) where
  aligned := fun sec hmem => h.aligned sec (List.mem_of_mem_filter hmem)
  disjoint := h.disjoint.filter p

variable {f : DllFile} {page : Nat}

theorem protAt_fills (bytes : List Byte) (base : Nat) (as : List Fill) : ∀ s : Space,
    protAt (as.foldl (Fill.run bytes base) s) i = protAt s i := by
  induction as with
  | nil =>
    intro s
    rfl
  | cons a as ih =>
    intro s
    exact (ih _).trans (protAt_storeBytes _ _ _ _)

theorem protAt_mapImageAt (hlaid : Laid f.file.pe.sections) (s : Space)
    (hi : (f.imageAt page).HasPage i) :
    protAt (mapImageAt f page s).2 i =
      some (mappedProt f.file.pe.sections ((f.imageAt page).pageRva i)) := by
  have hwhole : (f.imageAt page).size % pageSize = 0 := Nat.mul_mod_left _ _
  have hcopied : protAt (copyImage f (f.imageAt page) (fresh (f.imageAt page) s)) i =
      some .readWrite := by
    rw [copyImage, protAt_fills]
    unfold protAt fresh
    rw [mapZero_of_inRange hi]
    rfl
  have hmapped : protectSections (f.imageAt page) (f.file.pe.sections.filter fun sec =>
      sectionProt sec.name sec.characteristics ≠ .readWrite)
        (copyImage f (f.imageAt page) (fresh (f.imageAt page) s)) =
      (.ok (), (mapImageAt f page s).2) := by
    rw [protectSections_filter]
    exact Prod.ext (mapImageAt_accepts f page s) rfl
  obtain ⟨houtside, hinside⟩ := (protectSections_ok hwhole (hlaid.filter _) hmapped).2 i
  unfold mappedProt
  cases hat : sectionAt f.file.pe.sections ((f.imageAt page).pageRva i) with
  | none =>
    rw [houtside, hcopied]
    intro sec hmem hpage
    have hmem := List.mem_of_mem_filter hmem
    rw [hasPage_iff_contains (hlaid.aligned sec hmem) hi] at hpage
    exact sectionAt_none hat sec hmem hpage
  | some sec =>
    obtain ⟨hmem, hin⟩ := sectionAt_some hat
    have hpage := (hasPage_iff_contains (hlaid.aligned sec hmem) hi).mpr hin
    by_cases hrw : sectionProt sec.name sec.characteristics = .readWrite
    · show _ = some (sectionProt sec.name sec.characteristics)
      rw [hrw, houtside, hcopied]
      intro sec' hmem' hpage'
      obtain ⟨hmem', hnot⟩ := List.mem_filter.mp hmem'
      have hin' := (hasPage_iff_contains (hlaid.aligned sec' hmem') hi).mp hpage'
      rw [hlaid.unique hmem' hmem hin' hin, hrw] at hnot
      simp at hnot
    · exact hinside sec (List.mem_filter.mpr ⟨hmem, by simp [hrw]⟩) hpage hi hrw

/-! ## When everything is restored -/

/-- The entry that the walk stops at is not on page `i`, or the page is read-write anyway; and the
    last entry to reach it, if any does, aims at an RVA whose protection, made readable, is that of
    the page. -/
def Restorable (f : DllFile) (img : MappedImage) (s : Space) (i : Nat) : Prop :=
  (StuckOn img s i f.entries → mappedProt f.file.pe.sections (img.pageRva i) = .readWrite) ∧
  (¬ StuckOn img s i f.entries → ∀ e, lastReaching img i (accepted img s f.entries) = some e →
    restoredProt f.file.pe.sections e.narrowRva.toNat =
      mappedProt f.file.pe.sections (img.pageRva i))

theorem page_restored_iff (hlaid : Laid f.file.pe.sections) (s : Space)
    (hdelta : (f.imageAt page).delta ≠ 0) (hi : (f.imageAt page).HasPage i) :
    protAt (relocateImage f (f.imageAt page) (mapImageAt f page s).2).2 i =
        protAt (mapImageAt f page s).2 i ↔
      Restorable f (f.imageAt page) (mapImageAt f page s).2 i := by
  have hplaced := (mapImageAt_ok hlaid (Prod.ext (mapImageAt_accepts f page s) rfl)).1
  obtain ⟨hstuck, hlast⟩ := @applyEntries_left (f.imageAt page) (mapImageAt f page s).2 i
    f.file.pe (f.imageAt page).delta hplaced hi f.entries ⟨(mapImageAt f page s).2, []⟩ fun _ => rfl
  rw [relocateImage_space hdelta, protAt_mapImageAt hlaid s hi]
  unfold Restorable
  by_cases hon : StuckOn (f.imageAt page) (mapImageAt f page s).2 i f.entries
  · rw [hstuck hon, Option.some.injEq]
    simp [hon, eq_comm]
  · rw [hlast hon, protAt_mapImageAt hlaid s hi]
    simp only [hon, false_imp_iff, true_and, not_false_eq_true, true_imp_iff]
    cases lastReaching (f.imageAt page) i
        (accepted (f.imageAt page) (mapImageAt f page s).2 f.entries) with
    | none => simp
    | some e => simp [restoreProt_eq]

/-- Relocation, whether it succeeds or not, leaves every page of the image its protection exactly if
    nothing is relocated or every page is restorable. -/
theorem relocation_restores_iff (f : DllFile) (page : Nat) (s : Space)
    (hlaid : Laid f.file.pe.sections) :
    (∀ i, (f.imageAt page).HasPage i →
      protAt (relocateImage f (f.imageAt page) (mapImageAt f page s).2).2 i =
        protAt (mapImageAt f page s).2 i) ↔
    (f.imageAt page).delta = 0 ∨ ∀ i, (f.imageAt page).HasPage i →
      Restorable f (f.imageAt page) (mapImageAt f page s).2 i := by
  by_cases hdelta : (f.imageAt page).delta = 0
  · rw [relocateImage_of_delta hdelta]
    exact iff_of_true (fun _ _ => rfl) (Or.inl hdelta)
  · rw [or_iff_right hdelta]
    exact forall₂_congr fun i hi => page_restored_iff hlaid s hdelta hi

/-! ## A field at the end of the code -/

/-- The headers of a DLL of three pages, linked at 0x180000000: a page of code, and data that begins
    with the relocation directory. -/
def codeDataHeaders : List Byte :=
  [0x4D, 0x5A] ++ List.replicate 58 0 ++ [0x40, 0, 0, 0] ++
  [0x50, 0x45, 0, 0] ++ [0x64, 0x86, 2, 0] ++ List.replicate 12 0 ++ [0xF0, 0, 0x22, 0x20] ++
  [0x0B, 0x02] ++ List.replicate 22 0 ++ [0, 0, 0, 0x80, 1, 0, 0, 0] ++
  [0, 0x10, 0, 0, 0, 2, 0, 0] ++ List.replicate 16 0 ++ [0, 0x30, 0, 0, 0, 2, 0, 0] ++
  List.replicate 44 0 ++ [16, 0, 0, 0] ++ List.replicate 40 0 ++
  -- The relocation directory.
  [0, 0x20, 0, 0, 12, 0, 0, 0] ++ List.replicate 80 0 ++
  -- The two sections.
  [0x2E, 0x74, 0x65, 0x78, 0x74, 0, 0, 0] ++
  [0, 0x10, 0, 0, 0, 0x10, 0, 0, 0, 2, 0, 0, 0, 2, 0, 0] ++
  List.replicate 12 0 ++ [0x20, 0, 0, 0x60] ++
  [0x2E, 0x64, 0x61, 0x74, 0x61, 0, 0, 0] ++
  [0, 2, 0, 0, 0, 0x20, 0, 0, 0, 2, 0, 0, 0, 4, 0, 0] ++
  List.replicate 12 0 ++ [0x40, 0, 0, 0xC0] ++ List.replicate 104 0

def codeDataSections : List Section :=
  [⟨".text", 0x1000, 0x1000, 0x200, 0x200, 0x60000020⟩,
    ⟨".data", 0x2000, 0x200, 0x200, 0x400, 0xC0000040⟩]

/-- A DLL whose directory is one block, of 12 bytes. -/
def relocatedFile (block : List Byte) : DllFile where
  bytes := codeDataHeaders ++ List.replicate 512 0xC3 ++ (block ++ List.replicate 500 0)
  file := ⟨⟨codeDataSections⟩, 0x2022, some ⟨0, 0x180000000, 0x3000, 0x200, some ⟨0x2000, 12⟩⟩, []⟩
  opt := ⟨0, 0x180000000, 0x3000, 0x200, some ⟨0x2000, 12⟩⟩

theorem laid_codeDataSections : Laid codeDataSections where
  aligned := by decide
  disjoint := by
    refine List.pairwise_pair.mpr ?_
    intro rva hcode hdata
    have hhigh : rva < 0x2000 := hcode.2
    have hlow : 0x2000 ≤ rva := hdata.1
    omega

theorem entries_relocatedFile {block : List Byte} (hlen : block.length = 12)
    (hsize : (u32At block 4).toNat = 12) (hblock : blockEntries (u32At block 0) (block.drop 8) = es) :
    (relocatedFile block).entries = es := by
  have hheaders : codeDataHeaders.length = 512 := by decide +kernel
  have hfile : (relocatedFile block).bytes.length = 0x600 := by
    unfold relocatedFile
    simp only [List.length_append, List.length_replicate, hheaders, hlen]
  have hoff : rvaToFileOffset (relocatedFile block).bytes (relocatedFile block).file.pe 0x2000 =
      some 0x400 := by
    unfold rvaToFileOffset
    rw [hfile]
    rfl
  have hslice : ((relocatedFile block).bytes.drop 0x400).take (12 : BitVec 32).toNat = block := by
    have hfront : (codeDataHeaders ++ List.replicate 512 (0xC3 : Byte)).length = 0x400 := by
      rw [List.length_append, hheaders, List.length_replicate]
    unfold relocatedFile
    rw [List.drop_left' hfront]
    exact List.take_left' hlen
  obtain ⟨hentries, -⟩ := streamEntries_block hlen hsize
  have hreloc : relocEntries (relocatedFile block).bytes (relocatedFile block).file.pe
      ⟨0x2000, 12⟩ = es := by
    unfold relocEntries
    rw [if_neg (by decide), ← hblock]
    simp only [hoff, hfile, hslice, hentries]
    rfl
  exact hreloc

theorem restorable_relocatedFile {block : List Byte} {s : Space}
    (hentries : (relocatedFile block).entries = [e, ⟨0x1000, 0⟩]) (hw : e.fieldWidth ≠ 0)
    (hin : e.targetRva + 8 ≤ ((relocatedFile block).imageAt 0x10000).size) :
    Restorable (relocatedFile block) ((relocatedFile block).imageAt 0x10000)
        (mapImageAt (relocatedFile block) 0x10000 s).2 i ↔
      ∀ e', lastReaching ((relocatedFile block).imageAt 0x10000) i [e, ⟨0x1000, 0⟩] = some e' →
        restoredProt codeDataSections e'.narrowRva.toNat =
          mappedProt codeDataSections (((relocatedFile block).imageAt 0x10000).pageRva i) := by
  have hmap : mapImageAt (relocatedFile block) 0x10000 s =
      (.ok (), (mapImageAt (relocatedFile block) 0x10000 s).2) :=
    Prod.ext (mapImageAt_accepts _ 0x10000 s) rfl
  have hplaced := (@mapImageAt_ok s (relocatedFile block) 0x10000 laid_codeDataSections _ hmap).1
  have hfield : e.FieldInside ((relocatedFile block).imageAt 0x10000) :=
    Or.inr (Nat.le_trans (Nat.add_le_add_left e.fieldWidth_le _) hin)
  have hspan := (spanMapped_iff hplaced hw hfield).mpr (Or.inl hin)
  have hsize := ((relocatedFile block).imageAt 0x10000).size_le
  have hfirst : e.Accepted ((relocatedFile block).imageAt 0x10000)
      (mapImageAt (relocatedFile block) 0x10000 s).2 := by
    refine Or.inr ⟨?_, hspan⟩
    unfold Entry.narrowRva
    rw [BitVec.toNat_ofNat, Nat.mod_eq_of_lt (by omega)]
    omega
  have hpadding : (⟨0x1000, 0⟩ : Entry).Accepted ((relocatedFile block).imageAt 0x10000)
      (mapImageAt (relocatedFile block) 0x10000 s).2 := Or.inl rfl
  have hnone : ¬ StuckOn ((relocatedFile block).imageAt 0x10000)
      (mapImageAt (relocatedFile block) 0x10000 s).2 i [] := by
    intro hstuck
    obtain ⟨_, hhead, -⟩ := hstuck
    cases hhead
  unfold Restorable
  rw [hentries, accepted_cons_of_pos hfirst, accepted_cons_of_pos hpadding,
    stuckOn_cons_of_pos hfirst, stuckOn_cons_of_pos hpadding]
  simp only [hnone, false_imp_iff, true_and, not_false_eq_true, true_imp_iff]
  rfl

/-- A 32-bit field in the last four bytes of the code. -/
def endField : List Byte := [0, 0x10, 0, 0, 12, 0, 0, 0, 0xFC, 0x3F, 0, 0]

/-- A 32-bit field early in the code. -/
def earlyField : List Byte := [0, 0x10, 0, 0, 12, 0, 0, 0, 0, 0x31, 0, 0]

/-- The page of data behind the code becomes executable, and cannot be written to any more. -/
theorem endField_not_restored :
    Laid (relocatedFile endField).file.pe.sections ∧
    ¬ ∀ i, ((relocatedFile endField).imageAt 0x10000).HasPage i →
      protAt (relocateImage (relocatedFile endField) ((relocatedFile endField).imageAt 0x10000)
          (mapImageAt (relocatedFile endField) 0x10000 fun _ => none).2).2 i =
        protAt (mapImageAt (relocatedFile endField) 0x10000 fun _ => none).2 i := by
  refine ⟨laid_codeDataSections, ?_⟩
  intro hall
  have hpage : ((relocatedFile endField).imageAt 0x10000).HasPage 0x10002 := by decide
  have hkept := (page_restored_iff laid_codeDataSections _ (by decide) hpage).mp
    (hall 0x10002 hpage)
  have hentries : (relocatedFile endField).entries = [⟨0x1000, 0x3FFC⟩, ⟨0x1000, 0⟩] :=
    entries_relocatedFile rfl rfl rfl
  have hsame := (restorable_relocatedFile hentries (by decide) (by decide)).mp hkept
    ⟨0x1000, 0x3FFC⟩ (by decide)
  exact absurd hsame (by decide)

theorem relocation_restores_iff_earlyField :
    Laid (relocatedFile earlyField).file.pe.sections ∧
    ∀ i, ((relocatedFile earlyField).imageAt 0x10000).HasPage i →
      protAt (relocateImage (relocatedFile earlyField) ((relocatedFile earlyField).imageAt 0x10000)
          (mapImageAt (relocatedFile earlyField) 0x10000 fun _ => none).2).2 i =
        protAt (mapImageAt (relocatedFile earlyField) 0x10000 fun _ => none).2 i := by
  refine ⟨laid_codeDataSections, ?_⟩
  apply (relocation_restores_iff (relocatedFile earlyField) 0x10000 (fun _ => none)
    laid_codeDataSections).mpr
  right
  intro i hi
  have hentries : (relocatedFile earlyField).entries = [⟨0x1000, 0x3100⟩, ⟨0x1000, 0⟩] :=
    entries_relocatedFile rfl rfl rfl
  apply (restorable_relocatedFile hentries (by decide) (by decide)).mpr
  intro e hlast
  have hlow : 0x10000 ≤ i := hi.1
  have hhigh : i < 0x10000 + 3 := hi.2
  obtain rfl | rfl | rfl : i = 0x10000 ∨ i = 0x10001 ∨ i = 0x10002 := by omega
  · rw [show lastReaching ((relocatedFile earlyField).imageAt 0x10000) 0x10000
      [⟨0x1000, 0x3100⟩, ⟨0x1000, 0⟩] = none by decide] at hlast
    cases hlast
  · rw [show lastReaching ((relocatedFile earlyField).imageAt 0x10000) 0x10001
      [⟨0x1000, 0x3100⟩, ⟨0x1000, 0⟩] = some ⟨0x1000, 0x3100⟩ by decide] at hlast
    cases hlast
    decide
  · rw [show lastReaching ((relocatedFile earlyField).imageAt 0x10000) 0x10002
      [⟨0x1000, 0x3100⟩, ⟨0x1000, 0⟩] = none by decide] at hlast
    cases hlast

end WinCompat.Loader
