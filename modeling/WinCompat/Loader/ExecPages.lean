import WinCompat.Loader.OneModule
import WinCompat.Loader.Relink

/-!
# Executable pages

Mapping gives every section its protection; relocation makes the pages it patches writable and then
gives them the protection of the section the patch is in; the import table's pages are made writable
and left so. What a page is in the end is what the last of them to touch it has made it.

`codePages_iff` says when the code of an image that was accepted is executable and read-only: it
lies in the image, no import slot is on one of its pages, and the last relocation to touch such a
page, if any does, is in code as well.
-/

namespace WinCompat.Loader

open Lib Lib.Paging

/-! ## Sections and pages -/

namespace Section

/-- `IMAGE_SCN_MEM_EXECUTE`, and not a debug section. -/
def Code (sec : Section) : Prop :=
  sec.characteristics &&& 0x20000000 ≠ 0 ∧ sec.name.startsWith ".debug" = false

instance (sec : Section) : Decidable sec.Code := inferInstanceAs (Decidable (_ ∧ _))

def Contains (sec : Section) (rva : Nat) : Prop :=
  sec.virtualAddress.toNat ≤ rva ∧ rva < sec.virtualAddress.toNat + sec.virtualSize.toNat

instance (sec : Section) (rva : Nat) : Decidable (sec.Contains rva) :=
  inferInstanceAs (Decidable (_ ∧ _))

/-- Page `i` holds a byte of the section. -/
def HasPage (img : MappedImage) (sec : Section) (i : Nat) : Prop :=
  ∃ rva, sec.Contains rva ∧ (img.base + rva) / pageSize = i

end Section

/-- No RVA is in the virtual ranges of two sections. -/
def Disjoint (secs : List Section) : Prop :=
  secs.Pairwise fun sec sec' => ∀ rva, sec.Contains rva → ¬ sec'.Contains rva

variable {secs : List Section}

theorem Disjoint.unique (h : Disjoint secs) {sec sec' : Section} {rva : Nat} (hmem : sec ∈ secs)
    (hmem' : sec' ∈ secs) (hin : sec.Contains rva) (hin' : sec'.Contains rva) : sec = sec' := by
  have hsymm : Std.Symm fun sec sec' : Section => ∀ rva, sec.Contains rva → ¬ sec'.Contains rva :=
    ⟨fun _ _ hdisj rva hx hx' => hdisj rva hx' hx⟩
  by_contra hne
  exact List.Pairwise.forall h hmem hmem' hne rva hin hin'

/-- The first section to have an RVA. -/
def sectionAt (secs : List Section) (r : Nat) : Option Section :=
  secs.find? fun sec => sec.Contains r

theorem sectionAt_none {r : Nat} (h : sectionAt secs r = none) :
    ∀ sec ∈ secs, ¬ sec.Contains r := fun sec hmem hin =>
  List.find?_eq_none.mp h sec hmem (decide_eq_true hin)

variable {sec : Section}

theorem sectionAt_some {r : Nat} (h : sectionAt secs r = some sec) :
    sec ∈ secs ∧ sec.Contains r := by
  have hin := List.find?_some h
  exact ⟨List.mem_of_find?_eq_some h, of_decide_eq_true hin⟩

theorem sectionAt_of_contains (hdisj : Disjoint secs) {r : Nat} (hmem : sec ∈ secs)
    (hin : sec.Contains r) : sectionAt secs r = some sec := by
  cases hat : sectionAt secs r with
  | none => exact absurd hin (sectionAt_none hat sec hmem)
  | some sec' =>
    obtain ⟨hmem', hin'⟩ := sectionAt_some hat
    rw [hdisj.unique hmem hmem' hin hin']

/-- The sections begin at pages and do not overlap. -/
structure Laid (secs : List Section) : Prop where
  aligned : ∀ sec ∈ secs, sec.virtualAddress.toNat % pageSize = 0
  disjoint : secs.Pairwise fun sec sec' => ∀ rva, sec.Contains rva → ¬ sec'.Contains rva

theorem Laid.unique (h : Laid secs) {sec sec' : Section} {rva : Nat} (hmem : sec ∈ secs)
    (hmem' : sec' ∈ secs) (hin : sec.Contains rva) (hin' : sec'.Contains rva) : sec = sec' :=
  Disjoint.unique h.disjoint hmem hmem' hin hin'

/-- A page of the image. -/
def MappedImage.HasPage (img : MappedImage) (i : Nat) : Prop :=
  InRange img.basePage (img.size / pageSize) i

instance (img : MappedImage) (i : Nat) : Decidable (img.HasPage i) :=
  inferInstanceAs (Decidable (InRange _ _ _))

theorem sectionProt_of_code (h : sec.Code) :
    (sectionProt sec.name sec.characteristics).exec = true ∧
      (sectionProt sec.name sec.characteristics).write = false := by
  simp only [sectionProt, h.2, Bool.not_false, Bool.and_true, decide_eq_true_eq,
    Bool.and_eq_false_iff, Bool.not_eq_false', decide_eq_true_eq]
  exact ⟨h.1, Or.inr h.1⟩

theorem sectionProt_exec (h : (sectionProt sec.name sec.characteristics).exec = true) :
    sec.Code := by
  unfold sectionProt at h
  simp only [Bool.and_eq_true, decide_eq_true_eq, Bool.not_eq_true'] at h
  exact h

variable {img : MappedImage} {s s' : Space} {i : Nat}

theorem hasPage_iff (haligned : sec.virtualAddress.toNat % pageSize = 0) :
    sec.HasPage img i ↔ sec.virtualSize.toNat ≠ 0 ∧
      img.basePage + sec.virtualAddress.toNat / pageSize ≤ i ∧
      i * pageSize < img.base + sec.virtualAddress.toNat + sec.virtualSize.toNat := by
  unfold Section.HasPage Section.Contains MappedImage.base
  constructor
  · intro hpage
    obtain ⟨rva, hin, hdiv⟩ := hpage
    unfold pageSize at *
    omega
  · intro hpage
    refine ⟨max sec.virtualAddress.toNat (i * pageSize - img.basePage * pageSize), ?_, ?_⟩
    · unfold pageSize at *
      omega
    · unfold pageSize at *
      omega

/-- A page is of one section only. -/
theorem hasPage_unique {sec sec' : Section} (haligned : sec.virtualAddress.toNat % pageSize = 0)
    (haligned' : sec'.virtualAddress.toNat % pageSize = 0)
    (hdisj : ∀ rva, sec.Contains rva → ¬ sec'.Contains rva) (h : sec.HasPage img i) :
    ¬ sec'.HasPage img i := by
  intro h'
  rw [hasPage_iff haligned] at h
  rw [hasPage_iff haligned'] at h'
  -- The later of the two sections begins inside the other.
  have hfirst := hdisj (max sec.virtualAddress.toNat sec'.virtualAddress.toNat)
  unfold Section.Contains at hfirst
  unfold MappedImage.base pageSize at *
  omega

/-! ## The protection that mapping gives -/

theorem inRange_section (hwhole : img.size % pageSize = 0)
    (haligned : sec.virtualAddress.toNat % pageSize = 0) (hin : sec.virtualAddress.toNat < img.size) :
    InRange ((img.base + roundDown sec.virtualAddress.toNat pageSize) / pageSize)
      ((roundUp (min (sec.virtualAddress.toNat + sec.virtualSize.toNat) img.size) pageSize -
        roundDown sec.virtualAddress.toNat pageSize) / pageSize) i ↔
      sec.HasPage img i ∧ img.HasPage i := by
  rw [hasPage_iff haligned]
  unfold MappedImage.HasPage InRange roundDown roundUp MappedImage.base pageSize at *
  omega

theorem protectSections_cons (sec : Section) (secs : List Section) (space : Space) :
    protectSections img (sec :: secs) space =
      if sec.virtualSize.toNat = 0 ∨ img.size ≤ sec.virtualAddress.toNat ∨
          sectionProt sec.name sec.characteristics = .readWrite then
        protectSections img secs space
      else
        let start := roundDown sec.virtualAddress.toNat pageSize
        let len := roundUp (min (sec.virtualAddress.toNat + sec.virtualSize.toNat) img.size)
          pageSize - start
        let r := mprotect space ((img.base + start) / pageSize) (len / pageSize)
          (sectionProt sec.name sec.characteristics)
        if r.1 then
          protectSections img secs r.2
        else
          (.error (.err (.map (.mprotectFailed sec.name (img.base + start) len))), r.2) := rfl

/-- What mapping does to one page: nothing outside the sections, and in a section the protection of
    that section. -/
structure Protected (img : MappedImage) (i : Nat) (secs : List Section) (s s' : Space) : Prop where
  outside : (∀ sec ∈ secs, ¬ sec.HasPage img i) → protAt s' i = protAt s i
  inside : ∀ sec ∈ secs, sec.HasPage img i → img.HasPage i →
    sectionProt sec.name sec.characteristics ≠ .readWrite →
    protAt s' i = some (sectionProt sec.name sec.characteristics)

theorem protectSections_ok (hwhole : img.size % pageSize = 0) :
    ∀ {secs : List Section}, Laid secs → ∀ {s s' : Space},
      protectSections img secs s = (.ok (), s') →
        (∀ j, (s' j).isSome = (s j).isSome) ∧ ∀ i, Protected img i secs s s' := by
  intro secs
  induction secs with
  | nil =>
    intro _ s s' h
    cases h
    exact ⟨fun _ => rfl, fun i => ⟨fun _ => rfl, nofun⟩⟩
  | cons sec secs ih =>
    intro hlaid s s' h
    have haligned := hlaid.aligned sec List.mem_cons_self
    obtain ⟨hhead, htail⟩ := List.pairwise_cons.mp hlaid.disjoint
    have hrest : Laid secs :=
      ⟨fun sec' hmem => hlaid.aligned sec' (List.mem_cons_of_mem _ hmem), htail⟩
    have hother : ∀ i, sec.HasPage img i → ∀ sec' ∈ secs, ¬ sec'.HasPage img i :=
      fun i hpage sec' hmem =>
        hasPage_unique haligned (hrest.aligned sec' hmem) (hhead sec' hmem) hpage
    rw [protectSections_cons] at h
    split_ifs at h with hskip
    · obtain ⟨hkeep, hprot⟩ := ih hrest h
      refine ⟨hkeep, fun i => ⟨fun hout => ?_, fun sec' hmem hpage hin hrw => ?_⟩⟩
      · exact (hprot i).outside fun sec' hmem => hout sec' (List.mem_cons_of_mem _ hmem)
      · rcases List.mem_cons.mp hmem with rfl | hmem
        · -- A section that is skipped has no page in the image, or is read-write.
          rw [hasPage_iff haligned] at hpage
          unfold MappedImage.HasPage InRange at hin
          rcases hskip with hzero | hbeyond | hskip
          · exact absurd hzero hpage.1
          · unfold pageSize at *
            omega
          · exact absurd hskip hrw
        · exact (hprot i).inside sec' hmem hpage hin hrw
    · dsimp only at h
      have hin : sec.virtualAddress.toNat < img.size :=
        Nat.lt_of_not_le fun hbeyond => hskip (Or.inr (Or.inl hbeyond))
      by_cases hok : (mprotect s
          ((img.base + roundDown sec.virtualAddress.toNat pageSize) / pageSize)
          ((roundUp (min (sec.virtualAddress.toNat + sec.virtualSize.toNat) img.size) pageSize -
            roundDown sec.virtualAddress.toNat pageSize) / pageSize)
          (sectionProt sec.name sec.characteristics)).1 = true
      case neg =>
        rw [if_neg hok] at h
        cases h
      rw [if_pos hok] at h
      have hmapped := mprotect_fst.mp hok
      rw [mprotect_of_mapped hmapped] at h
      obtain ⟨hkeep, hprot⟩ := ih hrest h
      have hrange := fun i => inRange_section (i := i) hwhole haligned hin
      refine ⟨fun j => (hkeep j).trans (protect_isSome j), fun i => ⟨fun hout => ?_, ?_⟩⟩
      · rw [(hprot i).outside fun sec' hmem => hout sec' (List.mem_cons_of_mem _ hmem)]
        apply protAt_protect_of_not_inRange
        intro hin
        exact hout sec List.mem_cons_self ((hrange i).mp hin).1
      · intro sec' hmem hpage himg hrw'
        rcases List.mem_cons.mp hmem with rfl | hmem
        · rw [(hprot i).outside (hother i hpage)]
          have hinRange := (hrange i).mpr ⟨hpage, himg⟩
          exact protAt_protect_of_inRange hinRange (hmapped i hinRange)
        · exact (hprot i).inside sec' hmem hpage himg hrw'

theorem protectSections_accepts (h : Placed img s) : ∀ (secs : List Section) {s' : Space},
    SamePages s s' → (protectSections img secs s').1 = .ok () := by
  intro secs
  induction secs with
  | nil =>
    intro s' _
    rfl
  | cons sec secs ih =>
    intro s' hkeep
    rw [protectSections_cons]
    split_ifs with hskip
    · exact ih hkeep
    · dsimp only
      rw [if_pos]
      · exact ih (hkeep.trans (SamePages.mprotect _ _ _ _))
      · apply mprotect_fst.mpr
        intro i hi
        rw [hkeep]
        apply h.mapped
        have hwhole := h.whole
        unfold InRange roundDown roundUp MappedImage.base pageSize at *
        omega

/-! ## The protection that relocation leaves -/

namespace Entry

/-- Relocating the entry changes the protection of page `i`: also for the types that are skipped. -/
def Reaches (img : MappedImage) (i : Nat) (e : Entry) : Prop :=
  e.typ ≠ 0 ∧ Touches (e.target img) 8 i

instance (img : MappedImage) (i : Nat) (e : Entry) : Decidable (e.Reaches img i) :=
  inferInstanceAs (Decidable (_ ∧ _))

/-- The protection that the pages of an entry are given back. -/
def restoreProt (img : MappedImage) (pe : Pe) (e : Entry) : Prot :=
  (unprotectSpan img pe (e.target img) 8).2.2

end Entry

/-- The last entry to reach page `i`. -/
def lastReaching (img : MappedImage) (i : Nat) (es : List Entry) : Option Entry :=
  (es.filter fun e => decide (e.Reaches img i)).getLast?

theorem lastReaching_cons (e : Entry) (es : List Entry) :
    lastReaching img i (e :: es) =
      (lastReaching img i es).or (if e.Reaches img i then some e else none) := by
  unfold lastReaching
  by_cases h : e.Reaches img i
  · simp only [List.filter_cons, h, decide_true, if_true, List.getLast?_cons]
    cases (es.filter fun e => decide (e.Reaches img i)).getLast? with
    | none => rfl
    | some e' => rfl
  · simp [h]

/-- The protection that mapping gives an RVA: that of its section, and read-write outside. -/
def mappedProt (secs : List Section) (r : Nat) : Prot :=
  match sectionAt secs r with
  | some sec => sectionProt sec.name sec.characteristics
  | none => .readWrite

/-- The protection that relocation restores after a patch at an RVA: the same, and readable. -/
def restoredProt (secs : List Section) (r : Nat) : Prot := { mappedProt secs r with read := true }

/-- The code goes by the section of the first byte. -/
theorem restoreProt_eq (pe : Pe) (e : Entry) :
    e.restoreProt img pe = restoredProt pe.sections e.narrowRva.toNat := by
  have hrva : (BitVec.ofNat 32 (e.target img - img.base)).toNat = e.narrowRva.toNat := by
    unfold Entry.target
    rw [Nat.add_sub_cancel_left, BitVec.ofNat_toNat, BitVec.setWidth_eq]
  have howner : (pe.sections.find? fun sec =>
      decide (sec.virtualAddress.toNat ≤ e.narrowRva.toNat ∧
        e.narrowRva.toNat < sec.virtualAddress.toNat + sec.virtualSize.toNat)) =
      sectionAt pe.sections e.narrowRva.toNat := rfl
  unfold Entry.restoreProt unprotectSpan restoredProt mappedProt
  simp only [hrva, howner]
  cases sectionAt pe.sections e.narrowRva.toNat with
  | none => rfl
  | some sec => rfl

theorem restoreProt_exec {pe : Pe} (hlaid : Laid pe.sections) (e : Entry) :
    ((e.restoreProt img pe).exec = true ∧ (e.restoreProt img pe).write = false) ↔
      ∃ sec ∈ pe.sections, sec.Code ∧ sec.Contains e.narrowRva.toNat := by
  rw [restoreProt_eq]
  unfold restoredProt mappedProt
  cases hat : sectionAt pe.sections e.narrowRva.toNat with
  | none =>
    refine iff_of_false (by simp [Prot.readWrite]) ?_
    intro hcode
    obtain ⟨sec, hmem, -, hin⟩ := hcode
    exact sectionAt_none hat sec hmem hin
  | some owner =>
    obtain ⟨hmem, hin⟩ := sectionAt_some hat
    constructor
    · intro hprot
      exact ⟨owner, hmem, sectionProt_exec hprot.1, hin⟩
    · intro hcode
      obtain ⟨sec, hmem', hsec, hin'⟩ := hcode
      rw [hlaid.unique hmem hmem' hin hin']
      exact sectionProt_of_code hsec

variable {pe : Pe} {d : BitVec 64}

theorem flip_of_mapped {st : State} {start len : Nat} (h : (st.flip start len).1 = true) :
    (st.flip start len).2.space =
      protect st.space (start / pageSize) (len / pageSize) .readWrite :=
  congrArg Prod.snd (mprotect_of_mapped (flip_fst.mp h))

theorem restore_of_mapped {st : State} {start len : Nat} {p : Prot}
    (h : Mapped st.space (start / pageSize) (len / pageSize)) :
    (st.restore start len p).space = protect st.space (start / pageSize) (len / pageSize) p :=
  congrArg Prod.snd (mprotect_of_mapped h)

theorem applyEntry_prot {e : Entry} {st st' : State}
    (h : applyEntry img pe d e st = (.ok (), st')) (i : Nat) :
    protAt st'.space i =
      if e.Reaches img i then some (e.restoreProt img pe) else protAt st.space i := by
  by_cases ht : e.typ = 0
  · unfold applyEntry at h
    rw [if_pos ht] at h
    cases h
    exact (if_neg fun hreach => hreach.1 ht).symm
  have hr : e.narrowRva.toNat < img.size := by
    by_contra hout
    have hptr : img.rvaToPtr e.narrowRva = none := if_neg hout
    unfold applyEntry at h
    rw [if_neg ht] at h
    simp only [hptr] at h
    cases h
  rw [applyEntry_of_lt pe d st ht hr] at h
  simp only [unprotectSpan_fst, unprotectSpan_len] at h
  by_cases hflip : (st.flip (roundDown (e.target img) pageSize)
      (roundUp (e.target img + 8) pageSize - roundDown (e.target img) pageSize)).1 = true
  case neg =>
    rw [if_neg hflip] at h
    cases h
  rw [if_pos hflip] at h
  cases h
  have hmapped := flip_fst.mp hflip
  rw [restore_of_mapped ((mapped_congr fun j => by
    rw [applyOneReloc_isSome, flip_isSome]).mpr hmapped)]
  by_cases hreach : e.Reaches img i
  · have hin := inRange_span.mpr hreach.2
    rw [if_pos hreach]
    apply protAt_protect_of_inRange hin
    rw [applyOneReloc_isSome, flip_isSome]
    exact hmapped i hin
  · have hout := mt inRange_span.mp fun htouch => hreach ⟨ht, htouch⟩
    rw [if_neg hreach, protAt_protect_of_not_inRange hout, applyOneReloc_space, protAt_storeBytes,
      flip_of_mapped hflip, protAt_protect_of_not_inRange hout]

theorem applyEntries_prot (i : Nat) : ∀ {es : List Entry} {st st' : State},
    applyEntries img pe d es st = (.ok (), st') →
      protAt st'.space i = (lastReaching img i es).elim (protAt st.space i) fun e =>
        some (e.restoreProt img pe) := by
  intro es
  induction es with
  | nil =>
    intro st st' h
    cases h
    rfl
  | cons e es ih =>
    intro st st' h
    rw [applyEntries_cons] at h
    cases hfirst : applyEntry img pe d e st with
    | mk r st₁ =>
      cases r with
      | error err =>
        rw [Fallible.bind_error hfirst] at h
        cases h
      | ok =>
        rw [Fallible.bind_ok hfirst] at h
        rw [ih h, applyEntry_prot hfirst, lastReaching_cons]
        cases lastReaching img i es with
        | some e' => rfl
        | none =>
          by_cases hreach : e.Reaches img i
          · simp [hreach]
          · simp [hreach]

theorem blockStream_of_ok (rest : List Byte) : ∀ {st st' : State},
    applyBlocks img pe d rest st = (.ok (), st') → BlockStream rest := by
  induction rest using streamEntries.induct with
  | case1 rest hlen =>
    intro st st' _
    exact .done hlen
  | case2 rest hlen hbad =>
    intro st st' h
    rw [applyBlocks, if_neg hlen, if_pos hbad] at h
    cases h
  | case3 rest hlen hbad ih =>
    intro st st' h
    rw [applyBlocks, if_neg hlen, if_neg hbad] at h
    cases hfirst : applyEntries img pe d
        (blockEntries (u32At rest 0) ((rest.take (u32At rest 4).toNat).drop 8)) st with
    | mk r st₁ =>
      cases r with
      | error err =>
        rw [Fallible.bind_error hfirst] at h
        cases h
      | ok =>
        rw [Fallible.bind_ok hfirst] at h
        exact .block (Nat.le_of_not_lt hlen) hbad (ih h)

theorem applyRelocations_ok {bytes : List Byte} {dir : DataDirectory} {st : State}
    (h : applyRelocations img bytes pe dir ⟨s, []⟩ = (.ok (), st)) :
    (img.delta = 0 → st = ⟨s, []⟩) ∧ (img.delta ≠ 0 →
      applyEntries img pe img.delta (relocEntries bytes pe dir) ⟨s, []⟩ = (.ok (), st)) := by
  unfold applyRelocations at h
  unfold relocEntries
  split_ifs at h ⊢ with hdir hdelta
  · cases h
    exact ⟨fun _ => rfl, fun _ => rfl⟩
  · cases h
    exact ⟨fun _ => rfl, fun hne => absurd hdelta hne⟩
  · refine ⟨fun hzero => absurd hzero hdelta, fun _ => ?_⟩
    cases hoff : rvaToFileOffset bytes pe dir.virtualAddress with
    | none =>
      simp only [hoff] at h
      cases h
    | some start =>
      simp only [hoff] at h ⊢
      split_ifs at h ⊢ with hlen
      · cases h
      · rwa [← applyBlocks_eq pe (blockStream_of_ok _ h)]

/-! ## The protection that the import table leaves -/

/-- The slot that is written for an import. -/
def iatSlot (host : Host) (img : MappedImage) (resolved : SymbolMap) (imp : Import) : Option Nat :=
  match resolved.lookup (host.lowercase imp.dll, imp.name) with
  | none => none
  | some _ => img.rvaToPtr (BitVec.ofNat 32 imp.offset)

/-- A slot is on page `i`. -/
def SlotOn (host : Host) (img : MappedImage) (resolved : SymbolMap) (imports : List Import)
    (i : Nat) : Prop :=
  ∃ imp ∈ imports, ∃ slot, iatSlot host img resolved imp = some slot ∧ Touches slot 8 i

variable {host : Host} {resolved : SymbolMap}

theorem slotOn_cons {imp : Import} {imports : List Import} :
    SlotOn host img resolved (imp :: imports) i ↔
      (∃ slot, iatSlot host img resolved imp = some slot ∧ Touches slot 8 i) ∨
        SlotOn host img resolved imports i :=
  List.exists_mem_cons_iff _ _ _

theorem base_le_of_rvaToPtr {rva : BitVec 32} {p : Nat} (h : img.rvaToPtr rva = some p) :
    img.base ≤ p ∧ p < img.base + img.size := by
  unfold MappedImage.rvaToPtr at h
  split_ifs at h with hlt
  cases h
  omega

variable (host resolved) in
theorem writeIatSlot_prot (h : Placed img s) (hin : img.HasPage i) (imp : Import) :
    ((∃ slot, iatSlot host img resolved imp = some slot ∧ Touches slot 8 i) →
      protAt (writeIatSlot host img resolved s imp) i = some .readWrite) ∧
    ((¬ ∃ slot, iatSlot host img resolved imp = some slot ∧ Touches slot 8 i) →
      protAt (writeIatSlot host img resolved s imp) i = protAt s i) := by
  unfold writeIatSlot iatSlot
  cases resolved.lookup (host.lowercase imp.dll, imp.name) with
  | none => simp
  | some ptr =>
    cases hptr : img.rvaToPtr (BitVec.ofNat 32 imp.offset) with
    | none => simp
    | some slot =>
      simp only [Option.some.injEq, exists_eq_left', protAt_storeBytes]
      constructor
      · intro htouch
        apply protAt_mprotect_of_mapped (inRange_span.mpr htouch)
        -- From the slot to the page, everything is in the image.
        intro j hlow hhigh
        apply h.mapped
        have hslot := base_le_of_rvaToPtr hptr
        unfold MappedImage.HasPage InRange at *
        unfold MappedImage.base at hslot
        unfold roundDown pageSize at *
        omega
      · intro htouch
        exact protAt_mprotect_of_not_inRange (mt inRange_span.mp htouch) s

variable (host resolved) in
theorem writeIat_prot (hin : img.HasPage i) : ∀ (imports : List Import) {s : Space}, Placed img s →
    (SlotOn host img resolved imports i →
      protAt (imports.foldl (writeIatSlot host img resolved) s) i = some .readWrite) ∧
    (¬ SlotOn host img resolved imports i →
      protAt (imports.foldl (writeIatSlot host img resolved) s) i = protAt s i) := by
  intro imports
  induction imports with
  | nil =>
    intro s _
    exact ⟨fun ⟨_, hmem, _⟩ => absurd hmem List.not_mem_nil, fun _ => rfl⟩
  | cons imp imports ih =>
    intro s h
    have hplaced : Placed img (writeIatSlot host img resolved s imp) :=
      h.congr (SamePages.order.writeIatSlot (fun _ _ => trivial) host resolved s imp)
    obtain ⟨hon, hoff⟩ := ih hplaced
    obtain ⟨hfirst, hskip⟩ := writeIatSlot_prot host resolved h hin imp
    rw [List.foldl_cons, slotOn_cons]
    constructor
    · intro hslot
      by_cases hlater : SlotOn host img resolved imports i
      · exact hon hlater
      · rw [hoff hlater]
        exact hfirst (hslot.resolve_right hlater)
    · intro hslot
      obtain ⟨hnow, hlater⟩ := not_or.mp hslot
      rw [hoff hlater, hskip hnow]

/-! ## The passes together -/

/-- Map the image of a file at a page: `map_image`, whether at the preferred base or elsewhere. -/
def mapImageAt (f : DllFile) (page : Nat) (space : Space) : Except Stop Unit × Space :=
  let img := f.imageAt page
  protectSections img f.file.pe.sections
    (copyImage f img (mapZero space page (img.size / pageSize) .readWrite))

theorem mapImageAt_accepts (f : DllFile) (page : Nat) (s : Space) :
    (mapImageAt f page s).1 = .ok () := by
  have hplaced : Placed (f.imageAt page)
      (mapZero s page ((f.imageAt page).size / pageSize) .readWrite) :=
    ⟨Nat.mul_mod_left _ _, mapped_mapZero _ _ _ _⟩
  exact protectSections_accepts hplaced _ (SamePages.copyImage _ _ _)

/-- The entries of the file's relocation directory. -/
def DllFile.entries (f : DllFile) : List Entry :=
  match f.opt.baseRelocationTable with
  | none => []
  | some dir => relocEntries f.bytes f.file.pe dir

/-- Relocate the image of a file, if there is a directory. -/
def relocateImage (f : DllFile) (img : MappedImage) (space : Space) :
    Except MapError Unit × Space :=
  match f.opt.baseRelocationTable with
  | none => (.ok (), space)
  | some dir =>
    let r := applyRelocations img f.bytes f.file.pe dir ⟨space, []⟩
    (r.1, r.2.space)

/-! These are the passes of `load_dll_ex`. -/

theorem run_mapImageAnywhere (callee : Call → Sys → Option (Reply × Sys)) {f : DllFile} {page : Nat}
    {l : Holdings} {sys : Sys} (hsize : roundUp f.opt.sizeOfImage.toNat pageSize ≠ 0)
    (hos : host.mmap sys.asked sys.space (roundUp f.opt.sizeOfImage.toNat pageSize) = .ok page) :
    Attempt.run callee (mapImageAnywhere host f) (l, sys) =
      some (.ok (f.imageAt page), l.withImage (some (f.imageAt page).block),
        { sys with space := (mapImageAt f page sys.space).2, asked := sys.asked + 1 }) := by
  have hmap : Attempt.run callee (mapAnywhere host f) (l, sys) =
      some (.ok (f.imageAt page), l.withImage (some (f.imageAt page).block),
        { sys with
          space := mapZero sys.space page ((f.imageAt page).size / pageSize) .readWrite
          asked := sys.asked + 1 }) := by
    unfold mapAnywhere withMmap
    rw [Attempt.run_atomically, hos]
    rfl
  have hprotect : Attempt.run callee (onSpace fun space =>
        protectSections (f.imageAt page) f.file.pe.sections (copyImage f (f.imageAt page) space))
      (l.withImage (some (f.imageAt page).block),
        { sys with
          space := mapZero sys.space page ((f.imageAt page).size / pageSize) .readWrite
          asked := sys.asked + 1 }) =
      some ((mapImageAt f page sys.space).1, l.withImage (some (f.imageAt page).block),
        { sys with space := (mapImageAt f page sys.space).2, asked := sys.asked + 1 }) := rfl
  rw [mapImageAt_accepts] at hprotect
  unfold mapImageAnywhere
  rw [if_neg hsize, Attempt.run_bind_ok _ hmap, Attempt.run_bind_ok _ hprotect]
  rfl

theorem run_relocate (callee : Call → Sys → Option (Reply × Sys)) (f : DllFile) (l : Holdings)
    (sys : Sys) :
    Attempt.run callee (relocate f img) (l, sys) =
      some ((relocateImage f img sys.space).1.mapError fun e => .err (.map e), l,
        { sys with space := (relocateImage f img sys.space).2 }) := by
  unfold relocate relocateImage
  cases f.opt.baseRelocationTable with
  | none => rfl
  | some dir => rfl

theorem run_writeIat (callee : Call → Sys → Option (Reply × Sys)) (imports : List Import)
    (l : Holdings) (sys : Sys) :
    Attempt.run callee (writeIat host img imports resolved) (l, sys) =
      some (.ok (), l,
        { sys with space := imports.foldl (writeIatSlot host img resolved) sys.space }) := rfl

/-- `t` is memory once an accepted file has been mapped at `page`, relocated, and its import table
    written. Between the last two the imports are resolved, which does not touch the image. -/
def Linked (host : Host) (f : DllFile) (page : Nat) (resolved : SymbolMap) (t : Space) : Prop :=
  ∃ s s₁ s₂ s₃, mapImageAt f page s = (.ok (), s₁) ∧
    relocateImage f (f.imageAt page) s₁ = (.ok (), s₂) ∧
    (∀ i, (f.imageAt page).HasPage i → s₃ i = s₂ i) ∧
    t = f.file.imports.foldl (writeIatSlot host (f.imageAt page) resolved) s₃

variable {f : DllFile} {page : Nat}

theorem mapImageAt_ok (hlaid : Laid f.file.pe.sections) {s₁ : Space}
    (h : mapImageAt f page s = (.ok (), s₁)) :
    Placed (f.imageAt page) s₁ ∧ ∀ sec ∈ f.file.pe.sections, sec.Code → ∀ i,
      sec.HasPage (f.imageAt page) i → (f.imageAt page).HasPage i →
        protAt s₁ i = some (sectionProt sec.name sec.characteristics) := by
  have hwhole : (f.imageAt page).size % pageSize = 0 := Nat.mul_mod_left _ _
  obtain ⟨hkeep, hprot⟩ := protectSections_ok hwhole hlaid h
  constructor
  · refine ⟨hwhole, ?_⟩
    intro j hj
    rw [hkeep]
    rw [SamePages.copyImage]
    exact mapped_mapZero s page _ _ j hj
  · intro sec hmem hcode i hpage hin
    apply (hprot i).inside sec hmem hpage hin
    intro hrw
    have hwrite := (sectionProt_of_code hcode).2
    rw [hrw] at hwrite
    exact absurd hwrite (by decide)

theorem relocateImage_ok {s₁ s₂ : Space} (h : relocateImage f img s₁ = (.ok (), s₂)) :
    SamePages s₁ s₂ ∧ ∀ i,
      (img.delta = 0 → protAt s₂ i = protAt s₁ i) ∧
      (img.delta ≠ 0 → protAt s₂ i = (lastReaching img i f.entries).elim (protAt s₁ i) fun e =>
        some (e.restoreProt img f.file.pe)) := by
  unfold relocateImage at h
  unfold DllFile.entries
  cases hdir : f.opt.baseRelocationTable with
  | none =>
    simp only [hdir] at h
    cases h
    exact ⟨.refl _, fun _ => ⟨fun _ => rfl, fun _ => rfl⟩⟩
  | some dir =>
    simp only [hdir] at h
    obtain ⟨hok, rfl⟩ := Prod.mk.inj h
    have hrun : applyRelocations img f.bytes f.file.pe dir ⟨s₁, []⟩ =
        (.ok (), (applyRelocations img f.bytes f.file.pe dir ⟨s₁, []⟩).2) :=
      Prod.ext hok rfl
    obtain ⟨hsame, hentries⟩ := applyRelocations_ok hrun
    refine ⟨SamePages.order.applyRelocations (fun _ _ => trivial) _ _ _ _, fun i => ⟨fun hdelta => ?_, fun hdelta => ?_⟩⟩
    · rw [hsame hdelta]
    · exact applyEntries_prot i (hentries hdelta)

/-- Page `i` is mapped executable and not writable, as part of the image. -/
def ExecReadOnly (img : MappedImage) (t : Space) (i : Nat) : Prop :=
  img.HasPage i ∧ ∃ pg, t i = some pg ∧ pg.prot.exec = true ∧ pg.prot.write = false

theorem execReadOnly_of_protAt {t : Space} {p : Prot} (hin : img.HasPage i)
    (h : protAt t i = some p) : ExecReadOnly img t i ↔ p.exec = true ∧ p.write = false := by
  unfold protAt at h
  obtain ⟨pg, hpg, rfl⟩ := Option.map_eq_some_iff.mp h
  unfold ExecReadOnly
  simp [hin, hpg]

/-- The page of code is in the image, no import slot is on it, and the last relocation entry to
    reach it, if there is one and anything is relocated, aims at code. -/
def Untroubled (host : Host) (f : DllFile) (page : Nat) (resolved : SymbolMap) (i : Nat) : Prop :=
  (f.imageAt page).HasPage i ∧
    ¬ SlotOn host (f.imageAt page) resolved f.file.imports i ∧
    ((f.imageAt page).delta = 0 ∨ ∀ e, lastReaching (f.imageAt page) i f.entries = some e →
      ∃ sec ∈ f.file.pe.sections, sec.Code ∧ sec.Contains e.narrowRva.toNat)

theorem page_iff (hlaid : Laid f.file.pe.sections) {t : Space} (h : Linked host f page resolved t)
    (hmem : sec ∈ f.file.pe.sections) (hcode : sec.Code) (hpage : sec.HasPage (f.imageAt page) i) :
    ExecReadOnly (f.imageAt page) t i ↔ Untroubled host f page resolved i := by
  obtain ⟨s, s₁, s₂, s₃, hmap, hreloc, hsame, rfl⟩ := h
  by_cases hin : (f.imageAt page).HasPage i
  case neg => exact iff_of_false (fun h => hin h.1) fun h => hin h.1
  obtain ⟨hplaced, hprot⟩ := mapImageAt_ok hlaid hmap
  obtain ⟨hkeep, hrelocated⟩ := relocateImage_ok hreloc
  have hplaced₃ : Placed (f.imageAt page) s₃ := by
    refine ⟨hplaced.whole, ?_⟩
    intro j hj
    rw [hsame j hj, hkeep]
    exact hplaced.mapped j hj
  have hmapped := hprot sec hmem hcode i hpage hin
  have hsame : protAt s₃ i = protAt s₂ i := congrArg (Option.map Page.prot) (hsame i hin)
  obtain ⟨hon, hoff⟩ := writeIat_prot host resolved hin f.file.imports hplaced₃
  unfold Untroubled
  by_cases hslot : SlotOn host (f.imageAt page) resolved f.file.imports i
  · rw [execReadOnly_of_protAt hin (hon hslot)]
    simp [Prot.readWrite, hslot]
  have hfinal := (hoff hslot).trans hsame
  rw [and_iff_right hin, and_iff_right hslot]
  have hkept := sectionProt_of_code hcode
  obtain ⟨hunmoved, hmoved⟩ := hrelocated i
  by_cases hdelta : (f.imageAt page).delta = 0
  · rw [execReadOnly_of_protAt hin (hfinal.trans ((hunmoved hdelta).trans hmapped))]
    exact iff_of_true hkept (Or.inl hdelta)
  have hmoved := hfinal.trans (hmoved hdelta)
  rw [or_iff_right hdelta]
  cases hlast : lastReaching (f.imageAt page) i f.entries with
  | none =>
    rw [hlast] at hmoved
    rw [execReadOnly_of_protAt hin (hmoved.trans hmapped)]
    exact iff_of_true hkept nofun
  | some e =>
    rw [hlast] at hmoved
    rw [execReadOnly_of_protAt hin hmoved, restoreProt_exec hlaid]
    simp

/-- The code of an accepted image is executable and read-only exactly if each of its pages is
    untroubled. -/
theorem codePages_iff (host : Host) (f : DllFile) (page : Nat) (resolved : SymbolMap) (t : Space)
    (hlaid : Laid f.file.pe.sections) (h : Linked host f page resolved t) :
    (∀ sec ∈ f.file.pe.sections, sec.Code → ∀ i, sec.HasPage (f.imageAt page) i →
      ExecReadOnly (f.imageAt page) t i) ↔
    ∀ sec ∈ f.file.pe.sections, sec.Code → ∀ i, sec.HasPage (f.imageAt page) i →
      Untroubled host f page resolved i :=
  forall₂_congr fun _ hmem => forall₃_congr fun hcode _ hpage => page_iff hlaid h hmem hcode hpage

/-! ## An import table in the code section -/

/-- The headers of a DLL of two pages whose only section is code, linked at 0x180000000. -/
def codeHeaders (importDirectory : List Byte) : List Byte :=
  [0x4D, 0x5A] ++ List.replicate 58 0 ++ [0x40, 0, 0, 0] ++
  [0x50, 0x45, 0, 0] ++ [0x64, 0x86, 1, 0] ++ List.replicate 12 0 ++ [0xF0, 0, 0x22, 0x20] ++
  [0x0B, 0x02] ++ List.replicate 22 0 ++ [0, 0, 0, 0x80, 1, 0, 0, 0] ++
  [0, 0x10, 0, 0, 0, 2, 0, 0] ++ List.replicate 16 0 ++ [0, 0x20, 0, 0, 0, 2, 0, 0] ++
  List.replicate 44 0 ++ [16, 0, 0, 0] ++ List.replicate 8 0 ++ importDirectory ++
  List.replicate 112 0 ++
  -- The section: its name, its sizes and places, and its characteristics.
  [0x2E, 0x74, 0x65, 0x78, 0x74, 0, 0, 0] ++ [0, 2, 0, 0, 0, 0x10, 0, 0, 0, 2, 0, 0, 0, 2, 0, 0] ++
  List.replicate 12 0 ++ [0x20, 0, 0, 0x60] ++ List.replicate 144 0

/-- A section that begins with the import of `Sleep`, its slot at RVA 0x1040. -/
def importSection : List Byte :=
  [0x30, 0x10, 0, 0] ++ List.replicate 8 0 ++ [0x60, 0x10, 0, 0, 0x40, 0x10, 0, 0] ++
  List.replicate 28 0 ++ [0x50, 0x10, 0, 0] ++ List.replicate 12 0 ++ [0x50, 0x10, 0, 0] ++
  List.replicate 12 0 ++ [0, 0, 0x53, 0x6C, 0x65, 0x65, 0x70, 0] ++ List.replicate 8 0 ++
  [0x6B, 0x65, 0x72, 0x6E, 0x65, 0x6C, 0x33, 0x32, 0x2E, 0x64, 0x6C, 0x6C, 0] ++
  List.replicate 403 0

def codeSection : Section := ⟨".text", 0x1000, 0x200, 0x200, 0x200, 0x60000020⟩

def codeFile (bytes : List Byte) (imports : List Import) : DllFile where
  bytes := bytes
  file := ⟨⟨[codeSection]⟩, 0x2022, some ⟨0, 0x180000000, 0x2000, 0x200, none⟩, imports⟩
  opt := ⟨0, 0x180000000, 0x2000, 0x200, none⟩

def importingFile : DllFile :=
  codeFile (codeHeaders [0, 0x10, 0, 0, 40, 0, 0, 0] ++ importSection)
    [⟨"kernel32.dll", "Sleep", 0x1040⟩]

def plainFile : DllFile :=
  codeFile (codeHeaders (List.replicate 8 0) ++ List.replicate 512 0xC3) []

/-- Where `Sleep` is. -/
def sleepResolved : SymbolMap := [(("kernel32.dll", "Sleep"), 0x70001000)]

theorem laid_codeFile (bytes : List Byte) (imports : List Import) :
    Laid (codeFile bytes imports).file.pe.sections where
  aligned := by
    intro sec hmem
    rw [List.mem_singleton.mp hmem]
    rfl
  disjoint := List.pairwise_singleton _ _

/-- Memory after the passes over a file without relocations, in which nothing else was mapped. -/
def linkedAt (f : DllFile) (page : Nat) : Space :=
  f.file.imports.foldl (writeIatSlot (bareHost f.bytes f.file) (f.imageAt page) sleepResolved)
    (mapImageAt f page fun _ => none).2

theorem linked_codeFile (bytes : List Byte) (imports : List Import) (page : Nat) :
    Linked (bareHost bytes (codeFile bytes imports).file) (codeFile bytes imports) page
      sleepResolved (linkedAt (codeFile bytes imports) page) :=
  ⟨fun _ => none, _, _, _, Prod.ext (mapImageAt_accepts _ _ _) rfl, rfl, fun _ _ => rfl, rfl⟩

theorem codeSection_page (f : DllFile) : codeSection.HasPage (f.imageAt 0x10000) 0x10001 := by
  refine ⟨0x1000, by decide, ?_⟩
  show (0x10000 * pageSize + 0x1000) / pageSize = 0x10001
  decide

/-- The page of code that the import table is on stays writable, and cannot be executed. -/
theorem importingFile_not_execReadOnly :
    Laid importingFile.file.pe.sections ∧
    Linked (bareHost importingFile.bytes importingFile.file) importingFile 0x10000 sleepResolved
      (linkedAt importingFile 0x10000) ∧
    ¬ ∀ sec ∈ importingFile.file.pe.sections, sec.Code →
      ∀ i, sec.HasPage (importingFile.imageAt 0x10000) i →
        ExecReadOnly (importingFile.imageAt 0x10000) (linkedAt importingFile 0x10000) i := by
  have hlaid := laid_codeFile (codeHeaders [0, 0x10, 0, 0, 40, 0, 0, 0] ++ importSection)
    [⟨"kernel32.dll", "Sleep", 0x1040⟩]
  have hlinked := linked_codeFile (codeHeaders [0, 0x10, 0, 0, 40, 0, 0, 0] ++ importSection)
    [⟨"kernel32.dll", "Sleep", 0x1040⟩] 0x10000
  refine ⟨hlaid, hlinked, ?_⟩
  intro hall
  have hcode : codeSection.Code := by decide
  have hpage := codeSection_page importingFile
  have hgood := hall codeSection List.mem_cons_self hcode 0x10001 hpage
  obtain ⟨-, hslot, -⟩ := (page_iff hlaid hlinked List.mem_cons_self hcode hpage).mp hgood
  apply hslot
  exact ⟨⟨"kernel32.dll", "Sleep", 0x1040⟩, List.mem_cons_self, 0x10001040, by decide, by decide⟩

theorem codePages_iff_plainFile :
    Laid plainFile.file.pe.sections ∧
    ∀ sec ∈ plainFile.file.pe.sections, sec.Code →
      ∀ i, sec.HasPage (plainFile.imageAt 0x10000) i →
        ExecReadOnly (plainFile.imageAt 0x10000) (linkedAt plainFile 0x10000) i := by
  refine ⟨laid_codeFile _ _, ?_⟩
  apply (codePages_iff (bareHost plainFile.bytes plainFile.file) plainFile 0x10000 sleepResolved
    (linkedAt plainFile 0x10000) (laid_codeFile _ _) (linked_codeFile _ _ _)).mpr
  intro sec hmem _ i hpage
  obtain rfl : sec = codeSection := List.mem_singleton.mp hmem
  rw [hasPage_iff (by decide)] at hpage
  obtain ⟨-, hlow, hhigh⟩ := hpage
  obtain rfl : i = 0x10001 := by
    have hva : codeSection.virtualAddress.toNat = 0x1000 := rfl
    have hvs : codeSection.virtualSize.toNat = 0x200 := rfl
    have hbase : (plainFile.imageAt 0x10000).basePage = 0x10000 := rfl
    rw [hva, hbase] at hlow
    unfold MappedImage.base at hhigh
    rw [hva, hvs, hbase] at hhigh
    unfold pageSize at *
    omega
  refine ⟨by decide, ?_, Or.inr nofun⟩
  intro hslot
  obtain ⟨_, hmem, _⟩ := hslot
  exact absurd hmem List.not_mem_nil

end WinCompat.Loader
