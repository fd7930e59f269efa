import WinCompat.Loader.Reloc

/-!
# What a relocation may write

A store is in order when it covers exactly the field of its entry and the field lies in the image.
`Walk` is what the loop over a list of entries amounts to — which stores it makes and which error it
stops with — and depends on memory only through which pages are mapped, which no patch changes.

Stores stay in the image, and a field outside it is refused, exactly when there is no such field or
the walk meets, before any such field, an entry whose narrowed RVA is outside (`Rejected`).
-/

namespace WinCompat.Loader

open Lib Lib.Paging

namespace Entry

/-- The bytes an entry of this type patches. -/
def fieldWidth (e : Entry) : Nat :=
  match e.typ with
  | 10 => 8
  | 3 => 4
  | 2 => 2
  | _ => 0

/-- The field of the entry, if it has one, lies wholly in the image. -/
def FieldInside (img : MappedImage) (e : Entry) : Prop :=
  e.fieldWidth = 0 ∨ e.targetRva + e.fieldWidth ≤ img.size

/-- The address the code patches. -/
def target (img : MappedImage) (e : Entry) : Nat := img.base + e.narrowRva.toNat

/-- The pages of the eight bytes from the target on are all mapped. -/
def SpanMapped (img : MappedImage) (s : Space) (e : Entry) : Prop :=
  Mapped s (roundDown (e.target img) pageSize / pageSize)
    ((roundUp (e.target img + 8) pageSize - roundDown (e.target img) pageSize) / pageSize)

def patches (img : MappedImage) (e : Entry) : List Patch :=
  if e.fieldWidth = 0 then [] else [⟨e, e.target img, e.fieldWidth⟩]

end Entry

/-- The entries of a block stream, up to the first block that is not wholly there. -/
def streamEntries (rest : List Byte) : List Entry :=
  if rest.length < 8 then
    []
  else if BadBlock rest then
    []
  else
    blockEntries (u32At rest 0) ((rest.take (u32At rest 4).toNat).drop 8) ++
      streamEntries (rest.drop (u32At rest 4).toNat)
  termination_by rest.length
  decreasing_by
    unfold BadBlock at *
    rw [List.length_drop]
    omega

/-- The entries of the relocation directory. -/
def relocEntries (bytes : List Byte) (pe : Pe) (dir : DataDirectory) : List Entry :=
  if dir.virtualAddress = 0 ∨ dir.size = 0 then
    []
  else
    match rvaToFileOffset bytes pe dir.virtualAddress with
    | none => []
    | some start =>
      if bytes.length < start + dir.size.toNat then
        []
      else
        streamEntries ((bytes.drop start).take dir.size.toNat)

/-- Every store is to the field of an entry, which lies in the image; and a field that does not is
    refused as such. -/
structure Contained (img : MappedImage) (es : List Entry) (r : Except MapError Unit × State) :
    Prop where
  inside : ∀ p ∈ r.2.patches, p.entry ∈ es ∧ p.width = p.entry.fieldWidth ∧
    p.addr = img.base + p.entry.targetRva ∧ p.addr + p.width ≤ img.base + img.size
  refused : (∃ e ∈ es, ¬ e.FieldInside img) → ∃ rva, r.1 = .error (.relocRvaOutOfRange rva)

/-- The walk gets, past entries in order only, to one whose narrowed RVA is outside the image. -/
def Rejected (img : MappedImage) (s : Space) : List Entry → Prop
  | [] => False
  | e :: es =>
    (e.typ ≠ 0 ∧ img.size ≤ e.narrowRva.toNat) ∨
      ((e.typ = 0 ∨ e.narrowRva.toNat < img.size ∧ e.SpanMapped img s) ∧ e.FieldInside img ∧
        Rejected img s es)

/-! ## The loop as a walk -/

/-- The stores made for a list of entries, and the error the loop stops with. -/
inductive Walk (img : MappedImage) (s : Space) : List Entry → List Patch → Option MapError → Prop
  | done : Walk img s [] [] none
  | skip {e : Entry} {es : List Entry} {ps : List Patch} {r : Option MapError} (ht : e.typ = 0)
      (h : Walk img s es ps r) : Walk img s (e :: es) ps r
  | outside {e : Entry} {es : List Entry} (ht : e.typ ≠ 0) (hr : img.size ≤ e.narrowRva.toNat) :
      Walk img s (e :: es) [] (some (.relocRvaOutOfRange e.narrowRva))
  | blocked {e : Entry} {es : List Entry} {m : String} {a n : Nat} (ht : e.typ ≠ 0)
      (hr : e.narrowRva.toNat < img.size) (hm : ¬ e.SpanMapped img s) :
      Walk img s (e :: es) [] (some (.mprotectFailed m a n))
  | patch {e : Entry} {es : List Entry} {ps : List Patch} {r : Option MapError} (ht : e.typ ≠ 0)
      (hr : e.narrowRva.toNat < img.size) (hm : e.SpanMapped img s) (h : Walk img s es ps r) :
      Walk img s (e :: es) (e.patches img ++ ps) r

variable {img : MappedImage} {s : Space}

variable {r : Option MapError}

theorem Walk.append {es es' : List Entry} {ps ps' : List Patch} (h : Walk img s es ps none)
    (h' : Walk img s es' ps' r) : Walk img s (es ++ es') (ps ++ ps') r := by
  generalize hn : (none : Option MapError) = o at h
  induction h with
  | done => exact h'
  | skip ht _ ih => exact .skip ht (ih hn)
  | outside => cases hn
  | blocked => cases hn
  | patch ht hr hm _ ih =>
    rw [List.append_assoc]
    exact .patch ht hr hm (ih hn)

variable {es : List Entry} {ps : List Patch}

theorem Walk.stops {err : MapError} (es' : List Entry) (h : Walk img s es ps (some err)) :
    Walk img s (es ++ es') ps (some err) := by
  generalize hn : some err = o at h
  induction h with
  | done => cases hn
  | skip ht _ ih => exact .skip ht (ih hn)
  | outside ht hr => exact .outside ht hr
  | blocked ht hr hm => exact .blocked ht hr hm
  | patch ht hr hm _ ih => exact .patch ht hr hm (ih hn)

/-- Patching changes no mapping, and is recorded. -/
theorem applyOneReloc_patches (e : Entry) (st : State) (delta : BitVec 64) :
    (applyOneReloc e (e.target img) delta st).patches = st.patches ++ e.patches img := by
  unfold applyOneReloc Entry.patches Entry.fieldWidth
  generalize e.typ = t
  split <;> simp [State.patch]

theorem applyOneReloc_isSome (e : Entry) (a : Nat) (st : State) (delta : BitVec 64) (i : Nat) :
    ((applyOneReloc e a delta st).space i).isSome = (st.space i).isSome := by
  unfold applyOneReloc
  split
  · exact storeBytes_isSome i _ _ _
  · exact storeBytes_isSome i _ _ _
  · exact storeBytes_isSome i _ _ _
  · rfl

/-- The error of a walk as the result of the loop. -/
def result : Option MapError → Except MapError Unit
  | none => .ok ()
  | some e => .error e

theorem unprotectSpan_fst (pe : Pe) (a span : Nat) :
    (unprotectSpan img pe a span).1 = roundDown a pageSize := by
  unfold unprotectSpan
  simp only
  split <;> rfl

theorem unprotectSpan_len (pe : Pe) (a span : Nat) :
    (unprotectSpan img pe a span).2.1 = roundUp (a + span) pageSize - roundDown a pageSize := by
  unfold unprotectSpan
  simp only
  split <;> rfl

/-- The pages of the span made writable. -/
def State.flip (st : State) (start len : Nat) : Bool × State :=
  ((mprotect st.space (start / pageSize) (len / pageSize) .readWrite).1,
    { st with space := (mprotect st.space (start / pageSize) (len / pageSize) .readWrite).2 })

/-- The protection put back, which may fail unnoticed. -/
def State.restore (st : State) (start len : Nat) (p : Prot) : State :=
  { st with space := (mprotect st.space (start / pageSize) (len / pageSize) p).2 }

theorem flip_fst {st : State} {start len : Nat} :
    (st.flip start len).1 = true ↔ Mapped st.space (start / pageSize) (len / pageSize) :=
  mprotect_fst

theorem flip_isSome (st : State) (start len i : Nat) :
    ((st.flip start len).2.space i).isSome = (st.space i).isSome :=
  mprotect_isSome i

theorem restore_isSome (st : State) (start len : Nat) (p : Prot) (i : Nat) :
    ((st.restore start len p).space i).isSome = (st.space i).isSome :=
  mprotect_isSome i

theorem flip_patches (st : State) (start len : Nat) :
    (st.flip start len).2.patches = st.patches := rfl

theorem restore_patches (st : State) (start len : Nat) (p : Prot) :
    (st.restore start len p).patches = st.patches := rfl

theorem flip_patch_restore (start len : Nat) (p : Prot) (f : State → State) (err : MapError)
    (st : State) :
    (do
        if ← mprotectCall start len .readWrite then do
          .modify f
          let _ ← mprotectCall start len p
          pure ()
        else
          .throw err : Reloc Unit) st =
      if (st.flip start len).1 then
        (.ok (), (f (st.flip start len).2).restore start len p)
      else
        (.error err, (st.flip start len).2) := by
  have hcall : mprotectCall start len .readWrite st =
      (.ok (st.flip start len).1, (st.flip start len).2) := rfl
  refine (Fallible.bind_ok hcall).trans ?_
  cases (st.flip start len).1 with
  | true => rfl
  | false => rfl

theorem applyEntry_of_lt (pe : Pe) (delta : BitVec 64) {e : Entry} (st : State) (ht : e.typ ≠ 0)
    (hr : e.narrowRva.toNat < img.size) :
    applyEntry img pe delta e st =
      let span := unprotectSpan img pe (e.target img) 8
      if (st.flip span.1 span.2.1).1 then
        (.ok (), (applyOneReloc e (e.target img) delta (st.flip span.1 span.2.1).2).restore
          span.1 span.2.1 span.2.2)
      else
        (.error (.mprotectFailed "relocation target" span.1 span.2.1),
          (st.flip span.1 span.2.1).2) := by
  have hptr : img.rvaToPtr e.narrowRva = some (e.target img) := if_pos hr
  unfold applyEntry
  rw [if_neg ht]
  simp only [hptr]
  exact flip_patch_restore _ _ _ _ _ st

/-- One entry is one step of the walk. -/
theorem applyEntry_walk (pe : Pe) (delta : BitVec 64) (e : Entry) (st : State)
    (hs : ∀ i, (st.space i).isSome = (s i).isSome) :
    ∃ ps r st', Walk img s [e] ps r ∧ applyEntry img pe delta e st = (result r, st') ∧
      st'.patches = st.patches ++ ps ∧ ∀ i, (st'.space i).isSome = (s i).isSome := by
  by_cases ht : e.typ = 0
  · unfold applyEntry
    rw [if_pos ht]
    exact ⟨[], none, st, .skip ht .done, rfl, (List.append_nil _).symm, hs⟩
  by_cases hr : e.narrowRva.toNat < img.size
  · have heq := applyEntry_of_lt pe delta st ht hr
    simp only [unprotectSpan_fst, unprotectSpan_len] at heq
    have hflip : (st.flip (roundDown (e.target img) pageSize)
        (roundUp (e.target img + 8) pageSize - roundDown (e.target img) pageSize)).1 = true ↔
        e.SpanMapped img s :=
      flip_fst.trans (mapped_congr hs)
    by_cases hm : e.SpanMapped img s
    · rw [if_pos (hflip.mpr hm)] at heq
      refine ⟨e.patches img ++ [], none, _, .patch ht hr hm .done, heq, ?_, ?_⟩
      · rw [restore_patches, applyOneReloc_patches, flip_patches, List.append_nil]
      · intro i
        rw [restore_isSome, applyOneReloc_isSome, flip_isSome, hs i]
    · rw [if_neg fun h => hm (hflip.mp h)] at heq
      refine ⟨[], some _, _, .blocked ht hr hm, heq, ?_, ?_⟩
      · rw [flip_patches, List.append_nil]
      · intro i
        rw [flip_isSome, hs i]
  · have hptr : img.rvaToPtr e.narrowRva = none := if_neg hr
    unfold applyEntry
    rw [if_neg ht]
    simp only [hptr]
    exact ⟨[], _, st, .outside ht (Nat.le_of_not_lt hr), rfl, (List.append_nil _).symm, hs⟩

theorem applyEntries_walk (pe : Pe) (delta : BitVec 64) (es : List Entry) :
    ∀ st : State, (∀ i, (st.space i).isSome = (s i).isSome) →
      ∃ ps r st', Walk img s es ps r ∧ applyEntries img pe delta es st = (result r, st') ∧
        st'.patches = st.patches ++ ps ∧ ∀ i, (st'.space i).isSome = (s i).isSome := by
  induction es with
  | nil =>
    intro st hs
    exact ⟨[], none, st, .done, rfl, (List.append_nil _).symm, hs⟩
  | cons e es ih =>
    intro st hs
    obtain ⟨ps, r, st₁, hw, heq, hps, hs₁⟩ := @applyEntry_walk img s pe delta e st hs
    unfold applyEntries
    cases r with
    | some err =>
      rw [Fallible.bind_error heq]
      exact ⟨ps, some err, st₁, hw.stops es, rfl, hps, hs₁⟩
    | none =>
      rw [Fallible.bind_ok heq]
      obtain ⟨ps', r', st₂, hw', heq', hps', hs₂⟩ := ih st₁ hs₁
      refine ⟨ps ++ ps', r', st₂, hw.append hw', heq', ?_, hs₂⟩
      rw [hps', hps, List.append_assoc]

theorem applyBlocks_walk (pe : Pe) (delta : BitVec 64) (rest : List Byte) :
    ∀ st : State, (∀ i, (st.space i).isSome = (s i).isSome) →
      ∃ ps r, Walk img s (streamEntries rest) ps r ∧
        (applyBlocks img pe delta rest st).2.patches = st.patches ++ ps ∧
        ∀ rva, (applyBlocks img pe delta rest st).1 = .error (.relocRvaOutOfRange rva) ↔
          r = some (.relocRvaOutOfRange rva) := by
  induction rest using streamEntries.induct with
  | case1 rest hlen =>
    intro st _
    rw [applyBlocks, streamEntries, if_pos hlen, if_pos hlen]
    exact ⟨[], none, .done, (List.append_nil _).symm, fun rva => ⟨nofun, nofun⟩⟩
  | case2 rest hlen hbad =>
    intro st _
    rw [applyBlocks, streamEntries, if_neg hlen, if_neg hlen, if_pos hbad, if_pos hbad]
    exact ⟨[], none, .done, (List.append_nil _).symm, fun rva => ⟨nofun, nofun⟩⟩
  | case3 rest hlen hbad ih =>
    intro st hs
    rw [applyBlocks, streamEntries, if_neg hlen, if_neg hlen, if_neg hbad, if_neg hbad]
    obtain ⟨ps, r, st₁, hw, heq, hps, hs₁⟩ := @applyEntries_walk img s pe delta
      (blockEntries (u32At rest 0) ((rest.take (u32At rest 4).toNat).drop 8)) st hs
    cases r with
    | some err =>
      rw [Fallible.bind_error heq]
      refine ⟨ps, some err, hw.stops _, hps, fun rva => ?_⟩
      show Except.error err = _ ↔ _
      rw [Except.error.injEq, Option.some.injEq]
    | none =>
      rw [Fallible.bind_ok heq]
      obtain ⟨ps', r', hw', hps', hr'⟩ := ih st₁ hs₁
      refine ⟨ps ++ ps', r', hw.append hw', ?_, hr'⟩
      rw [hps', hps, List.append_assoc]

/-! ## When the walk keeps to the image -/

theorem fieldInside_of_typ_eq_zero {e : Entry} (ht : e.typ = 0) : e.FieldInside img := by
  refine Or.inl ?_
  unfold Entry.fieldWidth
  rw [ht]
  rfl

theorem Walk.patch_entry (h : Walk img s es ps r) :
    ∀ p ∈ ps, p.entry ∈ es ∧ p.width = p.entry.fieldWidth ∧
      p.addr = p.entry.target img ∧ p.entry.fieldWidth ≠ 0 := by
  induction h with
  | done => exact nofun
  | skip _ _ ih =>
    intro p hp
    exact ⟨List.mem_cons_of_mem _ (ih p hp).1, (ih p hp).2⟩
  | outside => exact nofun
  | blocked => exact nofun
  | @patch e es ps r _ _ _ _ ih =>
    intro p hp
    rcases List.mem_append.mp hp with hp | hp
    · unfold Entry.patches at hp
      split_ifs at hp with hw
      · exact absurd hp List.not_mem_nil
      · rw [List.mem_singleton.mp hp]
        exact ⟨List.mem_cons_self, rfl, rfl, hw⟩
    · exact ⟨List.mem_cons_of_mem _ (ih p hp).1, (ih p hp).2⟩

theorem target_of_fieldInside {e : Entry} (hw : e.fieldWidth ≠ 0) (hin : e.FieldInside img) :
    e.target img = img.base + e.targetRva := by
  have hle := hin.resolve_left hw
  have hsize := img.size_le
  unfold Entry.target Entry.narrowRva
  rw [BitVec.toNat_ofNat, Nat.mod_eq_of_lt (by omega)]

theorem Walk.stores_in_order (h : Walk img s es ps r) :
    (∀ p ∈ ps, p.entry ∈ es ∧ p.width = p.entry.fieldWidth ∧
      p.addr = img.base + p.entry.targetRva ∧ p.addr + p.width ≤ img.base + img.size) ↔
    ∀ p ∈ ps, p.entry.FieldInside img := by
  refine forall₂_congr fun p hp => ?_
  obtain ⟨hmem, hwidth, haddr, hw⟩ := h.patch_entry p hp
  constructor
  · intro hin
    obtain ⟨-, -, hexact, hle⟩ := hin
    rw [hexact, hwidth] at hle
    exact Or.inr (by omega)
  · intro hin
    have hexact := haddr.trans (target_of_fieldInside hw hin)
    refine ⟨hmem, hwidth, hexact, ?_⟩
    rw [hexact, hwidth]
    have hle := hin.resolve_left hw
    omega

theorem Walk.in_order_iff (h : Walk img s es ps r) :
    ((∀ p ∈ ps, p.entry.FieldInside img) ∧
      ((∃ e ∈ es, ¬ e.FieldInside img) → ∃ rva, r = some (.relocRvaOutOfRange rva))) ↔
    (∀ e ∈ es, e.FieldInside img) ∨ Rejected img s es := by
  induction h with
  | done => simp
  | @skip e es ps r ht _ ih =>
    have hin : e.FieldInside img := fieldInside_of_typ_eq_zero ht
    simpa [Rejected, hin, ht] using ih
  | @outside e es ht hr => simp [Rejected, ht, hr]
  | @blocked e es m a n ht hr hm =>
    have hlt : ¬ img.size ≤ e.narrowRva.toNat := Nat.not_le.mpr hr
    simp only [Rejected, ht, hm, hlt, ne_eq, not_false_eq_true, false_and, and_false, or_false]
    constructor
    · intro hno e' he'
      by_contra hout
      obtain ⟨rva, hrva⟩ := hno.2 ⟨e', he', hout⟩
      cases hrva
    · intro hall
      exact ⟨nofun, fun ⟨e', he', hout⟩ => absurd (hall e' he') hout⟩
  | @patch e es ps r ht hr hm hw ih =>
    have hlt : ¬ img.size ≤ e.narrowRva.toNat := Nat.not_le.mpr hr
    by_cases hin : e.FieldInside img
    · have hown : ∀ p ∈ e.patches img, p.entry.FieldInside img := by
        intro p hp
        unfold Entry.patches at hp
        split_ifs at hp with hz
        · exact absurd hp List.not_mem_nil
        · rw [List.mem_singleton.mp hp]
          exact hin
      have hps : (∀ p ∈ e.patches img ++ ps, p.entry.FieldInside img) ↔
          ∀ p ∈ ps, p.entry.FieldInside img :=
        ⟨fun hall p hp => hall p (List.mem_append_right _ hp),
          fun hall p hp => (List.mem_append.mp hp).elim (hown p) (hall p)⟩
      rw [hps]
      simpa [Rejected, hin, ht, hlt, hr, hm] using ih
    · have hw : e.fieldWidth ≠ 0 := fun hz => hin (Or.inl hz)
      have hmem : (⟨e, e.target img, e.fieldWidth⟩ : Patch) ∈ e.patches img ++ ps := by
        unfold Entry.patches
        rw [if_neg hw]
        exact List.mem_append_left _ List.mem_cons_self
      constructor
      · intro hno
        exact absurd (hno.1 _ hmem) hin
      · intro hall
        rcases hall with hall | hrej
        · exact absurd (hall e List.mem_cons_self) hin
        · rcases hrej with hrej | hrej
          · exact absurd hrej.2 hlt
          · exact absurd hrej.2.1 hin

theorem contained_of_untouched {r : Except MapError Unit}
    (hr : ∀ rva, r ≠ .error (.relocRvaOutOfRange rva)) :
    Contained img es (r, ⟨s, []⟩) ↔ ∀ e ∈ es, e.FieldInside img := by
  constructor
  · intro h e he
    by_contra hout
    obtain ⟨rva, hrva⟩ := h.refused ⟨e, he, hout⟩
    exact hr rva hrva
  · intro hall
    exact ⟨nofun, fun ⟨e, he, hout⟩ => absurd (hall e he) hout⟩

theorem contained_iff_of_walk {o : Option MapError} {r : Except MapError Unit × State}
    (h : Walk img s es ps o) (hps : r.2.patches = ps)
    (hr : ∀ rva, r.1 = .error (.relocRvaOutOfRange rva) ↔ o = some (.relocRvaOutOfRange rva)) :
    Contained img es r ↔ (∀ e ∈ es, e.FieldInside img) ∨ Rejected img s es := by
  rw [← h.in_order_iff, ← h.stores_in_order]
  simp only [← hr, ← hps]
  exact ⟨fun hc => ⟨hc.inside, hc.refused⟩, fun hc => ⟨hc.1, hc.2⟩⟩

/-- Stores keep to the fields of their entries inside the image, and a field outside it is refused,
    exactly when every field is inside or the walk is stopped in time. -/
theorem relocation_contained_iff (img : MappedImage) (bytes : List Byte) (pe : Pe)
    (dir : DataDirectory) (s : Space) :
    Contained img (relocEntries bytes pe dir) (applyRelocations img bytes pe dir ⟨s, []⟩) ↔
      (∀ e ∈ relocEntries bytes pe dir, e.FieldInside img) ∨
        (img.delta ≠ 0 ∧ Rejected img s (relocEntries bytes pe dir)) := by
  unfold applyRelocations relocEntries
  by_cases hdir : dir.virtualAddress = 0 ∨ dir.size = 0
  · rw [if_pos hdir, if_pos hdir]
    exact (contained_of_untouched (r := .ok ()) (by simp)).trans (by simp)
  rw [if_neg hdir, if_neg hdir]
  by_cases hdelta : img.delta = 0
  · rw [if_pos hdelta]
    exact (contained_of_untouched (r := .ok ()) (by simp)).trans (by simp [hdelta])
  rw [if_neg hdelta]
  cases hoff : rvaToFileOffset bytes pe dir.virtualAddress with
  | none =>
    exact (contained_of_untouched (r := .error (.relocDirOutOfRange _)) (by simp)).trans
      (by simp)
  | some start =>
    by_cases hlen : bytes.length < start + dir.size.toNat
    · simp only [if_pos hlen]
      exact (contained_of_untouched (r := .error (.relocDirOutOfRange _)) (by simp)).trans
        (by simp)
    · simp only [if_neg hlen]
      obtain ⟨ps, r, hw, hps, hr⟩ := @applyBlocks_walk img s pe img.delta
        ((bytes.drop start).take dir.size.toNat) ⟨s, []⟩ fun _ => rfl
      rw [and_iff_right (show img.delta ≠ 0 from hdelta)]
      exact contained_iff_of_walk hw hps hr

/-! ## A pointer at the end of the image -/

/-- A two-page image at 0x10000: the headers, and one section that fills the second page. -/
def edgeImage : MappedImage := ⟨0x10, 0x2000, 0, by decide⟩

def edgePe : Pe := ⟨[⟨".data", 0x1000, 0x1000, 0x200, 0x200, 0xC0000040⟩]⟩

/-- One block for page 0x1000, of 12 bytes: a DIR64 entry at offset 0xFFC and padding. -/
def edgeReloc : List Byte := [0, 0x10, 0, 0, 12, 0, 0, 0, 0xFC, 0xAF, 0, 0]

/-- The file: 0x200 bytes of headers, then the section's raw data. -/
def edgeFile : List Byte := List.replicate 0x200 0 ++ edgeReloc ++ List.replicate 0x1F4 0

/-- The image and, right behind it, another mapping. -/
def edgeSpace : Space := mapZero (fun _ => none) 0x10 3 .readWrite

/-- The pointer is patched across the end of the image, into the next mapping. -/
theorem edge_not_contained :
    ¬ Contained edgeImage (relocEntries edgeFile edgePe ⟨0x1000, 12⟩)
      (applyRelocations edgeImage edgeFile edgePe ⟨0x1000, 12⟩ ⟨edgeSpace, []⟩) := by
  have hpatches : (applyRelocations edgeImage edgeFile edgePe ⟨0x1000, 12⟩
      ⟨edgeSpace, []⟩).2.patches = [⟨⟨0x1000, 0xAFFC⟩, 0x11FFC, 8⟩] := by
    have hlen : edgeFile.length = 0x400 := by
      unfold edgeFile
      rw [List.length_append, List.length_append, List.length_replicate, List.length_replicate]
      rfl
    have hoff : rvaToFileOffset edgeFile edgePe 0x1000 = some 0x200 := by
      unfold rvaToFileOffset
      rw [hlen]
      decide
    have hslice : (edgeFile.drop 0x200).take (12 : BitVec 32).toNat = edgeReloc := by
      unfold edgeFile
      rw [List.append_assoc, List.drop_left' List.length_replicate]
      exact List.take_left' rfl
    unfold applyRelocations
    rw [if_neg (by decide), if_neg (by decide)]
    simp only [hoff, hlen, hslice]
    rw [if_neg (by decide), applyBlocks, if_neg (by decide), if_neg (by decide), applyBlocks,
      if_pos (by decide)]
    rfl
  intro h
  have hin := (h.inside ⟨⟨0x1000, 0xAFFC⟩, 0x11FFC, 8⟩ (hpatches ▸ List.mem_cons_self)).2.2.2
  exact absurd hin (by decide)

end WinCompat.Loader
