import Mathlib.Data.List.TakeWhile
import WinCompat.Lib.Bytes
import WinCompat.Loader.Contained

/-!
# What relocation leaves in memory

A field is shifted when its word is the old one plus `delta`, modulo its width. A relocation shifts
the fields of the entries it gets to and leaves every other byte (`Shifted`); shifts of disjoint
fields add up, and a shift is determined by what it says.

The span whose pages are made writable is always eight bytes long. A narrower field at the very end
of the image has its span run into the page behind, and unless something is mapped there the entry
is refused (`Entry.Clear`).
-/

namespace WinCompat.Loader

open Lib Lib.Paging
open Lib.Bytes (leNat leNat_lt leNat_byte leNat_low byte byte_congr)

/-! ## Words in memory -/

theorem loadBytes_length (s : Space) (a n : Nat) : (loadBytes s a n).length = n := by
  simp [loadBytes]

theorem loadWord_toNat (s : Space) (a : Nat) {width : Nat} (hw : width ≤ 8) :
    (loadWord s a width).toNat = leNat (loadBytes s a width) := by
  have hlt := leNat_lt (loadBytes s a width)
  rw [loadBytes_length] at hlt
  have hpow : 2 ^ (8 * width) ≤ 2 ^ 64 := Nat.pow_le_pow_right (by decide) (by omega)
  exact Nat.mod_eq_of_lt (Nat.lt_of_lt_of_le hlt hpow)

theorem byte_loadWord (s : Space) (a : Nat) {width j : Nat} (hw : width ≤ 8) (hj : j < width) :
    byte (loadWord s a width) j = (getByte s (a + j)).getD 0 := by
  apply BitVec.eq_of_toNat_eq
  simp only [byte, BitVec.extractLsb'_toNat, Nat.shiftRight_eq_div_pow]
  rw [loadWord_toNat s a hw, leNat_byte]
  simp [loadBytes, List.getD, hj]

theorem loadWord_congr {s s' : Space} {a width : Nat}
    (h : ∀ j < width, getByte s' (a + j) = getByte s (a + j)) :
    loadWord s' a width = loadWord s a width := by
  have hbytes : loadBytes s' a width = loadBytes s a width := by
    apply List.map_congr_left
    intro j hj
    rw [h j (List.mem_range.mp hj)]
  unfold loadWord
  rw [hbytes]

theorem loadWord_of_bytes {s : Space} {a width : Nat} {v : BitVec 64} (hw : width ≤ 8)
    (h : ∀ j < width, getByte s (a + j) = some (byte v j)) :
    (loadWord s a width).toNat = v.toNat % 2 ^ (8 * width) := by
  have hbytes : loadBytes s a width = (List.range width).map fun j => byte v j := by
    apply List.map_congr_left
    intro j hj
    rw [h j (List.mem_range.mp hj)]
    rfl
  rw [loadWord_toNat s a hw, hbytes, leNat_low]

theorem Holds.getByte {s : Space} : ∀ {bs : List Byte} {a j : Nat}, Holds s a bs →
    (hj : j < bs.length) → getByte s (a + j) = some bs[j] := by
  intro bs
  induction bs with
  | nil =>
    intro a j _ hj
    exact absurd hj (Nat.not_lt_zero j)
  | cons b bs ih =>
    intro a j h hj
    cases j with
    | zero => exact h.1
    | succ j =>
      have hrest := ih h.2 (Nat.lt_of_succ_lt_succ hj)
      rw [Nat.add_assoc, Nat.add_comm 1 j] at hrest
      exact hrest

theorem getByte_store_word {s : Space} {a width j : Nat} {v : BitVec 64}
    (hmapped : ∀ x, a ≤ x → x < a + width → (s (x / pageSize)).isSome) (hj : j < width) :
    Paging.getByte (storeBytes s a (lowBytes v width)) (a + j) = some (byte v j) := by
  have hholds : Holds (storeBytes s a (lowBytes v width)) a (lowBytes v width) := by
    apply holds_storeBytes
    rw [lowBytes_length]
    exact hmapped
  rw [Holds.getByte hholds (by rwa [lowBytes_length])]
  simp [lowBytes, byte]

/-! ## Shifted fields -/

namespace Entry

/-- Where the field of the entry is. -/
def fieldAddr (img : MappedImage) (e : Entry) : Nat := img.base + e.targetRva

def Covers (img : MappedImage) (e : Entry) (x : Nat) : Prop :=
  e.fieldAddr img ≤ x ∧ x < e.fieldAddr img + e.fieldWidth

/-- No byte is in the fields of both. -/
def Apart (e e' : Entry) : Prop :=
  e.fieldWidth = 0 ∨ e'.fieldWidth = 0 ∨ e.targetRva + e.fieldWidth ≤ e'.targetRva ∨
    e'.targetRva + e'.fieldWidth ≤ e.targetRva

theorem fieldWidth_le (e : Entry) : e.fieldWidth ≤ 8 := by
  unfold fieldWidth
  split <;> decide

theorem Apart.not_covers {img : MappedImage} {e e' : Entry} (h : e.Apart e') {x : Nat}
    (hx : e.Covers img x) : ¬ e'.Covers img x := by
  intro hx'
  unfold Covers fieldAddr at hx hx'
  unfold Apart at h
  omega

theorem Apart.symm {e e' : Entry} (h : e.Apart e') : e'.Apart e := by
  unfold Apart at h ⊢
  omega

end Entry

/-- `s'` is `s` with `d` added to the field of every entry. -/
structure Shifted (img : MappedImage) (d : BitVec 64) (es : List Entry) (s s' : Space) : Prop where
  fields : ∀ e ∈ es, ∀ j < e.fieldWidth, getByte s' (e.fieldAddr img + j) =
    some (byte (loadWord s (e.fieldAddr img) e.fieldWidth + d) j)
  rest : ∀ x, (∀ e ∈ es, ¬ e.Covers img x) → getByte s' x = getByte s x

variable {img : MappedImage} {d d' : BitVec 64} {es : List Entry} {s s' s'' : Space}

variable {e : Entry}

theorem covers_of_lt {j : Nat} (hj : j < e.fieldWidth) : e.Covers img (e.fieldAddr img + j) :=
  ⟨Nat.le_add_right _ _, Nat.add_lt_add_left hj _⟩

theorem Shifted.nil : Shifted img d [] s s :=
  ⟨nofun, fun _ _ => rfl⟩

theorem Shifted.loadWord (h : Shifted img d es s s') (he : e ∈ es) :
    (Loader.loadWord s' (e.fieldAddr img) e.fieldWidth).toNat =
      ((Loader.loadWord s (e.fieldAddr img) e.fieldWidth).toNat + d.toNat) %
        2 ^ (8 * e.fieldWidth) := by
  have hle : 8 * e.fieldWidth ≤ 64 := Nat.mul_le_mul_left 8 e.fieldWidth_le
  rw [loadWord_of_bytes e.fieldWidth_le (h.fields e he), BitVec.toNat_add]
  exact Nat.mod_mod_of_dvd _ (Nat.pow_dvd_pow 2 hle)

/-- One field first, then fields apart from it. -/
theorem Shifted.cons (hfirst : Shifted img d [e] s s') (hrest : Shifted img d es s' s'')
    (hapart : ∀ e' ∈ es, e.Apart e') : Shifted img d (e :: es) s s'' where
  fields := by
    intro e' he' j hj
    rcases List.mem_cons.mp he' with rfl | he'
    · have hkeep := hrest.rest _ fun e'' he'' => (hapart e'' he'').not_covers (covers_of_lt hj)
      rw [hkeep]
      exact hfirst.fields e' List.mem_cons_self j hj
    · have hsame : Loader.loadWord s' (e'.fieldAddr img) e'.fieldWidth =
          Loader.loadWord s (e'.fieldAddr img) e'.fieldWidth := by
        apply loadWord_congr
        intro k hk
        apply hfirst.rest
        intro e'' he''
        rw [List.mem_singleton.mp he'']
        exact (hapart e' he').symm.not_covers (covers_of_lt hk)
      rw [hrest.fields e' he' j hj, hsame]
  rest := by
    intro x hx
    rw [hrest.rest x fun e' he' => hx e' (List.mem_cons_of_mem _ he')]
    apply hfirst.rest
    intro e' he'
    rw [List.mem_singleton.mp he']
    exact hx e List.mem_cons_self

theorem Shifted.trans (h : Shifted img d es s s') (h' : Shifted img d' es s' s'') :
    Shifted img (d + d') es s s'' where
  fields := by
    intro e he j hj
    rw [h'.fields e he j hj]
    congr 1
    apply byte_congr hj
    have hle : 8 * e.fieldWidth ≤ 64 := Nat.mul_le_mul_left 8 e.fieldWidth_le
    have hdvd := Nat.pow_dvd_pow 2 hle
    rw [BitVec.toNat_add, h.loadWord he, Nat.mod_mod_of_dvd _ hdvd, Nat.mod_add_mod,
      ← BitVec.add_assoc, BitVec.toNat_add, BitVec.toNat_add, Nat.mod_mod_of_dvd _ hdvd,
      Nat.add_mod ((_ + _) % 2 ^ 64), Nat.mod_mod_of_dvd _ hdvd, ← Nat.add_mod]
  rest := by
    intro x hx
    rw [h'.rest x hx, h.rest x hx]

theorem Shifted.unique (h : Shifted img d es s s') (h' : Shifted img d es s s'') (x : Nat) :
    getByte s'' x = getByte s' x := by
  by_cases hx : ∃ e ∈ es, e.Covers img x
  · obtain ⟨e, he, hlow, hhigh⟩ := hx
    obtain ⟨j, rfl⟩ := Nat.exists_eq_add_of_le hlow
    have hj : j < e.fieldWidth := by omega
    rw [h'.fields e he j hj, h.fields e he j hj]
  · have hnone : ∀ e ∈ es, ¬ e.Covers img x := fun e he hc => hx ⟨e, he, hc⟩
    rw [h'.rest x hnone, h.rest x hnone]

theorem Shifted.zero
    (hmapped : ∀ e ∈ es, ∀ x, e.Covers img x → (s (x / pageSize)).isSome) :
    Shifted img 0 es s s where
  fields := by
    intro e he j hj
    have hsome := hmapped e he _ (covers_of_lt hj)
    obtain ⟨pg, hpg⟩ := Option.isSome_iff_exists.mp hsome
    have hzero : Loader.loadWord s (e.fieldAddr img) e.fieldWidth + 0 =
        Loader.loadWord s (e.fieldAddr img) e.fieldWidth := BitVec.add_zero _
    rw [hzero, byte_loadWord s _ e.fieldWidth_le hj]
    simp [getByte, hpg]
  rest := fun _ _ => rfl

/-! ## One entry -/

/-- The image is there, in whole pages. -/
structure Placed (img : MappedImage) (s : Space) : Prop where
  whole : img.size % pageSize = 0
  mapped : Mapped s img.basePage (img.size / pageSize)

theorem Placed.congr (h : Placed img s) (hkeep : ∀ i, (s' i).isSome = (s i).isSome) :
    Placed img s' :=
  ⟨h.whole, (mapped_congr hkeep).mpr h.mapped⟩

theorem Placed.isSome_of_lt (h : Placed img s) {x : Nat} (hlow : img.base ≤ x)
    (hhigh : x < img.base + img.size) : (s (x / pageSize)).isSome := by
  apply h.mapped
  have hwhole := h.whole
  unfold MappedImage.base at hlow hhigh
  unfold InRange
  unfold pageSize at *
  omega

/-- Eight bytes at the target are all mapped. -/
def Entry.Clear (img : MappedImage) (s : Space) (e : Entry) : Prop :=
  e.targetRva + 8 ≤ img.size ∨ (s (img.basePage + img.size / pageSize)).isSome

instance (img : MappedImage) (s : Space) (e : Entry) : Decidable (e.Clear img s) :=
  inferInstanceAs (Decidable (_ ∨ _))

theorem clear_congr (hkeep : ∀ i, (s' i).isSome = (s i).isSome) :
    e.Clear img s' ↔ e.Clear img s := by
  unfold Entry.Clear
  rw [hkeep]

theorem spanMapped_iff (h : Placed img s) (hw : e.fieldWidth ≠ 0) (hin : e.FieldInside img) :
    e.SpanMapped img s ↔ e.Clear img s := by
  have hle := hin.resolve_left hw
  have hwhole := h.whole
  unfold Entry.SpanMapped Entry.Clear
  rw [target_of_fieldInside hw hin]
  constructor
  · intro hspan
    by_cases hfits : e.targetRva + 8 ≤ img.size
    · exact Or.inl hfits
    · refine Or.inr (hspan _ (inRange_span.mpr ?_))
      unfold Touches MappedImage.base
      unfold pageSize at *
      omega
  · intro hclear i hi
    obtain ⟨hlow, hhigh⟩ := inRange_span.mp hi
    by_cases hlast : i = img.basePage + img.size / pageSize
    · rcases hclear with hfits | hnext
      · exfalso
        unfold MappedImage.base at hhigh
        unfold pageSize at *
        omega
      · rw [hlast]
        exact hnext
    · apply h.mapped
      unfold MappedImage.base at hlow hhigh
      unfold InRange
      unfold pageSize at *
      omega

theorem applyOneReloc_space (e : Entry) (a : Nat) (d : BitVec 64) (st : State) :
    (applyOneReloc e a d st).space = storeBytes st.space a
      (lowBytes (loadWord st.space a e.fieldWidth + d) e.fieldWidth) := by
  unfold applyOneReloc Entry.fieldWidth
  generalize e.typ = t
  split
  · rfl
  · rfl
  · rfl
  · simp [lowBytes, storeBytes]

theorem getByte_flip (st : State) (start len x : Nat) :
    getByte (st.flip start len).2.space x = getByte st.space x :=
  getByte_mprotect x

theorem getByte_restore (st : State) (start len : Nat) (p : Prot) (x : Nat) :
    getByte (st.restore start len p).space x = getByte st.space x :=
  getByte_mprotect x

theorem shifted_patch (h : Placed img s) (hw : e.fieldWidth ≠ 0) (hin : e.FieldInside img)
    {st : State} (hkeep : ∀ i, (st.space i).isSome = (s i).isSome) :
    Shifted img d [e] st.space (applyOneReloc e (e.target img) d st).space := by
  have hle := hin.resolve_left hw
  rw [applyOneReloc_space, target_of_fieldInside hw hin]
  constructor
  · intro e' he' j hj
    rw [List.mem_singleton.mp he'] at hj ⊢
    apply getByte_store_word _ hj
    intro x hlow hhigh
    rw [hkeep]
    exact h.isSome_of_lt (by omega) (by omega)
  · intro x hx
    have hout := hx e List.mem_cons_self
    apply getByte_storeBytes_of_not_mem
    intro hlow
    rw [lowBytes_length]
    exact Nat.le_of_not_lt fun hhigh => hout ⟨hlow, hhigh⟩

theorem Shifted.congr {t t' : Space} (h : Shifted img d es s s')
    (ht : ∀ x, getByte t x = getByte s x) (ht' : ∀ x, getByte t' x = getByte s' x) :
    Shifted img d es t t' where
  fields := by
    intro e he j hj
    rw [ht', h.fields e he j hj, loadWord_congr fun k _ => ht _]
  rest := by
    intro x hx
    rw [ht', h.rest x hx, ht]

/-- The entries a relocation can be made of: padding, and fields inside the image. -/
structure Entry.Regular (img : MappedImage) (e : Entry) : Prop where
  kind : e.typ = 0 ∨ e.fieldWidth ≠ 0
  inside : e.FieldInside img

theorem typ_ne_zero (hw : e.fieldWidth ≠ 0) : e.typ ≠ 0 := by
  intro ht
  unfold Entry.fieldWidth at hw
  rw [ht] at hw
  exact hw rfl

theorem shifted_padding (hw : e.fieldWidth = 0) : Shifted img d [e] s s where
  fields := by
    intro e' he' j hj
    rw [List.mem_singleton.mp he', hw] at hj
    exact absurd hj (Nat.not_lt_zero j)
  rest := fun _ _ => rfl

/-- An entry the loop gets past. -/
theorem applyEntry_shift (h : Placed img s) (pe : Pe) (he : e.Regular img)
    (hclear : e.fieldWidth = 0 ∨ e.Clear img s) {st : State}
    (hkeep : ∀ i, (st.space i).isSome = (s i).isSome) :
    ∃ st', applyEntry img pe d e st = (.ok (), st') ∧
      (∀ i, (st'.space i).isSome = (s i).isSome) ∧ Shifted img d [e] st.space st'.space := by
  by_cases hw : e.fieldWidth = 0
  · have ht : e.typ = 0 := he.kind.resolve_right fun hne => hne hw
    unfold applyEntry
    rw [if_pos ht]
    exact ⟨st, rfl, hkeep, shifted_padding hw⟩
  have hle := he.inside.resolve_left hw
  have hr : e.narrowRva.toNat < img.size := by
    have htarget := target_of_fieldInside hw he.inside
    unfold Entry.target at htarget
    omega
  have heq := applyEntry_of_lt pe d st (typ_ne_zero hw) hr
  simp only [unprotectSpan_fst, unprotectSpan_len] at heq
  have hspan : e.SpanMapped img st.space :=
    (mapped_congr hkeep).mpr ((spanMapped_iff h hw he.inside).mpr (hclear.resolve_left hw))
  rw [if_pos (flip_fst.mpr hspan)] at heq
  have hkeep' := fun i => (flip_isSome st (roundDown (e.target img) pageSize)
    (roundUp (e.target img + 8) pageSize - roundDown (e.target img) pageSize) i).trans (hkeep i)
  refine ⟨_, heq, ?_, ?_⟩
  · intro i
    rw [restore_isSome, applyOneReloc_isSome, hkeep']
  · have hpatch := @shifted_patch img d s e h hw he.inside _ hkeep'
    exact hpatch.congr (fun x => (getByte_flip st _ _ x).symm) fun x => getByte_restore _ _ _ _ x

theorem applyEntry_stop (h : Placed img s) (pe : Pe) (he : e.Regular img) (hw : e.fieldWidth ≠ 0)
    (hblocked : ¬ e.Clear img s) {st : State} (hkeep : ∀ i, (st.space i).isSome = (s i).isSome) :
    ∃ err st', applyEntry img pe d e st = (.error err, st') ∧
      (∀ i, (st'.space i).isSome = (s i).isSome) ∧ ∀ x, getByte st'.space x = getByte st.space x := by
  have hle := he.inside.resolve_left hw
  have hr : e.narrowRva.toNat < img.size := by
    have htarget := target_of_fieldInside hw he.inside
    unfold Entry.target at htarget
    omega
  have heq := applyEntry_of_lt pe d st (typ_ne_zero hw) hr
  simp only [unprotectSpan_fst, unprotectSpan_len] at heq
  have hspan : ¬ e.SpanMapped img st.space := fun hspan =>
    hblocked ((spanMapped_iff h hw he.inside).mp ((mapped_congr hkeep).mp hspan))
  rw [if_neg fun hflip => hspan (flip_fst.mp hflip)] at heq
  refine ⟨_, _, heq, ?_, ?_⟩
  · intro i
    rw [flip_isSome, hkeep]
  · intro x
    exact getByte_flip st _ _ x

/-! ## The stream -/

/-- The loop gets past this entry. -/
def Entry.Passed (img : MappedImage) (s : Space) (e : Entry) : Prop :=
  e.fieldWidth = 0 ∨ e.Clear img s

instance (img : MappedImage) (s : Space) (e : Entry) : Decidable (e.Passed img s) :=
  inferInstanceAs (Decidable (_ ∨ _))

/-- The entries before the first that is not passed. -/
def passedEntries (img : MappedImage) (s : Space) (es : List Entry) : List Entry :=
  es.takeWhile fun e => decide (e.Passed img s)

theorem mem_of_mem_passedEntries (he : e ∈ passedEntries img s es) : e ∈ es :=
  (List.takeWhile_sublist _).subset he

theorem passedEntries_of_forall (h : ∀ e ∈ es, e.Passed img s) : passedEntries img s es = es := by
  apply List.takeWhile_eq_self_iff.mpr
  intro e he
  exact decide_eq_true (h e he)

theorem passedEntries_congr (hkeep : ∀ i, (s' i).isSome = (s i).isSome) :
    passedEntries img s' es = passedEntries img s es := by
  unfold passedEntries
  congr 1
  funext e
  exact decide_eq_decide.mpr (or_congr_right (clear_congr hkeep))

theorem passedEntries_cons_of_pos (h : e.Passed img s) :
    passedEntries img s (e :: es) = e :: passedEntries img s es :=
  List.takeWhile_cons_of_pos (decide_eq_true h)

theorem passedEntries_cons_of_neg (h : ¬ e.Passed img s) : passedEntries img s (e :: es) = [] :=
  List.takeWhile_cons_of_neg (by simpa using h)

theorem applyEntries_cons (pe : Pe) (e : Entry) :
    applyEntries img pe d (e :: es) =
      (applyEntry img pe d e >>= fun _ => applyEntries img pe d es) := rfl

theorem applyEntries_shift (h : Placed img s) (pe : Pe) :
    ∀ {es : List Entry}, (∀ e ∈ es, e.Regular img) → es.Pairwise Entry.Apart →
      ∀ st : State, (∀ i, (st.space i).isSome = (s i).isSome) →
        ∃ r st', applyEntries img pe d es st = (r, st') ∧
          (∀ i, (st'.space i).isSome = (s i).isSome) ∧ (r = .ok () ↔ ∀ e ∈ es, e.Passed img s) ∧
          Shifted img d (passedEntries img s es) st.space st'.space := by
  intro es
  induction es with
  | nil =>
    intro _ _ st hkeep
    exact ⟨.ok (), st, rfl, hkeep, by simp, .nil⟩
  | cons e es ih =>
    intro hreg hapart st hkeep
    obtain ⟨hhead, htail⟩ := List.pairwise_cons.mp hapart
    have hregs : ∀ e' ∈ es, e'.Regular img := fun e' he' => hreg e' (List.mem_cons_of_mem _ he')
    rw [applyEntries_cons]
    by_cases hpass : e.Passed img s
    · obtain ⟨st₁, heq, hkeep₁, hfirst⟩ :=
        applyEntry_shift (d := d) h pe (hreg e List.mem_cons_self) hpass hkeep
      obtain ⟨r, st₂, heq', hkeep₂, hok, hrest⟩ := ih hregs htail st₁ hkeep₁
      rw [Fallible.bind_ok heq, passedEntries_cons_of_pos hpass]
      refine ⟨r, st₂, heq', hkeep₂, ?_, ?_⟩
      · rw [hok, List.forall_mem_cons]
        exact (and_iff_right hpass).symm
      · apply hfirst.cons hrest
        intro e' he'
        exact hhead e' (mem_of_mem_passedEntries he')
    · obtain ⟨hw, hblocked⟩ := not_or.mp hpass
      obtain ⟨err, st₁, heq, hkeep₁, hsame⟩ :=
        applyEntry_stop (d := d) h pe (hreg e List.mem_cons_self) hw hblocked hkeep
      rw [Fallible.bind_error heq, passedEntries_cons_of_neg hpass]
      refine ⟨_, st₁, rfl, hkeep₁, ?_, ?_⟩
      · constructor
        · exact nofun
        · intro hall
          exact absurd (hall e List.mem_cons_self) hpass
      · exact Shifted.nil.congr (fun _ => rfl) hsame

/-- Block after block, each wholly there; up to seven bytes may be left at the end. -/
inductive BlockStream : List Byte → Prop
  | done {rest : List Byte} (h : rest.length < 8) : BlockStream rest
  | block {rest : List Byte} (h : 8 ≤ rest.length) (hgood : ¬ BadBlock rest)
      (hrest : BlockStream (rest.drop (u32At rest 4).toNat)) : BlockStream rest

theorem applyEntries_append (pe : Pe) (es' : List Entry) : ∀ (es : List Entry) (st : State),
    applyEntries img pe d (es ++ es') st =
      (applyEntries img pe d es >>= fun _ => applyEntries img pe d es') st := by
  intro es
  induction es with
  | nil =>
    intro st
    rfl
  | cons e es ih =>
    intro st
    rw [List.cons_append, applyEntries_cons, applyEntries_cons]
    cases heq : applyEntry img pe d e st with
    | mk r st₁ =>
      cases r with
      | error err =>
        have hstop : (applyEntry img pe d e >>= fun _ => applyEntries img pe d es) st =
            (.error err, st₁) := Fallible.bind_error heq
        rw [Fallible.bind_error heq, Fallible.bind_error hstop]
      | ok =>
        rw [Fallible.bind_ok heq, ih st₁]
        have hgo : (applyEntry img pe d e >>= fun _ => applyEntries img pe d es) st =
            applyEntries img pe d es st₁ := Fallible.bind_ok heq
        show Fallible.bind _ _ st₁ = Fallible.bind _ _ st
        unfold Fallible.bind
        rw [hgo]

theorem applyBlocks_eq (pe : Pe) {rest : List Byte} (h : BlockStream rest) :
    ∀ st : State, applyBlocks img pe d rest st =
      applyEntries img pe d (streamEntries rest) st := by
  induction h with
  | done h =>
    intro st
    rw [applyBlocks, streamEntries, if_pos h, if_pos h]
    rfl
  | @block rest h hgood _ ih =>
    intro st
    have hlen : ¬ rest.length < 8 := Nat.not_lt.mpr h
    rw [applyBlocks, streamEntries, if_neg hlen, if_neg hlen, if_neg hgood, if_neg hgood,
      applyEntries_append]
    show Fallible.bind _ _ st = Fallible.bind _ _ st
    unfold Fallible.bind
    cases applyEntries img pe d
      (blockEntries (u32At rest 0) ((rest.take (u32At rest 4).toNat).drop 8)) st with
    | mk r st₁ =>
      cases r with
      | error => rfl
      | ok => exact ih st₁

/-! ## Relocation -/

/-- The directory holds whole blocks, and what they list can be relocated: padding, and fields that
    lie in the image and not over each other. -/
structure WellFormed (img : MappedImage) (bytes : List Byte) (pe : Pe) (dir : DataDirectory) :
    Prop where
  stream : dir.virtualAddress = 0 ∨ dir.size = 0 ∨
    ∃ start, rvaToFileOffset bytes pe dir.virtualAddress = some start ∧
      start + dir.size.toNat ≤ bytes.length ∧
      BlockStream ((bytes.drop start).take dir.size.toNat)
  regular : ∀ e ∈ relocEntries bytes pe dir, e.Regular img
  apart : (relocEntries bytes pe dir).Pairwise Entry.Apart

/-- Relocation succeeds, adds `delta` to each listed field, and changes no other byte. -/
structure Relinked (img : MappedImage) (es : List Entry) (s : Space)
    (r : Except MapError Unit × State) : Prop where
  ok : r.1 = .ok ()
  fields : ∀ e ∈ es, (loadWord r.2.space (e.fieldAddr img) e.fieldWidth).toNat =
    ((loadWord s (e.fieldAddr img) e.fieldWidth).toNat + img.delta.toNat) % 2 ^ (8 * e.fieldWidth)
  rest : ∀ x, (∀ e ∈ es, ¬ e.Covers img x) → getByte r.2.space x = getByte s x

/-- The image, mapped where it is and linked `d` lower. -/
def MappedImage.movedBy (img : MappedImage) (d : BitVec 64) : MappedImage :=
  { img with preferredBase := BitVec.ofNat 64 img.base - d }

/-- Memory after the image has been relocated by `d`. -/
def relocatedBy (img : MappedImage) (bytes : List Byte) (pe : Pe) (dir : DataDirectory)
    (d : BitVec 64) (s : Space) : Space :=
  (applyRelocations (img.movedBy d) bytes pe dir ⟨s, []⟩).2.space

theorem delta_movedBy (img : MappedImage) (d : BitVec 64) : (img.movedBy d).delta = d := by
  show BitVec.ofNat 64 img.base - (BitVec.ofNat 64 img.base - d) = d
  rw [BitVec.sub_eq_iff_eq_add, BitVec.add_comm, BitVec.sub_add_cancel]

variable {bytes : List Byte} {pe : Pe} {dir : DataDirectory}

theorem shifted_zero (h : Placed img s) (hreg : ∀ e ∈ es, e.Regular img) :
    Shifted img 0 es s s := by
  apply Shifted.zero
  intro e he x hx
  have hin := (hreg e he).inside
  obtain ⟨hlow, hhigh⟩ := hx
  unfold Entry.FieldInside at hin
  unfold Entry.fieldAddr at hlow hhigh
  exact h.isSome_of_lt (by omega) (by omega)

theorem applyRelocations_shift (h : Placed img s) (hwell : WellFormed img bytes pe dir) :
    ∃ r st, applyRelocations img bytes pe dir ⟨s, []⟩ = (r, st) ∧
      (∀ i, (st.space i).isSome = (s i).isSome) ∧
      (r = .ok () ↔ img.delta = 0 ∨ ∀ e ∈ relocEntries bytes pe dir, e.Passed img s) ∧
      (r = .ok () → Shifted img img.delta (relocEntries bytes pe dir) s st.space) ∧
      Shifted img img.delta (passedEntries img s (relocEntries bytes pe dir)) s st.space := by
  by_cases hdir : dir.virtualAddress = 0 ∨ dir.size = 0
  · unfold applyRelocations relocEntries
    rw [if_pos hdir, if_pos hdir]
    exact ⟨.ok (), ⟨s, []⟩, rfl, fun _ => rfl, by simp, fun _ => .nil, .nil⟩
  by_cases hdelta : img.delta = 0
  · unfold applyRelocations
    rw [if_neg hdir, if_pos hdelta, hdelta]
    refine ⟨.ok (), ⟨s, []⟩, rfl, fun _ => rfl, by simp, ?_, ?_⟩
    · intro _
      exact shifted_zero h hwell.regular
    · apply shifted_zero h
      intro e he
      exact hwell.regular e (mem_of_mem_passedEntries he)
  obtain ⟨start, hoff, hlen, hblocks⟩ := (or_assoc.mpr hwell.stream).resolve_left hdir
  have hentries : relocEntries bytes pe dir =
      streamEntries ((bytes.drop start).take dir.size.toNat) := by
    unfold relocEntries
    rw [if_neg hdir]
    simp only [hoff, if_neg (Nat.not_lt.mpr hlen)]
  have hregular := hwell.regular
  have hapart := hwell.apart
  rw [hentries] at hregular hapart ⊢
  obtain ⟨r, st, heq, hkeep, hok, hshift⟩ :=
    applyEntries_shift (d := img.delta) h pe hregular hapart ⟨s, []⟩ fun _ => rfl
  refine ⟨r, st, ?_, hkeep, ?_, ?_, hshift⟩
  · unfold applyRelocations
    rw [if_neg hdir, if_neg hdelta]
    simp only [hoff, if_neg (Nat.not_lt.mpr hlen)]
    rw [applyBlocks_eq pe hblocks, heq]
  · rw [hok]
    exact (or_iff_right hdelta).symm
  · intro hr
    rwa [passedEntries_of_forall (hok.mp hr)] at hshift

theorem relocatedBy_shift (h : Placed img s) (hwell : WellFormed img bytes pe dir)
    (d : BitVec 64) :
    (∀ i, (relocatedBy img bytes pe dir d s i).isSome = (s i).isSome) ∧
      Shifted img d (passedEntries img s (relocEntries bytes pe dir)) s
        (relocatedBy img bytes pe dir d s) := by
  have hplaced : Placed (img.movedBy d) s := ⟨h.whole, h.mapped⟩
  have hmoved : WellFormed (img.movedBy d) bytes pe dir :=
    ⟨hwell.stream, fun e he => ⟨(hwell.regular e he).kind, (hwell.regular e he).inside⟩,
      hwell.apart⟩
  obtain ⟨r, st, heq, hkeep, -, -, hshift⟩ := applyRelocations_shift hplaced hmoved
  rw [delta_movedBy] at hshift
  unfold relocatedBy
  rw [heq]
  exact ⟨hkeep, hshift.fields, hshift.rest⟩

theorem relocatedBy_add (h : Placed img s) (hwell : WellFormed img bytes pe dir)
    (d d' : BitVec 64) (x : Nat) :
    getByte (relocatedBy img bytes pe dir d' (relocatedBy img bytes pe dir d s)) x =
      getByte (relocatedBy img bytes pe dir (d + d') s) x := by
  obtain ⟨hkeep, hfirst⟩ := relocatedBy_shift h hwell d
  obtain ⟨-, hsecond⟩ := relocatedBy_shift (h.congr hkeep) hwell d'
  obtain ⟨-, hsum⟩ := relocatedBy_shift h hwell (d + d')
  rw [passedEntries_congr hkeep] at hsecond
  exact hsum.unique (hfirst.trans hsecond) x

/-- Relocation is linking at the new base unless it stops at a narrow field at the very end of the
    image; and it composes. -/
theorem relocation_relinks_iff (img : MappedImage) (bytes : List Byte) (pe : Pe)
    (dir : DataDirectory) (s : Space) (h : Placed img s) (hwell : WellFormed img bytes pe dir) :
    (Relinked img (relocEntries bytes pe dir) s (applyRelocations img bytes pe dir ⟨s, []⟩) ∧
      ∀ d d' x, getByte (relocatedBy img bytes pe dir d' (relocatedBy img bytes pe dir d s)) x =
        getByte (relocatedBy img bytes pe dir (d + d') s) x) ↔
    img.delta = 0 ∨
      ∀ e ∈ relocEntries bytes pe dir, e.fieldWidth ≠ 0 →
        e.targetRva + 8 ≤ img.size ∨ (s (img.basePage + img.size / pageSize)).isSome := by
  obtain ⟨r, st, heq, -, hok, hshift, -⟩ := applyRelocations_shift h hwell
  rw [heq, and_iff_left (relocatedBy_add h hwell)]
  have hcond : (∀ e ∈ relocEntries bytes pe dir, e.Passed img s) ↔
      ∀ e ∈ relocEntries bytes pe dir, e.fieldWidth ≠ 0 → e.Clear img s :=
    forall₂_congr fun e _ => or_iff_not_imp_left
  refine Iff.trans ?_ (or_congr_right hcond)
  constructor
  · intro hlinked
    exact hok.mp hlinked.ok
  · intro hclear
    have hall := hshift (hok.mpr hclear)
    exact ⟨hok.mpr hclear, fun e he => hall.loadWord he, hall.rest⟩

/-! ## A narrow field at the end of the image -/

/-- A file like `edgeFile`, with another block. -/
def relocFile (block : List Byte) : List Byte :=
  List.replicate 0x200 0 ++ block ++ List.replicate 0x1F4 0

/-- The two pages of `edgeImage` and nothing behind them. -/
def bareSpace : Space := mapZero (fun _ => none) 0x10 2 .readWrite

/-- One block for page 0x1000: a HIGHLOW entry at offset 0xFFC, and padding. -/
def tailReloc : List Byte := [0, 0x10, 0, 0, 12, 0, 0, 0, 0xFC, 0x3F, 0, 0]

/-- One block for page 0x1000: a DIR64 entry at offset 0xFF0, and padding. -/
def innerReloc : List Byte := [0, 0x10, 0, 0, 12, 0, 0, 0, 0xF0, 0xAF, 0, 0]

theorem placed_bareSpace : Placed edgeImage bareSpace :=
  ⟨by decide, mapped_mapZero _ _ _ _⟩

theorem streamEntries_block {block : List Byte} (hlen : block.length = 12)
    (hsize : (u32At block 4).toNat = 12) :
    streamEntries block = blockEntries (u32At block 0) (block.drop 8) ∧ BlockStream block := by
  have hgood : ¬ BadBlock block := by
    unfold BadBlock
    omega
  have hrest : (block.drop 12).length < 8 := by
    rw [List.length_drop]
    omega
  constructor
  · rw [streamEntries, if_neg (by omega), if_neg hgood, hsize, streamEntries, if_pos hrest,
      List.append_nil, List.take_of_length_le (Nat.le_of_eq hlen)]
  · apply BlockStream.block (by omega) hgood
    rw [hsize]
    exact .done hrest

theorem relocFile_wellFormed {block : List Byte} (hlen : block.length = 12)
    (hsize : (u32At block 4).toNat = 12)
    (hblock : blockEntries (u32At block 0) (block.drop 8) = [e, ⟨0x1000, 0⟩])
    (hreg : e.Regular edgeImage) :
    WellFormed edgeImage (relocFile block) edgePe ⟨0x1000, 12⟩ ∧
      relocEntries (relocFile block) edgePe ⟨0x1000, 12⟩ = [e, ⟨0x1000, 0⟩] := by
  have hfile : (relocFile block).length = 0x400 := by
    unfold relocFile
    rw [List.length_append, List.length_append, List.length_replicate, List.length_replicate, hlen]
  have hoff : rvaToFileOffset (relocFile block) edgePe 0x1000 = some 0x200 := by
    unfold rvaToFileOffset
    rw [hfile]
    rfl
  have hslice : ((relocFile block).drop 0x200).take (12 : BitVec 32).toNat = block := by
    unfold relocFile
    rw [List.append_assoc, List.drop_left' List.length_replicate]
    exact List.take_left' hlen
  obtain ⟨hentries, hblocks⟩ := streamEntries_block hlen hsize
  have hreloc : relocEntries (relocFile block) edgePe ⟨0x1000, 12⟩ = [e, ⟨0x1000, 0⟩] := by
    unfold relocEntries
    rw [if_neg (by decide), ← hblock]
    simp only [hoff, hfile, hslice, hentries]
    rfl
  refine ⟨⟨Or.inr (Or.inr ⟨0x200, hoff, ?_, ?_⟩), ?_, ?_⟩, hreloc⟩
  · rw [hfile]
    decide
  · show BlockStream (((relocFile block).drop 0x200).take (12 : BitVec 32).toNat)
    rw [hslice]
    exact hblocks
  · rw [hreloc]
    intro e' he'
    rcases List.mem_pair.mp he' with rfl | rfl
    · exact hreg
    · exact ⟨Or.inl rfl, Or.inl rfl⟩
  · rw [hreloc]
    exact List.pairwise_pair.mpr (Or.inr (Or.inl rfl))

theorem tailReloc_wellFormed : WellFormed edgeImage (relocFile tailReloc) edgePe ⟨0x1000, 12⟩ ∧
    relocEntries (relocFile tailReloc) edgePe ⟨0x1000, 12⟩ = [⟨0x1000, 0x3FFC⟩, ⟨0x1000, 0⟩] :=
  relocFile_wellFormed rfl rfl rfl ⟨Or.inr (by decide), Or.inr (by decide)⟩

theorem innerReloc_wellFormed : WellFormed edgeImage (relocFile innerReloc) edgePe ⟨0x1000, 12⟩ ∧
    relocEntries (relocFile innerReloc) edgePe ⟨0x1000, 12⟩ =
      [⟨0x1000, 0xAFF0⟩, ⟨0x1000, 0⟩] :=
  relocFile_wellFormed rfl rfl rfl ⟨Or.inr (by decide), Or.inr (by decide)⟩

/-- A field inside the section, and inside the image, that is not relocated. -/
theorem tailReloc_not_relinked : Placed edgeImage bareSpace ∧
    WellFormed edgeImage (relocFile tailReloc) edgePe ⟨0x1000, 12⟩ ∧
    ¬ Relinked edgeImage (relocEntries (relocFile tailReloc) edgePe ⟨0x1000, 12⟩) bareSpace
      (applyRelocations edgeImage (relocFile tailReloc) edgePe ⟨0x1000, 12⟩ ⟨bareSpace, []⟩) := by
  obtain ⟨hwell, hentries⟩ := tailReloc_wellFormed
  refine ⟨placed_bareSpace, hwell, ?_⟩
  intro hlinked
  obtain ⟨r, st, heq, -, hok, -⟩ := applyRelocations_shift placed_bareSpace hwell
  rw [heq] at hlinked
  rcases hok.mp hlinked.ok with hdelta | hpassed
  · exact absurd hdelta (by decide)
  · have hfirst := hpassed ⟨0x1000, 0x3FFC⟩ (by rw [hentries]; exact List.mem_cons_self)
    exact absurd hfirst (by decide)

theorem relocation_relinks_iff_inner :
    Relinked edgeImage (relocEntries (relocFile innerReloc) edgePe ⟨0x1000, 12⟩) bareSpace
      (applyRelocations edgeImage (relocFile innerReloc) edgePe ⟨0x1000, 12⟩ ⟨bareSpace, []⟩) ∧
    ∀ d d' x, getByte (relocatedBy edgeImage (relocFile innerReloc) edgePe ⟨0x1000, 12⟩ d'
        (relocatedBy edgeImage (relocFile innerReloc) edgePe ⟨0x1000, 12⟩ d bareSpace)) x =
      getByte (relocatedBy edgeImage (relocFile innerReloc) edgePe ⟨0x1000, 12⟩ (d + d')
        bareSpace) x := by
  obtain ⟨hwell, hentries⟩ := innerReloc_wellFormed
  apply (relocation_relinks_iff edgeImage (relocFile innerReloc) edgePe ⟨0x1000, 12⟩ bareSpace
    placed_bareSpace hwell).mpr
  right
  intro e he hw
  rw [hentries] at he
  rcases List.mem_pair.mp he with rfl | rfl
  · exact Or.inl (by decide)
  · exact absurd rfl hw

end WinCompat.Loader
