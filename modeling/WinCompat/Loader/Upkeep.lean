import WinCompat.Loader.ArenaStable
import WinCompat.Loader.Contained
import WinCompat.Loader.Dll

/-!
# What the loader's programs do to memory and to the registry

`Does` lists the kinds of action there are: looking a path up, claiming one that is not loaded,
changing what memory the frame owns, handing all of it to a new module, and taking it from one. The
programs of `body` are shown to consist of such actions, and to make calls only while a path is
claimed.
-/

namespace WinCompat.Loader

open Lib Lib.Paging
open Lib.Bytes (Word)

/-! ## What the passes over an image do to pages -/

/-- A preorder on memory that the stores to the pages `F` respect, and the changes of their
    protection but to writable and executable. -/
structure PageOrder (F : Nat → Prop) (R : Space → Space → Prop) : Prop where
  refl : ∀ s, R s s
  trans : ∀ {s s' s''}, R s s' → R s' s'' → R s s''
  storeBytes : ∀ s a bs, (∀ i, Touches a bs.length i → F i) → R s (storeBytes s a bs)
  mprotect : ∀ s first count p, (p.write && p.exec) = false → (∀ i, InRange first count i → F i) →
    R s (mprotect s first count p).2

theorem sectionProt_not_both (name : String) (characteristics : BitVec 32) :
    ((sectionProt name characteristics).write && (sectionProt name characteristics).exec) =
      false := by
  unfold sectionProt
  dsimp only
  cases decide (characteristics &&& 0x20000000 ≠ 0) <;> simp

theorem unprotectSpan_not_both (img : MappedImage) (pe : Pe) (addr span : Nat) :
    ((unprotectSpan img pe addr span).2.2.write && (unprotectSpan img pe addr span).2.2.exec) =
      false := by
  unfold unprotectSpan
  dsimp only
  split
  · exact sectionProt_not_both _ _
  · rfl

/-- The pages whose protection a section is given. -/
theorem touches_of_section (img : MappedImage) (rva stop : Nat) {i : Nat}
    (hi : InRange ((img.base + roundDown rva pageSize) / pageSize)
      ((roundUp (min stop img.size) pageSize - roundDown rva pageSize) / pageSize) i) :
    Touches img.base img.size i := by
  have hstop : min stop img.size ≤ img.size := Nat.min_le_right _ _
  generalize min stop img.size = m at hi hstop
  have hpages : 0 < pageSize := by decide
  unfold InRange roundDown roundUp MappedImage.base at hi
  rw [← Nat.add_mul, ← Nat.sub_mul, Nat.mul_div_cancel _ hpages, Nat.mul_div_cancel _ hpages] at hi
  unfold Touches MappedImage.base
  rw [Nat.mul_div_cancel _ hpages]
  unfold pageSize at *
  omega

theorem touches_of_rvaToPtr {img : MappedImage} {rva : BitVec 32} {target i : Nat}
    (h : img.rvaToPtr rva = some target) (hi : Touches target 8 i) :
    Touches img.base (img.size + 7) i := by
  unfold MappedImage.rvaToPtr at h
  split at h
  · cases h
    exact hi.mono (Nat.le_add_right _ _) (by omega)
  · cases h

namespace PageOrder

open Fallible

variable {F : Nat → Prop} {R : Space → Space → Prop} (hR : PageOrder F R)

include hR

theorem foldl {α : Type} {f : Space → α → Space} : ∀ (as : List α),
    (∀ s, ∀ a ∈ as, R s (f s a)) → ∀ s, R s (as.foldl f s) := by
  intro as
  induction as with
  | nil =>
    intro _ s
    exact hR.refl s
  | cons a as ih =>
    intro hf s
    obtain ⟨ha, has⟩ := forall_and.mp fun s => List.forall_mem_cons.mp (hf s)
    exact hR.trans (ha s) (ih has (f s a))

theorem span {a n : Nat} (hF : ∀ i, Touches a n i → F i) (s : Space) {p : Prot}
    (hp : (p.write && p.exec) = false) :
    R s (Paging.mprotect s (roundDown a pageSize / pageSize)
      ((roundUp (a + n) pageSize - roundDown a pageSize) / pageSize) p).2 :=
  hR.mprotect s _ _ p hp fun i hi => hF i (inRange_span.mp hi)

theorem sealBlocks : ∀ (bs : List Block), (∀ b ∈ bs, ∀ i, b.HasPage i → F i) →
    ∀ s, R s (sealBlocks s bs).2 := by
  intro bs
  induction bs with
  | nil =>
    intro _ s
    exact hR.refl s
  | cons b bs ih =>
    intro hF s
    obtain ⟨hb, hbs⟩ := List.forall_mem_cons.mp hF
    unfold Loader.sealBlocks
    have hone := hR.mprotect s b.page b.count .readExec rfl hb
    by_cases hr : (Paging.mprotect s b.page b.count .readExec).1 = true
    · simp only [hr, if_true]
      exact hR.trans hone (ih hbs _)
    · simp only [hr]
      exact hone

theorem finalize (a : Arena) (hF : ∀ b ∈ a.blocks, ∀ i, b.HasPage i → F i) (s : Space) :
    R s (a.finalize s).2.2 := by
  unfold Arena.finalize
  split_ifs
  · exact hR.refl s
  · have h := hR.sealBlocks a.blocks hF s
    dsimp only
    split
    · exact h
    · exact h

section

variable {img : MappedImage} (hF : ∀ i, Touches img.base img.size i → F i)

include hF

theorem copyImage (f : DllFile) (s : Space) : R s (copyImage f img s) := by
  refine hR.foldl _ (fun s a ha => hR.storeBytes _ _ _ fun i hi => hF i ?_) s
  have hlen := (copyFills_inside f img.size a ha).start_add_length
  exact hi.mono (by omega) (by omega)

theorem protectSections : ∀ (secs : List Section) (s : Space),
    R s (protectSections img secs s).2 := by
  intro secs
  induction secs with
  | nil =>
    intro s
    exact hR.refl s
  | cons sec secs ih =>
    intro s
    unfold Loader.protectSections
    dsimp only
    have hone := hR.mprotect s _ _ _ (sectionProt_not_both sec.name sec.characteristics)
      fun i hi => hF i (touches_of_section img sec.virtualAddress.toNat
        (sec.virtualAddress.toNat + sec.virtualSize.toNat) hi)
    split_ifs
    · exact ih s
    · exact hR.trans hone (ih _)
    · exact hone

end

theorem keeps_mprotectCall {s : Space} {img : MappedImage} {pe : Pe} {a n : Nat}
    (hF : ∀ i, Touches a n i → F i) {p : Prot} (hp : (p.write && p.exec) = false) :
    Keeps (fun st : State => R s st.space)
      (mprotectCall (unprotectSpan img pe a n).1 (unprotectSpan img pe a n).2.1 p) := by
  rw [unprotectSpan_fst, unprotectSpan_len]
  exact fun st h => hR.trans h (hR.span hF st.space hp)

theorem applyOneReloc (e : Entry) {target : Nat} (hF : ∀ i, Touches target 8 i → F i)
    (delta : BitVec 64) (st : State) : R st.space (applyOneReloc e target delta st).space := by
  have hword : ∀ v width, width ≤ 8 → R st.space
      (Paging.storeBytes st.space target (lowBytes v width)) :=
    fun v width hw => hR.storeBytes _ _ _ fun i hi => hF i (hi.mono (Nat.le_refl _) (by
      rw [lowBytes_length]
      omega))
  unfold Loader.applyOneReloc
  split
  · exact hword _ _ (by decide)
  · exact hword _ _ (by decide)
  · exact hword _ _ (by decide)
  · exact hR.refl _

section

variable {img : MappedImage} (hF : ∀ i, Touches img.base (img.size + 7) i → F i)

include hF

theorem keeps_applyEntry {s : Space} (pe : Pe) (delta : BitVec 64) (e : Entry) :
    Keeps (fun st : State => R s st.space) (applyEntry img pe delta e) := by
  unfold applyEntry
  split_ifs
  · exact keeps_pure _
  · cases htarget : img.rvaToPtr e.narrowRva with
    | none => exact keeps_throw _
    | some target =>
      have hspan : ∀ i, Touches target 8 i → F i := fun i hi => hF i (touches_of_rvaToPtr htarget hi)
      have hrestore := unprotectSpan_not_both img pe target 8
      dsimp only
      refine (hR.keeps_mprotectCall hspan rfl).bind fun flipped => ?_
      cases flipped with
      | false => exact keeps_throw _
      | true =>
        refine Keeps.bind (fun st h => hR.trans h (hR.applyOneReloc e hspan delta st)) fun _ => ?_
        exact (hR.keeps_mprotectCall hspan hrestore).bind fun _ => keeps_pure _

theorem keeps_applyEntries {s : Space} (pe : Pe) (delta : BitVec 64) :
    ∀ es, Keeps (fun st : State => R s st.space) (applyEntries img pe delta es)
  | [] => keeps_pure _
  | e :: es => (hR.keeps_applyEntry hF pe delta e).bind fun _ => keeps_applyEntries pe delta es

theorem keeps_applyBlocks {s : Space} (pe : Pe) (delta : BitVec 64) (rest : List Byte) :
    Keeps (fun st : State => R s st.space) (applyBlocks img pe delta rest) := by
  induction rest using streamEntries.induct with
  | case1 rest hlen =>
    rw [applyBlocks, if_pos hlen]
    exact keeps_pure _
  | case2 rest hlen hbad =>
    rw [applyBlocks, if_neg hlen, if_pos hbad]
    exact keeps_throw _
  | case3 rest hlen hbad ih =>
    rw [applyBlocks, if_neg hlen, if_neg hbad]
    exact (hR.keeps_applyEntries hF pe delta _).bind fun _ => ih

theorem applyRelocations (bytes : List Byte) (pe : Pe) (dir : DataDirectory) (st : State) :
    R st.space (applyRelocations img bytes pe dir st).2.space := by
  unfold Loader.applyRelocations
  split_ifs
  · exact hR.refl _
  · exact hR.refl _
  · cases rvaToFileOffset bytes pe dir.virtualAddress with
    | none => exact hR.refl _
    | some start =>
      dsimp only
      split_ifs
      · exact hR.refl _
      · exact hR.keeps_applyBlocks hF pe img.delta _ st (hR.refl _)

theorem writeIatSlot (host : Host) (resolved : SymbolMap) (s : Space) (imp : Import) :
    R s (writeIatSlot host img resolved s imp) := by
  unfold Loader.writeIatSlot
  split
  · exact hR.refl s
  · split
    · exact hR.refl s
    · next slot hslot =>
      have hspan : ∀ i, Touches slot 8 i → F i := fun i hi => hF i (touches_of_rvaToPtr hslot hi)
      refine hR.trans (hR.span hspan s rfl) (hR.storeBytes _ _ _ fun i hi => hspan i ?_)
      rwa [lowBytes_length] at hi

end

end PageOrder

/-! ## Memory that stays mapped -/

/-- The same pages are mapped. -/
def SamePages (s s' : Space) : Prop := ∀ i, (s' i).isSome = (s i).isSome

namespace SamePages

variable {s s' s'' : Space}

theorem refl (s : Space) : SamePages s s := fun _ => rfl

theorem trans (h : SamePages s s') (h' : SamePages s' s'') : SamePages s s'' :=
  fun i => (h' i).trans (h i)

theorem storeBytes (s : Space) (a : Nat) (bs : List Byte) : SamePages s (storeBytes s a bs) :=
  fun i => storeBytes_isSome i bs s a

theorem mprotect (s : Space) (first count : Nat) (p : Prot) :
    SamePages s (mprotect s first count p).2 := fun i => mprotect_isSome i

theorem order : PageOrder (fun _ => True) SamePages :=
  ⟨refl, trans, fun s a bs _ => storeBytes s a bs, fun s _ _ p _ _ => mprotect s _ _ p⟩

theorem copyImage (f : DllFile) (img : MappedImage) (s : Space) :
    SamePages s (copyImage f img s) := order.copyImage (fun _ _ => trivial) f s

theorem mapped (h : SamePages s s') {first count : Nat} (hm : Mapped s first count) :
    Mapped s' first count := (mapped_congr h).mpr hm

end SamePages

/-! ## Blocks -/

/-- No page is in both. -/
def NoShare (b b' : Block) : Prop := ∀ i, b.HasPage i → ¬ b'.HasPage i

theorem NoShare.symm {b b' : Block} (h : NoShare b b') : NoShare b' b := fun i hi hi' => h i hi' hi

/-- What is mapped is nowhere in what is not. -/
theorem noShare_of_unmapped {s : Space} {b b' : Block} (hm : Mapped s b.page b.count)
    (hu : Unmapped s b'.page b'.count) : NoShare b b' := by
  intro i hi hi'
  have hsome := hm i hi
  rw [hu i hi'] at hsome
  cases hsome

/-- The pages that go are the frame's own, those that come were not mapped, and what the frame then
    owns is mapped, in blocks that share nothing. -/
structure Remap (blocks : List Block) (s : Space) (blocks' : List Block) (s' : Space) : Prop where
  kept : ∀ i, (s i).isSome → (s' i).isSome ∨ ∃ b ∈ blocks, b.HasPage i
  held : ∀ b ∈ blocks', Mapped s' b.page b.count
  fresh : ∀ b ∈ blocks', b ∈ blocks ∨ Unmapped s b.page b.count
  pairwise : blocks'.Pairwise NoShare

/-- What is owned is mapped, in blocks that share nothing. -/
structure Owned (blocks : List Block) (s : Space) : Prop where
  mapped : ∀ b ∈ blocks, Mapped s b.page b.count
  pairwise : blocks.Pairwise NoShare

namespace Owned

variable {blocks : List Block} {s s' : Space}

theorem touch (h : Owned blocks s) (hs : SamePages s s') : Remap blocks s blocks s' where
  kept i hi := Or.inl ((hs i).trans hi)
  held b hb := hs.mapped (h.mapped b hb)
  fresh _ hb := Or.inl hb
  pairwise := h.pairwise

/-- A fresh mapping, put anywhere among the blocks. -/
theorem map (h : Owned blocks s) {b : Block} {p : Prot} (hfree : Unmapped s b.page b.count)
    {blocks' : List Block} (hperm : blocks'.Perm (b :: blocks)) :
    Remap blocks s blocks' (mapZero s b.page b.count p) := by
  have hold : ∀ b' ∈ blocks, NoShare b' b := fun b' hb' =>
    noShare_of_unmapped (h.mapped b' hb') hfree
  constructor
  · intro i hi
    by_cases hin : InRange b.page b.count i
    · rw [mapZero_of_inRange hin]
      exact Or.inl rfl
    · rw [mapZero_of_not_inRange hin]
      exact Or.inl hi
  · intro b' hb'
    rcases List.mem_cons.mp (hperm.mem_iff.mp hb') with rfl | hb'
    · exact mapped_mapZero s _ _ p
    · intro i hi
      rw [mapZero_of_not_inRange (hold b' hb' i hi)]
      exact h.mapped b' hb' i hi
  · intro b' hb'
    rcases List.mem_cons.mp (hperm.mem_iff.mp hb') with rfl | hb'
    · exact Or.inr hfree
    · exact Or.inl hb'
  · rw [List.Perm.pairwise_iff (fun {_ _} hx => NoShare.symm hx) hperm, List.pairwise_cons]
    exact ⟨fun b' hb' => (hold b' hb').symm, h.pairwise⟩

end Owned

theorem unmapBlocks_none : ∀ {bs : List Block} {s : Space} {i : Nat},
    (s i = none ∨ ∃ b ∈ bs, b.HasPage i) → unmapBlocks s bs i = none := by
  intro bs
  induction bs with
  | nil =>
    intro s i h
    exact h.elim id fun ⟨_, hb, _⟩ => absurd hb List.not_mem_nil
  | cons b bs ih =>
    intro s i h
    apply ih
    by_cases hb : b.HasPage i
    · exact Or.inl (unmap_of_inRange hb)
    · rcases h with h | ⟨b', hb', hi⟩
      · exact Or.inl ((unmap_of_not_inRange hb).trans h)
      · rcases List.mem_cons.mp hb' with rfl | hb'
        · exact absurd hi hb
        · exact Or.inr ⟨b', hb', hi⟩

theorem unmapBlocks_kept : ∀ {bs : List Block} {s : Space} {i : Nat},
    (∀ b ∈ bs, ¬ b.HasPage i) → unmapBlocks s bs i = s i := by
  intro bs
  induction bs with
  | nil =>
    intro s i _
    rfl
  | cons b bs ih =>
    intro s i h
    refine (ih fun b' hb' => h b' (List.mem_cons_of_mem _ hb')).trans ?_
    exact unmap_of_not_inRange (h b List.mem_cons_self)

theorem Owned.drop {blocks blocks' bs : List Block} {s : Space} (h : Owned blocks s)
    (hperm : blocks.Perm (bs ++ blocks')) : Remap blocks s blocks' (unmapBlocks s bs) := by
  have hpair : (bs ++ blocks').Pairwise NoShare :=
    (List.Perm.pairwise_iff (fun {_ _} hx => NoShare.symm hx) hperm).mp h.pairwise
  obtain ⟨-, hleft, hcross⟩ := List.pairwise_append.mp hpair
  have hmem : ∀ b ∈ blocks', b ∈ blocks := fun b hb =>
    hperm.mem_iff.mpr (List.mem_append_right bs hb)
  constructor
  · intro i hi
    by_cases hin : ∃ b ∈ bs, b.HasPage i
    · obtain ⟨b, hb, hi'⟩ := hin
      exact Or.inr ⟨b, hperm.mem_iff.mpr (List.mem_append_left blocks' hb), hi'⟩
    · rw [unmapBlocks_kept fun b hb hi' => hin ⟨b, hb, hi'⟩]
      exact Or.inl hi
  · intro b hb i hi
    rw [unmapBlocks_kept fun b' hb' hi' => hcross b' hb' b hb i hi' hi]
    exact h.mapped b (hmem b hb) i hi
  · exact fun b hb => Or.inl (hmem b hb)
  · exact hleft

/-! ## The kinds of action -/

/-- Memory is changed, with what the frame holds of it. -/
structure Rearranges (l : Holdings) (s : Space) (l' : Holdings) (s' : Space) : Prop where
  checked : l'.checked = l.checked
  claim : l'.claim = l.claim
  image : ∀ b, l'.image = some b → l.image = some b ∨ 0 < b.count
  remap : Remap l.blocks s l'.blocks s'

/-- An action taken for the call `c`, on what the frame holds and on what is shared. -/
inductive Does (host : Host) (c : Call) : Holdings × Sys → Holdings × Sys → Prop
  | look {l : Holdings} {s : Sys} : Does host c (l, s) ({ l with checked := true }, s)
  /-- The path is not loaded. -/
  | claim {l : Holdings} {s : Sys} (path : String) (runDllMain : Bool) (canonical : String)
      (hc : c = .load path runDllMain) (hl : l.checked = false)
      (hcanon : host.canonicalize path = .ok canonical)
      (hnew : ∀ m ∈ s.modules, m.modulePath ≠ canonical) :
      Does host c (l, s) ({ l with checked := true, claim := some canonical }, s)
  | memory {l l' : Holdings} {s s' : Sys} (hmodules : s'.modules = s.modules)
      (hmem : Rearranges l s.space l' s'.space) : Does host c (l, s) (l', s')
  | register {l : Holdings} {s : Sys} (m : LoadedModule) (hclaim : l.claim = some m.modulePath)
      (himage : l.image = some m.image.block) (hblocks : l.blocks = m.blocks) :
      Does host c (l, s) (⟨l.checked, none, none, [], none⟩, { s with modules := s.modules ++ [m] })
  | remove {l l' : Holdings} {s : Sys} (m : LoadedModule) (h : Nat) (hc : c = .free h)
      (hclaim : l.claim = none) (hclaim' : l'.claim = none) (hchecked : l'.checked = l.checked)
      (hnone : l.blocks = [])
      (hfind : s.modules.find? (fun m => m.hModule = h) = some m)
      (himage : l'.image = some m.image.block) (hblocks : l'.blocks = m.blocks) :
      Does host c (l, s)
        (l', { s with modules := s.modules.eraseP fun m => m.hModule = h })

/-- Actions of these kinds by frames that own what they hold. Calls, of those in `ok`, are made only
    while a path is claimed. -/
def upkeep (host : Host) (ok : Call → Prop) : Discipline Holdings Sys Call where
  step := Does host
  shared _ := True
  frame l s := Owned l.blocks s.space
  apart _ _ := True
  permit _ _ _ _ := True
  calls l d := l.claim.isSome ∧ ok d

section

variable {host : Host} {ok : Call → Prop} {c : Call} {α : Type} {l : Holdings}

theorem Owned.rearranges {s s' : Space} (h : Owned l.blocks s) (hs : SamePages s s') :
    Rearranges l s l s' := ⟨rfl, rfl, fun _ hb => Or.inl hb, h.touch hs⟩

variable {post : Except Stop α → Holdings → Prop}

theorem meets_onSpace {f : Space → Except Stop α × Space} (hf : ∀ s, SamePages s (f s).2)
    (hpost : ∀ s, post (f s).1 l) : Meets (upkeep host ok) c post (onSpace f) l := by
  apply Meets.attempt_atomically
  intro s _ hframe
  exact ⟨.memory rfl (Owned.rearranges hframe (hf s.space)), hpost s.space⟩

/-- The kernel's answer is not under the loader's control; only that it is free memory is used. -/
theorem meets_withMmap {len : Nat}
    {f : Holdings → Space → MmapAnswer → Except Stop α × Holdings × Space}
    (h : ∀ s os, Owned l.blocks s → FreshAnswer s len os →
      Rearranges l s (f l s os).2.1 (f l s os).2.2 ∧ post (f l s os).1 (f l s os).2.1) :
    Meets (upkeep host ok) c post (withMmap host len f) l := by
  apply Meets.attempt_atomically
  intro s _ hframe
  obtain ⟨hmem, hpost⟩ := h s.space _ hframe (host.mmap_fresh s.asked s.space len)
  exact ⟨.memory rfl hmem, hpost⟩

/-! ## What a part of a program leaves held -/

/-- Nothing has changed hands. -/
def Same {β : Type} (l : Holdings) : β → Holdings → Prop := fun _ l' => l' = l

/-- The image is still held. -/
def SameImage {β : Type} (l : Holdings) : β → Holdings → Prop := fun _ l' => l'.image = l.image

/-- The thunks held are those of the arena that has been made. -/
def Thunks {β : Type} (l : Holdings) (arena : β → Arena) : β → Holdings → Prop :=
  fun r l' => l' = l.withThunks (arena r).blocks

/-! ## Arenas -/

theorem thunks_perm (l : Holdings) (b : Block) :
    (l.withThunks (l.thunks ++ [b])).blocks.Perm (b :: l.blocks) := by
  unfold Holdings.blocks Holdings.withThunks
  dsimp only
  have h : l.image.toList ++ (l.thunks ++ [b]) ++ l.stack.toList =
      (l.image.toList ++ l.thunks) ++ b :: l.stack.toList := by simp
  rw [h]
  exact List.perm_middle

theorem Rearranges.thunks {s s' : Space} (hown : Owned l.blocks s) {b : Block} {p : Prot}
    (hfree : Unmapped s b.page b.count) (hs : SamePages (mapZero s b.page b.count p) s') :
    Rearranges l s (l.withThunks (l.thunks ++ [b])) s' := by
  have hmap := hown.map (p := p) hfree (thunks_perm l b)
  refine ⟨rfl, rfl, fun _ hb => Or.inl hb, ?_⟩
  constructor
  · intro i hi
    refine (hmap.kept i hi).imp_left fun h => (hs i).trans h
  · exact fun b' hb' => hs.mapped (hmap.held b' hb')
  · exact hmap.fresh
  · exact hmap.pairwise

theorem meets_newArena (capacity : Nat) (refused : ThunkError → Stop) (hl : l.thunks = []) :
    Meets (upkeep host ok) c (Meets.Ends (Thunks l id) (Same l))
      (newArena host capacity refused) l := by
  apply meets_withMmap
  intro s os hown hfresh
  cases os with
  | error msg => exact ⟨hown.rearranges (.refl s), rfl⟩
  | ok page =>
    have hblocks : [(⟨page, capacityLen capacity / pageSize⟩ : Block)] =
        l.thunks ++ [⟨page, capacityLen capacity / pageSize⟩] := by rw [hl]; rfl
    refine ⟨?_, rfl⟩
    show Rearranges l s (l.withThunks [⟨page, capacityLen capacity / pageSize⟩]) _
    rw [hblocks]
    exact .thunks hown hfresh.2 (.refl _)

theorem emit_pages {a a' : Arena} {s s' : Space} {code : List Byte} {os : MmapAnswer} {addr : Nat}
    (hown : Owned l.blocks s) (hl : l.thunks = a.blocks)
    (hfresh : FreshAnswer s (a.growLen (roundUp a.cursor 16 + code.length)) os)
    (h : a.emit s code os = .ok (addr, a', s')) : Rearranges l s (l.withThunks a'.blocks) s' := by
  obtain ⟨-, ⟨-, -, rfl, rfl⟩ | ⟨page, rfl, -, rfl, rfl⟩⟩ := Arena.emit_cases h
  · have hsame : l.withThunks a.blocks = l := by
      rw [← hl]
      rfl
    show Rearranges l s (l.withThunks a.blocks) _
    rw [hsame]
    exact hown.rearranges (.storeBytes _ _ _)
  · have hblocks : Arena.blocks ⟨⟨page, a.growLen (roundUp a.cursor 16 + code.length) / pageSize⟩,
        0 + code.length, false, a.retired ++ [a.block]⟩ =
          l.thunks ++ [⟨page, a.growLen (roundUp a.cursor 16 + code.length) / pageSize⟩] := by
      rw [hl]
      rfl
    rw [hblocks]
    exact .thunks hown hfresh.2 (.storeBytes _ _ _)

variable {a : Arena}

theorem meets_thunk (msg : ThunkError → String) (target : Word) (nArgs : Nat) (noreturn : Bool)
    (hl : l.thunks = a.blocks) :
    Meets (upkeep host ok) c (Meets.Ends (Thunks l Prod.snd) (Same l))
      (thunk host msg target nArgs noreturn a) l := by
  unfold thunk
  apply meets_withMmap
  intro s os hown hfresh
  -- Too many arguments, or the common end of the two makers.
  have hr : (∃ e, (if noreturn then a.makeThunkNoreturn s target nArgs os
        else a.makeThunk s target nArgs os) = .error e) ∨
      (if noreturn then a.makeThunkNoreturn s target nArgs os
        else a.makeThunk s target nArgs os) = a.emit s
        (if noreturn then emitNoreturn target nArgs else emitReturning target nArgs) os := by
    cases noreturn with
    | true =>
      simp only [if_true]
      unfold Arena.makeThunkNoreturn
      split_ifs
      · exact Or.inl ⟨_, rfl⟩
      · exact Or.inr rfl
    | false =>
      simp only [Bool.false_eq_true, if_false]
      unfold Arena.makeThunk
      split_ifs
      · exact Or.inl ⟨_, rfl⟩
      · exact Or.inr rfl
  generalize (if noreturn then a.makeThunkNoreturn s target nArgs os
    else a.makeThunk s target nArgs os) = r at hr ⊢
  cases r with
  | error e => exact ⟨hown.rearranges (.refl s), rfl⟩
  | ok r =>
    obtain ⟨addr, a', s'⟩ := r
    rcases hr with ⟨e, he⟩ | hr
    · cases he
    · exact ⟨emit_pages hown hl hfresh hr.symm, rfl⟩

/-! ## The programs -/

theorem meets_pure {a : α} (h : post (.ok a) l) :
    Meets (upkeep host ok) c post (pure a : Load α) l := h

theorem meets_throw {e : Stop} (h : post (.error e) l) :
    Meets (upkeep host ok) c post (Attempt.throw e : Load α) l := h

theorem Same.image {β : Type} {r : β} {l l' : Holdings} (h : Same l r l') : SameImage l r l' :=
  congrArg Holdings.image h

theorem meets_thunkSpecs : ∀ (specs : List ImportSpec) {a : Arena} {map : SymbolMap}
    {l : Holdings}, l.thunks = a.blocks →
    Meets (upkeep host ok) c (Meets.Ends (Thunks l Prod.fst) (SameImage l))
      (thunkSpecs host specs a map) l := by
  intro specs
  induction specs with
  | nil =>
    intro a map l hl
    apply meets_pure
    show l = l.withThunks a.blocks
    rw [← hl]
    rfl
  | cons spec specs ih =>
    intro a map l hl
    refine Meets.attempt_bind _ _ (meets_thunk _ _ _ _ hl) ?_ fun _ _ h => h.image
    rintro ⟨ptr, a'⟩ l' rfl
    exact ih (a := a') (l := l.withThunks a'.blocks) rfl

theorem meets_thunkVtables : ∀ (slots : List (Word × Nat)) {a : Arena} {l : Holdings},
    l.thunks = a.blocks →
    Meets (upkeep host ok) c (Meets.Ends (Thunks l Prod.snd) (SameImage l))
      (thunkVtables host slots a) l := by
  intro slots
  induction slots with
  | nil =>
    intro a l hl
    apply meets_pure
    show l = l.withThunks a.blocks
    rw [← hl]
    rfl
  | cons slot slots ih =>
    intro a l hl
    refine Meets.attempt_bind _ _ (meets_thunk _ _ _ _ hl) ?_ fun _ _ h => h.image
    rintro ⟨ptr, a'⟩ l' rfl
    refine Meets.attempt_bind _ _ (ih (a := a') (l := l.withThunks a'.blocks) rfl) ?_ fun _ _ h => h
    rintro ⟨ptrs, a''⟩ l'' rfl
    exact meets_pure rfl

theorem meets_installVtables (crate : Crate) (slots : List (Word × Nat)) (hl : l.thunks = a.blocks) :
    Meets (upkeep host ok) c (Meets.Ends (Thunks l id) (SameImage l))
      (installVtables host crate slots a) l := by
  have hsame : l = l.withThunks a.blocks := by
    rw [← hl]
    rfl
  have hget : Meets (upkeep host ok) c (Meets.Ends (Same l) (SameImage l)) (getVtables crate) l := by
    apply Meets.attempt_atomically
    intro s _ hframe
    exact ⟨.memory rfl (Owned.rearranges hframe (.refl _)), rfl⟩
  refine Meets.attempt_bind _ _ hget ?_ fun _ _ h => h
  rintro (_ | ptrs) l₁ rfl
  · refine Meets.attempt_bind _ _ (meets_thunkVtables slots hl) ?_ fun _ _ h => h
    rintro ⟨ptrs, a'⟩ l' rfl
    have hset : Meets (upkeep host ok) c (Meets.Ends (Same (l₁.withThunks a'.blocks)) (SameImage l₁))
        (setVtables crate ptrs) (l₁.withThunks a'.blocks) := by
      apply Meets.attempt_atomically
      intro s _ hframe
      exact ⟨.memory rfl (Owned.rearranges hframe (.refl _)), rfl⟩
    refine Meets.attempt_bind _ _ hset ?_ fun _ _ h => h
    rintro _ l' rfl
    exact meets_pure rfl
  · exact meets_pure hsame

theorem meets_build (hl : l.thunks = a.blocks) :
    Meets (upkeep host ok) c (Meets.Ends (Thunks l Prod.fst) (SameImage l))
      (ImplTable.build host a) l := by
  unfold ImplTable.build
  refine Meets.attempt_bind _ _ (meets_thunkSpecs _ hl) ?_ fun _ _ h => h
  rintro ⟨a₁, map₁⟩ l₁ rfl
  refine Meets.attempt_bind _ _ (meets_installVtables _ _ rfl) ?_ fun _ _ h => h
  rintro a₂ l₂ rfl
  refine Meets.attempt_bind _ _ (meets_thunkSpecs _ rfl) ?_ fun _ _ h => h
  rintro ⟨a₃, map₃⟩ l₃ rfl
  refine Meets.attempt_bind _ _ (meets_installVtables _ _ rfl) ?_ fun _ _ h => h
  rintro a₄ l₄ rfl
  refine Meets.attempt_bind _ _ (meets_thunkSpecs _ rfl) ?_ fun _ _ h => h
  rintro ⟨a₅, map₅⟩ l₅ rfl
  refine Meets.attempt_bind _ _ (meets_thunk _ _ _ _ rfl) ?_ fun _ _ h => h.image
  rintro ⟨soft, a₆⟩ l₆ rfl
  exact rfl

theorem finalize_blocks (a : Arena) (s : Space) : (a.finalize s).2.1.blocks = a.blocks := by
  unfold Arena.finalize
  split_ifs
  · rfl
  · dsimp only
    split <;> rfl

theorem meets_sealArena (a : Arena) (refused : ThunkError → Stop) :
    Meets (upkeep host ok) c
      (Meets.Ends (fun a' l' => l' = l ∧ a'.blocks = a.blocks) (Same l))
      (sealArena a refused) l := by
  have hblocks := finalize_blocks a
  apply meets_onSpace
  · intro s
    have hpages := SamePages.order.finalize a (fun _ _ _ _ => trivial) s
    split
    · rename_i hfin
      rw [hfin] at hpages
      exact hpages
    · rename_i hfin
      rw [hfin] at hpages
      exact hpages
  · intro s
    split
    · rename_i hfin
      have hb := hblocks s
      rw [hfin] at hb
      exact ⟨rfl, hb⟩
    · exact rfl

theorem meets_dropArena (hl : l.thunks = a.blocks) :
    Meets (upkeep host ok) c (Meets.Ends (Same (l.withThunks [])) fun _ _ => False)
      (dropArena a) l := by
  apply Meets.attempt_atomically
  intro s _ hown
  have hperm : l.blocks.Perm (a.blocks ++ (l.withThunks []).blocks) := by
    unfold Holdings.blocks Holdings.withThunks
    rw [hl, List.append_nil, ← List.append_assoc]
    exact List.perm_append_comm.append_right _
  exact ⟨.memory rfl ⟨rfl, rfl, fun _ hb => Or.inl hb, Owned.drop hown hperm⟩, rfl⟩

theorem meets_dropStack {b : Block} (hl : l.stack = some b) :
    Meets (upkeep host ok) c (Meets.Ends (Same (l.withStack none)) fun _ _ => False)
      (dropStack b) l := by
  apply Meets.attempt_atomically
  intro s _ hown
  have hperm : l.blocks.Perm ([b] ++ (l.withStack none).blocks) := by
    unfold Holdings.blocks Holdings.withStack
    rw [hl, Option.toList_none, List.append_nil]
    exact List.perm_append_comm
  exact ⟨.memory rfl ⟨rfl, rfl, fun _ hb => Or.inl hb, Owned.drop hown hperm⟩, rfl⟩

theorem meets_unmapImage {img : MappedImage} (hl : l.image = some img.block) :
    Meets (upkeep host ok) c (Meets.Ends (Same (l.withImage none)) fun _ _ => False)
      img.unmap l := by
  apply Meets.attempt_atomically
  intro s _ hown
  have hperm : l.blocks.Perm ([img.block] ++ (l.withImage none).blocks) := by
    unfold Holdings.blocks Holdings.withImage
    rw [hl, List.append_assoc, Option.toList_none, List.nil_append]
    exact .refl _
  exact ⟨.memory rfl ⟨rfl, rfl, nofun, Owned.drop hown hperm⟩, rfl⟩

theorem meets_tryCandidates (sym : String) (hclaim : l.claim.isSome)
    (hload : ∀ path, ok (.load path false)) (hproc : ∀ h name, ok (.getProc h name)) :
    ∀ paths, Meets (upkeep host ok) c (Meets.Ends (Same l) (Same l))
      (tryCandidates host sym paths) l := by
  intro paths
  induction paths with
  | nil => exact meets_pure rfl
  | cons path paths ih =>
    have hcall : Meets (upkeep host ok) c (Meets.Ends (Same l) (Same l))
        (Attempt.call (Call.load path false) : Load Reply) l :=
      Meets.attempt_call _ ⟨hclaim, hload path⟩ fun _ => rfl
    refine Meets.attempt_bind _ _ hcall ?_ fun _ _ h => h
    rintro reply l' rfl
    cases reply with
    | error stop =>
      cases stop with
      | err e => exact ih
      | panic msg => exact meets_throw rfl
    | ok h =>
      dsimp only
      cases cString sym with
      | none => exact meets_pure rfl
      | some bytes =>
        dsimp only
        split_ifs
        · have hcall : Meets (upkeep host ok) c (Meets.Ends (Same l') (Same l'))
              (Attempt.call (Call.getProc h (.name bytes)) : Load Reply) l' :=
            Meets.attempt_call _ ⟨hclaim, hproc _ _⟩ fun _ => rfl
          refine Meets.attempt_bind _ _ hcall ?_ fun _ _ h => h
          rintro reply l'' rfl
          cases reply with
          | error stop => exact meets_throw rfl
          | ok ptr =>
            dsimp only
            split_ifs
            · exact ih
            · exact meets_pure rfl
        · exact ih

/-- Loads are nested here. What this load holds is the same afterwards, whatever came of the
    other. -/
theorem meets_tryResolveFromDisk (dllName sym : String) (hclaim : l.claim.isSome)
    (hload : ∀ path, ok (.load path false)) (hproc : ∀ h name, ok (.getProc h name)) :
    Meets (upkeep host ok) c (Meets.Ends (Same l) (Same l))
      (tryResolveFromDisk host dllName sym) l := by
  unfold tryResolveFromDisk
  split
  · exact meets_pure rfl
  · exact meets_throw rfl
  · exact meets_tryCandidates sym hclaim hload hproc _

theorem meets_resolveImport (known : ImplTable) (imp : Import) (out : ResolvedImports)
    (hclaim : l.claim.isSome) (hload : ∀ path, ok (.load path false))
    (hproc : ∀ h name, ok (.getProc h name)) :
    Meets (upkeep host ok) c (Meets.Ends (Same l) (Same l))
      (resolveImport host known imp out) l := by
  have hdisk := @meets_tryResolveFromDisk host ok c l imp.dll imp.name hclaim hload hproc
  unfold resolveImport
  dsimp only
  split
  · split_ifs
    · refine Meets.attempt_bind _ _ hdisk ?_ fun _ _ h => h
      rintro found l' rfl
      cases found with
      | none => exact meets_pure rfl
      | some ptr => exact meets_pure rfl
    · exact meets_pure rfl
  · split_ifs
    · split
      · exact meets_pure rfl
      · split <;> exact meets_pure rfl
    · split <;> exact meets_pure rfl
    · refine Meets.attempt_bind _ _ hdisk ?_ fun _ _ h => h
      rintro found l' rfl
      cases found with
      | none => exact meets_pure rfl
      | some ptr => exact meets_pure rfl

theorem meets_resolve (known : ImplTable) (hclaim : l.claim.isSome)
    (hload : ∀ path, ok (.load path false)) (hproc : ∀ h name, ok (.getProc h name)) :
    ∀ (imps : List Import) (out : ResolvedImports),
      Meets (upkeep host ok) c (Meets.Ends (Same l) (Same l)) (resolve host known imps out) l := by
  intro imps
  induction imps with
  | nil =>
    intro out
    exact meets_pure rfl
  | cons imp imps ih =>
    intro out
    refine Meets.attempt_bind _ _ (meets_resolveImport known imp out hclaim hload hproc) ?_
      fun _ _ h => h
    rintro out' l' rfl
    exact ih out'

theorem meets_writeIat (img : MappedImage) (imports : List Import) (resolved : SymbolMap) :
    Meets (upkeep host ok) c (Meets.Ends (Same l) (Same l)) (writeIat host img imports resolved) l :=
  have hslot := SamePages.order.writeIatSlot (fun _ _ => trivial) host resolved
  meets_onSpace (SamePages.order.foldl imports fun s imp _ => hslot s imp) fun _ => rfl

theorem meets_relocate (f : DllFile) (mapped : MappedImage) :
    Meets (upkeep host ok) c (Meets.Ends (Same l) (Same l)) (relocate f mapped) l := by
  unfold relocate
  split
  · exact meets_pure rfl
  · rename_i dir _
    apply meets_onSpace
    · exact fun s => SamePages.order.applyRelocations (fun _ _ => trivial) f.bytes f.file.pe dir ⟨s, []⟩
    · intro s
      dsimp only
      cases (applyRelocations mapped f.bytes f.file.pe dir ⟨s, []⟩).1 <;> rfl

theorem imageAt_count (f : DllFile) (page : Nat)
    (hsize : roundUp f.opt.sizeOfImage.toNat pageSize ≠ 0) : 0 < (f.imageAt page).block.count := by
  have hmod := roundUp_mod f.opt.sizeOfImage.toNat pageSize
  have hpos : 0 < roundUp f.opt.sizeOfImage.toNat pageSize := Nat.pos_of_ne_zero hsize
  exact Nat.div_pos (Nat.le_of_dvd hpos (Nat.dvd_of_mod_eq_zero hmod)) (by decide)

theorem meets_mapAnywhere (f : DllFile) (hl : l.image = none)
    (hsize : roundUp f.opt.sizeOfImage.toNat pageSize ≠ 0) :
    Meets (upkeep host ok) c
      (Meets.Ends (fun mapped l' => l' = l.withImage (some mapped.block)) (Same l))
      (mapAnywhere host f) l := by
  unfold mapAnywhere
  apply meets_withMmap
  intro s os hown hfresh
  cases os with
  | error msg => exact ⟨hown.rearranges (.refl s), rfl⟩
  | ok page =>
    have hperm : (l.withImage (some (f.imageAt page).block)).blocks.Perm
        ((f.imageAt page).block :: l.blocks) := by
      unfold Holdings.blocks Holdings.withImage
      rw [hl]
      exact .refl _
    refine ⟨⟨rfl, rfl, ?_, hown.map hfresh.2 hperm⟩, rfl⟩
    intro b hb
    cases hb
    exact Or.inr (imageAt_count f page hsize)

theorem meets_protect (f : DllFile) (mapped : MappedImage) :
    Meets (upkeep host ok) c (Meets.Ends (Same l) (Same l))
      (onSpace fun s => protectSections mapped f.file.pe.sections (copyImage f mapped s)) l := by
  apply meets_onSpace
  · intro s
    exact (SamePages.copyImage f mapped s).trans
      (SamePages.order.protectSections (fun _ _ => trivial) _ _)
  · intro s
    generalize (protectSections mapped f.file.pe.sections (copyImage f mapped s)).1 = r
    cases r <;> rfl

theorem meets_mapImageAnywhere (f : DllFile) (hl : l.image = none) :
    Meets (upkeep host ok) c
      (Meets.Ends (fun mapped l' => l' = l.withImage (some mapped.block)) fun _ _ => True)
      (mapImageAnywhere host f) l := by
  unfold mapImageAnywhere
  split_ifs with hsize
  · exact meets_throw trivial
  · refine Meets.attempt_bind _ _ (meets_mapAnywhere f hl hsize) ?_ fun _ _ _ => trivial
    rintro mapped l₁ rfl
    refine Meets.attempt_bind _ _ (meets_protect f mapped) ?_ fun _ _ _ => trivial
    rintro _ l₂ rfl
    exact meets_pure rfl

theorem meets_newStack (refused : String → Stop) (hl : l.stack = none) :
    Meets (upkeep host ok) c (Meets.Ends (fun b l' => l' = l.withStack (some b)) (Same l))
      (newStack host refused) l := by
  unfold newStack
  apply meets_withMmap
  intro s os hown hfresh
  cases os with
  | error msg => exact ⟨hown.rearranges (.refl s), rfl⟩
  | ok page =>
    have hguard : (mprotect (mapZero s page (stackLen / pageSize) .readWrite) page 1
        .noAccess).1 = true := by
      apply mprotect_fst.mpr
      intro i hi
      have hlen : 1 ≤ stackLen / pageSize := by decide
      exact mapped_mapZero s page _ _ i ⟨hi.1, Nat.lt_of_lt_of_le hi.2 (Nat.add_le_add_left hlen _)⟩
    have hperm : (l.withStack (some ⟨page, stackLen / pageSize⟩)).blocks.Perm
        (⟨page, stackLen / pageSize⟩ :: l.blocks) := by
      unfold Holdings.blocks Holdings.withStack
      rw [hl, Option.toList_none, List.append_nil]
      exact List.perm_append_comm
    dsimp only
    rw [if_pos hguard]
    have hmap := hown.map (p := .readWrite) hfresh.2 hperm
    have hsame := SamePages.mprotect (mapZero s page (stackLen / pageSize) .readWrite) page 1
      .noAccess
    refine ⟨⟨rfl, rfl, fun _ hb => Or.inl hb, ?_⟩, rfl⟩
    constructor
    · exact fun i hi => (hmap.kept i hi).imp_left fun h => (hsame i).trans h
    · exact fun b hb => hsame.mapped (hmap.held b hb)
    · exact hmap.fresh
    · exact hmap.pairwise

theorem meets_dropArena_image {e : Stop} (l₀ : Holdings) (hl : l.thunks = a.blocks)
    (himage : l.image = l₀.image) :
    Meets (upkeep host ok) c (Meets.Ends (fun _ => SameImage l₀ e) (SameImage l₀))
      (dropArena a) l := by
  refine Meets.mono ?_ _ (meets_dropArena hl)
  intro r l' hr
  cases r with
  | ok _ =>
    obtain rfl : l' = l.withThunks [] := hr
    exact himage
  | error _ => exact hr.elim

theorem meets_bindImage (f : DllFile) (mapped : MappedImage) (hclaim : l.claim.isSome)
    (hthunks : l.thunks = []) (hstack : l.stack = none)
    (hload : ∀ path, ok (.load path false)) (hproc : ∀ h name, ok (.getProc h name)) :
    Meets (upkeep host ok) c
      (Meets.Ends (fun b l' => l' = (l.withThunks b.arena.blocks).withStack (some b.stack))
        (SameImage l))
      (bindImage host f mapped) l := by
  unfold bindImage
  refine Meets.attempt_bind _ _ (meets_relocate f mapped) ?_ fun _ _ h => h.image
  rintro _ l₁ rfl
  refine Meets.attempt_bind _ _ (meets_newArena _ _ hthunks) ?_ fun _ _ h => h.image
  rintro a₁ l₂ rfl
  refine Meets.attempt_bind _ _ (meets_build rfl) ?_ fun _ _ h => h
  rintro ⟨a₂, table⟩ l₃ rfl
  refine Meets.attempt_bind _ _
    (@meets_resolve _ _ _ (l₁.withThunks a₂.blocks) table hclaim hload hproc _ _) ?_
    fun _ _ h => h.image
  rintro resolved l₄ rfl
  refine Meets.attempt_bind _ _ (meets_writeIat mapped _ _) ?_ fun _ _ h => h.image
  rintro _ l₅ rfl
  refine Meets.attempt_bind _ _ (Meets.attempt_onError _ _ (meets_sealArena a₂ _) ?_) ?_
    fun _ _ h => h
  · rintro e l' rfl
    exact meets_dropArena_image (e := e) l₁ rfl rfl
  rintro a₃ l₆ ⟨rfl, hblocks⟩
  have hexports : Meets (upkeep host ok) c (Meets.Ends (Same (l₁.withThunks a₂.blocks)) (Same l₁))
      (onSpace fun space => (.ok (parseExportTable space mapped), space) : Load ExportTable)
      (l₁.withThunks a₂.blocks) := meets_onSpace (fun s => .refl s) fun _ => rfl
  refine Meets.attempt_bind _ _ hexports ?_ fun _ _ h => h.image
  rintro exports l₇ rfl
  refine Meets.attempt_bind _ _ (Meets.attempt_onError _ _ (meets_newStack _ hstack) ?_) ?_
    fun _ _ h => h
  · rintro e l' rfl
    exact meets_dropArena_image (e := e) l₁ hblocks.symm rfl
  rintro stack l₈ rfl
  apply meets_pure
  show (l₁.withThunks a₂.blocks).withStack (some stack) =
    (l₁.withThunks a₃.blocks).withStack (some stack)
  rw [hblocks]

/-- A load that fails from here on gives back its stack and its thunks. -/
theorem meets_abandon {b : Bound} {e : Stop} (hthunks : l.thunks = b.arena.blocks)
    (hstack : l.stack = some b.stack) (hpost : post (.error e) ((l.withStack none).withThunks [])) :
    Meets (upkeep host ok) c post (abandon b e) l := by
  unfold abandon
  refine Meets.attempt_bind _ _ (meets_dropStack hstack) ?_ fun _ _ h => h.elim
  rintro _ l₁ rfl
  refine Meets.attempt_bind _ _ (@meets_dropArena _ _ _ (l.withStack none) b.arena hthunks) ?_
    fun _ _ h => h.elim
  rintro _ l₂ rfl
  exact meets_throw hpost

theorem meets_attach (f : DllFile) (canonical : String) {mapped : MappedImage} {b : Bound}
    (runDllMain : Bool) (hclaim : l.claim.isSome) (himage : l.image = some mapped.block)
    (hthunks : l.thunks = b.arena.blocks) (hstack : l.stack = some b.stack)
    (hmain : runDllMain = true → ∀ entry h, ok (.dllMain entry h)) :
    Meets (upkeep host ok) c (Meets.Ends (Same l) fun _ _ => True)
      (attach f canonical mapped b runDllMain) l := by
  unfold attach
  dsimp only
  split_ifs with hskip
  · exact meets_pure rfl
  · have hrun : runDllMain = true := by
      cases runDllMain with
      | true => rfl
      | false => exact absurd (Or.inl rfl) hskip
    split
    · exact meets_abandon hthunks hstack trivial
    · rename_i entry _
      have hcall : Meets (upkeep host ok) c (Meets.Ends (Same l) (Same l))
          (Attempt.call (Call.dllMain entry mapped.base) : Load Reply) l :=
        Meets.attempt_call _ ⟨hclaim, hmain hrun _ _⟩ fun _ => rfl
      refine Meets.attempt_bind _ _ hcall ?_ fun _ _ _ => trivial
      rintro reply l₁ rfl
      cases reply with
      | error stop => exact meets_throw trivial
      | ok result =>
        dsimp only
        split_ifs
        · refine Meets.attempt_bind _ _ (meets_unmapImage himage) ?_ fun _ _ h => h.elim
          rintro _ l₂ rfl
          exact meets_abandon hthunks hstack trivial
        · exact meets_pure rfl

theorem meets_register {m : LoadedModule} (hclaim : l.claim = some m.modulePath)
    (himage : l.image = some m.image.block) (hblocks : l.blocks = m.blocks) :
    Meets (upkeep host ok) c (Meets.Ends (fun _ _ => True) fun _ _ => False) (register m) l := by
  apply Meets.attempt_atomically
  intro s _ _
  exact ⟨.register m hclaim himage hblocks, trivial⟩

/-- What a load of a file holds at the start. -/
def Holdings.claiming (canonical : String) : Holdings := ⟨true, some canonical, .none, [], .none⟩

theorem meets_prepare (f : DllFile) (hclaim : l.claim.isSome) (himage : l.image = none)
    (hthunks : l.thunks = []) (hstack : l.stack = none)
    (hload : ∀ path, ok (.load path false)) (hproc : ∀ h name, ok (.getProc h name)) :
    Meets (upkeep host ok) c
      (Meets.Ends (fun r l' => l' = ⟨l.checked, l.claim, some r.1.block, r.2.arena.blocks,
        some r.2.stack⟩) fun _ _ => True)
      (prepare host f) l := by
  unfold prepare
  refine Meets.attempt_bind _ _ (meets_mapImageAnywhere f himage) ?_ fun _ _ _ => trivial
  rintro mapped l₁ rfl
  refine Meets.attempt_bind _ _ (meets_bindImage f mapped hclaim hthunks hstack hload hproc) ?_
    fun _ _ _ => trivial
  rintro b l₂ rfl
  exact meets_pure rfl

theorem meets_loadFile (f : DllFile) (canonical : String) (runDllMain : Bool)
    (hload : ∀ path, ok (.load path false)) (hproc : ∀ h name, ok (.getProc h name))
    (hmain : runDllMain = true → ∀ entry h, ok (.dllMain entry h)) :
    Meets (upkeep host ok) c (fun _ _ => True) (loadFile host f canonical runDllMain)
      (.claiming canonical) := by
  unfold loadFile
  refine Meets.attempt_bind _ _ (meets_prepare f rfl rfl rfl rfl hload hproc) ?_
    fun _ _ _ => trivial
  rintro ⟨mapped, b⟩ l₂ rfl
  refine Meets.attempt_bind _ _ (meets_attach f canonical runDllMain rfl rfl rfl rfl hmain) ?_
    fun _ _ _ => trivial
  rintro _ l₃ rfl
  refine Meets.attempt_bind _ _ (meets_register rfl rfl rfl) ?_ fun _ _ _ => trivial
  intro _ _ _
  exact meets_pure trivial

end

theorem meets_lookupByPath {host : Host} {ok : Call → Prop} {path canonical : String}
    (runDllMain : Bool) (hcanon : host.canonicalize path = .ok canonical) :
    Meets (upkeep host ok) (.load path runDllMain)
      (Meets.Ends (fun r l' => r = none → l' = .claiming canonical) fun _ _ => False)
      (lookupByPath canonical) .none := by
  apply Meets.attempt_atomically
  intro s _ _
  unfold lookup
  cases hfind : s.modules.find? fun m => m.modulePath = canonical with
  | some m => exact ⟨.look, nofun⟩
  | none =>
    refine ⟨.claim path runDllMain canonical rfl rfl hcanon ?_, fun _ => rfl⟩
    intro m hm hpath
    have hno := List.find?_eq_none.mp hfind m hm
    simp [hpath] at hno

theorem meets_load {host : Host} {D : Discipline Holdings Sys Call} {path : String}
    {runDllMain : Bool}
    (hlook : ∀ canonical, host.canonicalize path = .ok canonical →
      Meets D (.load path runDllMain)
        (Meets.Ends (fun r l' => r = none → l' = .claiming canonical) fun _ _ => False)
        (lookupByPath canonical) .none)
    (hfile : ∀ f canonical, Meets D (.load path runDllMain) (fun _ _ => True)
      (loadFile host f canonical runDllMain) (.claiming canonical)) :
    Meets D (.load path runDllMain) (fun _ _ => True) (loadDllEx host path runDllMain) .none := by
  unfold loadDllEx
  split
  · exact trivial
  · rename_i canonical hcanon
    refine Meets.attempt_bind _ _ (hlook canonical hcanon) ?_ fun _ _ h => h.elim
    intro r l' hr
    cases r with
    | some h => exact trivial
    | none =>
      obtain rfl := hr rfl
      have hopen : Meets D (.load path runDllMain)
          (Meets.Ends (fun _ l' => l' = .claiming canonical) fun _ _ => True)
          (Attempt.ofExcept (openDll host path canonical) : Load DllFile)
          (.claiming canonical) := by
        show Meets.Ends _ _ (openDll host path canonical) _
        cases openDll host path canonical with
        | ok f => exact rfl
        | error e => exact trivial
      refine Meets.attempt_bind _ _ hopen ?_ fun _ _ _ => trivial
      rintro f l₁ rfl
      exact hfile f canonical

/-- The whole of a load, whatever exit it takes, is a course of calls that each keep the
    discipline. -/
theorem meets_loadDllEx {host : Host} {ok : Call → Prop} (path : String) (runDllMain : Bool)
    (hload : ∀ path, ok (.load path false)) (hproc : ∀ h name, ok (.getProc h name))
    (hmain : runDllMain = true → ∀ entry h, ok (.dllMain entry h)) :
    Meets (upkeep host ok) (.load path runDllMain) (fun _ _ => True)
      (loadDllEx host path runDllMain) .none :=
  meets_load (fun _ hcanon => meets_lookupByPath runDllMain hcanon) fun f canonical =>
    meets_loadFile f canonical runDllMain hload hproc hmain

theorem meets_freeLibrary {host : Host} {ok : Call → Prop} (h : Nat) :
    Meets (upkeep host ok) (.free h) (fun _ _ => True) (freeLibrary h) .none := by
  unfold freeLibrary
  have hremove : Meets (upkeep host ok) (.free h)
      (Meets.Ends (fun r l' => ∀ m, r = some m →
        l' = ⟨false, .none, some m.image.block, m.thunkArena.blocks, some m.stack⟩) fun _ _ => False)
      (removeModule h) .none := by
    apply Meets.attempt_atomically
    intro s _ _
    dsimp only
    split
    · exact ⟨.memory rfl (Owned.rearranges ⟨nofun, .nil⟩ (.refl _)), nofun⟩
    · rename_i m hfind
      refine ⟨.remove m h rfl rfl rfl rfl rfl hfind rfl rfl, ?_⟩
      intro m' hm
      cases hm
      rfl
  refine Meets.attempt_bind _ _ hremove ?_ fun _ _ h => h.elim
  intro r l' hr
  cases r with
  | none => exact meets_pure trivial
  | some m =>
    obtain rfl := hr m rfl
    refine Meets.attempt_bind _ _ (meets_unmapImage rfl) ?_ fun _ _ h => h.elim
    rintro _ l₁ rfl
    refine Meets.attempt_bind _ _ (meets_dropStack rfl) ?_ fun _ _ h => h.elim
    rintro _ l₂ rfl
    refine Meets.attempt_bind _ _ (meets_dropArena rfl) ?_ fun _ _ h => h.elim
    rintro _ l₃ rfl
    exact meets_pure trivial

theorem meets_getProcAddress {host : Host} {ok : Call → Prop} (h : Nat) (name : ProcName) :
    Meets (upkeep host ok) (.getProc h name) (fun _ _ => True) (getProcAddress host h name)
      .none := by
  unfold getProcAddress
  split_ifs
  · exact meets_pure trivial
  · cases name with
    | ordinal n => exact meets_pure trivial
    | name bytes =>
      dsimp only
      unfold fakeProcAddress
      refine Meets.attempt_bind _ _ (meets_newArena _ _ rfl) ?_ fun _ _ _ => trivial
      rintro a₁ l₁ rfl
      refine Meets.attempt_bind _ _ (meets_build rfl) ?_ fun _ _ _ => trivial
      rintro ⟨a₂, table⟩ l₂ rfl
      refine Meets.attempt_bind _ _ (meets_sealArena a₂ _) ?_ fun _ _ _ => trivial
      rintro a₃ l₃ ⟨rfl, hblocks⟩
      dsimp only
      split
      · exact meets_pure trivial
      · refine Meets.attempt_bind _ _ (meets_dropArena hblocks.symm) ?_ fun _ _ h => h.elim
        rintro _ l₄ rfl
        exact meets_pure trivial
  · apply Meets.attempt_atomically
    intro s _ hown
    dsimp only
    split <;> exact ⟨.memory rfl (Owned.rearranges hown (.refl _)), trivial⟩

theorem meets_body {host : Host} {c : Call} {p : Proc (Holdings × Sys) Call Reply Reply}
    (hp : body host c = some p) :
    Meets (upkeep host fun _ => True) c (fun _ _ => True) p .none := by
  cases c with
  | load path runDllMain =>
    cases hp
    exact meets_loadDllEx path runDllMain (fun _ => trivial) (fun _ _ => trivial)
      fun _ _ _ => trivial
  | getProc h name =>
    cases hp
    exact meets_getProcAddress h name
  | free h =>
    cases hp
    exact meets_freeLibrary h
  | dllMain entry h => cases hp

end WinCompat.Loader
