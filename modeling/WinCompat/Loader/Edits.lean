import Mathlib.Data.Set.Basic
import WinCompat.Loader.ExecPages

/-!
# What the loader does to memory

Whatever the files are, wherever the kernel puts things and wherever a pass stops: no page becomes
both writable and executable (`writableExecutable_edits`), and none changes in any way but those of
the image, the arena or the stack that is being worked on (`edits_outside`).
-/

namespace WinCompat.Loader

open Lib Lib.Paging

/-- What the loader does to memory, with what the kernel answers it. -/
inductive Edit
  /-- `map_image`, to its end or to the section that cannot be protected. -/
  | mapImage (f : DllFile) (page : Nat)
  /-- `apply_relocations`, to its end or to the entry that is refused. -/
  | relocate (f : DllFile) (img : MappedImage)
  | writeIat (host : Host) (img : MappedImage) (imports : List Import) (resolved : SymbolMap)
  /-- `init_static_tls`, and what the guest stores. -/
  | store (addr : Nat) (bytes : List Byte)
  | newArena (capacity : Nat) (os : MmapAnswer)
  /-- `make_thunk` and `make_thunk_noreturn`. -/
  | emit (a : Arena) (code : List Byte) (os : MmapAnswer)
  | finalize (a : Arena)
  /-- `Stack::new_default`, with its guard page. -/
  | newStack (page : Nat)
  /-- Of an image, of a stack and of each block of an arena. -/
  | unmap (b : Block)

def Edit.apply (s : Space) : Edit → Space
  | .mapImage f page => (mapImageAt f page s).2
  | .relocate f img => (relocateImage f img s).2
  | .writeIat host img imports resolved => imports.foldl (writeIatSlot host img resolved) s
  | .store addr bytes => storeBytes s addr bytes
  | .newArena capacity os => ((withCapacity s capacity os).map Prod.snd).toOption.getD s
  | .emit a code os => ((a.emit s code os).map fun r => r.2.2).toOption.getD s
  | .finalize a => (a.finalize s).2.2
  | .newStack page => (mprotect (mapZero s page (stackLen / pageSize) .readWrite) page 1 .noAccess).2
  | .unmap b => unmapBlock s b

/-- The pages that an edit is about: those of the image, of the block that the arena is at or is
    given, of the stack. A field that is relocated or imported begins in the image and may end on the
    page behind it. -/
def Edit.touches : Edit → Nat → Prop
  | .mapImage f page, i => Touches (f.imageAt page).base (f.imageAt page).size i
  | .relocate _ img, i | .writeIat _ img _ _, i => Touches img.base (img.size + 7) i
  | .store addr bytes, i => Touches addr bytes.length i
  | .newArena capacity os, i =>
    ∃ page, os = .ok page ∧ InRange page (capacityLen capacity / pageSize) i
  | .emit a code os, i => a.block.HasPage i ∨ ∃ page, os = .ok page ∧
    InRange page (a.growLen (roundUp a.cursor 16 + code.length) / pageSize) i
  | .finalize a, i => ∃ b ∈ a.blocks, b.HasPage i
  | .newStack page, i => InRange page (stackLen / pageSize) i
  | .unmap b, i => b.HasPage i

section

variable {F : Nat → Prop} {R : Space → Space → Prop} (hR : PageOrder F R)
  (hmap : ∀ s first count, (∀ i, InRange first count i → F i) →
    R s (mapZero s first count .readWrite))

include hR hmap

theorem PageOrder.emit (s : Space) (a : Arena) (code : List Byte) (os : MmapAnswer)
    (hF : ∀ i, Edit.touches (.emit a code os) i → F i) :
    R s (Edit.apply s (.emit a code os)) := by
  show R s (((a.emit s code os).map fun r => r.2.2).toOption.getD s)
  cases h : a.emit s code os with
  | error e => exact hR.refl s
  | ok r =>
    obtain ⟨addr, a', s'⟩ := r
    obtain ⟨-, ⟨hroom, rfl, -, rfl⟩ | ⟨page, rfl, rfl, -, rfl⟩⟩ := Arena.emit_cases h
    · refine hR.storeBytes _ _ _ fun i hi => hF i (.inl ?_)
      unfold Touches Block.base at hi
      unfold Block.len at hroom
      unfold Block.HasPage InRange
      unfold pageSize at *
      omega
    · have hblock := fun i hi => hF i (.inr ⟨page, rfl, hi⟩)
      refine hR.trans (hmap s _ _ hblock) (hR.storeBytes _ _ _ fun i hi => hblock i ?_)
      simp only [Touches, Block.base, Nat.add_zero] at hi
      unfold InRange Arena.growLen roundUp
      unfold pageSize at *
      omega

theorem PageOrder.edit (s : Space) (e : Edit) (he : ∀ b, e ≠ .unmap b)
    (hF : ∀ i, e.touches i → F i) : R s (e.apply s) := by
  cases e with
  | mapImage f page =>
    refine hR.trans ?_ (hR.protectSections hF _ _)
    refine hR.trans (hmap s _ _ fun i hi => hF i ?_) (hR.copyImage hF f _)
    simp only [Edit.touches, MappedImage.base, DllFile.imageAt] at hi ⊢
    unfold InRange at hi
    unfold Touches roundUp at *
    unfold pageSize at *
    omega
  | relocate f img =>
    show R s (relocateImage f img s).2
    unfold relocateImage
    cases f.opt.baseRelocationTable with
    | none => exact hR.refl s
    | some dir => exact hR.applyRelocations hF f.bytes f.file.pe dir ⟨s, []⟩
  | writeIat host img imports resolved =>
    exact hR.foldl _ (fun s imp _ => hR.writeIatSlot hF host resolved s imp) _
  | store addr bytes => exact hR.storeBytes _ _ _ hF
  | newArena capacity os =>
    cases os with
    | error msg => exact hR.refl s
    | ok page => exact hmap s _ _ fun i hi => hF i ⟨page, rfl, hi⟩
  | emit a code os => exact hR.emit hmap s a code os hF
  | finalize a => exact hR.finalize a (fun b hb i hi => hF i ⟨b, hb, hi⟩) s
  | newStack page =>
    refine hR.trans (hmap s _ _ hF) (hR.mprotect _ _ _ _ rfl fun i hi => hF i ?_)
    exact ⟨hi.1, hi.2.trans_le (Nat.add_le_add_left (by decide) page)⟩
  | unmap b => exact absurd rfl (he b)

end

/-! ## Protections -/

def writableExecutable (s : Space) : Set Nat :=
  {i | ∃ p, protAt s i = some p ∧ (p.write && p.exec) = true}

theorem protAt_mprotect_cases {i count : Nat} {p : Prot} : ∀ (s : Space) (first : Nat),
    protAt (mprotect s first count p).2 i = protAt s i ∨
      protAt (mprotect s first count p).2 i = some p := by
  induction count with
  | zero => exact fun _ _ => Or.inl rfl
  | succ count ih =>
    intro s first
    unfold mprotect
    cases hs : s first with
    | none => exact Or.inl rfl
    | some pg =>
      rcases ih (Function.update s first (some { pg with prot := p })) (first + 1) with h | h
      · by_cases hi : i = first
        · refine Or.inr (h.trans ?_)
          rw [protAt, hi, Function.update_self]
          rfl
        · refine Or.inl (h.trans ?_)
          rw [protAt, Function.update_of_ne hi]
          rfl
      · exact Or.inr h

/-- No page becomes writable and executable. -/
theorem pageOrder_writableExecutable :
    PageOrder (fun _ => True) fun s t => writableExecutable t ⊆ writableExecutable s where
  refl _ := Set.Subset.rfl
  trans h h' := h'.trans h
  storeBytes s a bs _ i hi := by
    obtain ⟨p, hp, hboth⟩ := hi
    exact ⟨p, protAt_storeBytes s a bs i ▸ hp, hboth⟩
  mprotect s first count p hp _ i hi := by
    obtain ⟨q, hq, hboth⟩ := hi
    rcases protAt_mprotect_cases s first with h | h
    · exact ⟨q, h ▸ hq, hboth⟩
    · cases h.symm.trans hq
      rw [hp] at hboth
      cases hboth

theorem writableExecutable_mapZero (s : Space) (first count : Nat) (_ : ∀ i, InRange first count i →
    True) :
    writableExecutable (mapZero s first count .readWrite) ⊆ writableExecutable s := by
  rintro i ⟨p, hp, hboth⟩
  unfold protAt mapZero at hp
  split at hp
  · cases hp
    cases hboth
  · exact ⟨p, hp, hboth⟩

theorem writableExecutable_unmap (s : Space) (first count : Nat) :
    writableExecutable (unmap s first count) ⊆ writableExecutable s := by
  rintro i ⟨p, hp, hboth⟩
  unfold protAt unmap at hp
  split at hp
  · cases hp
  · exact ⟨p, hp, hboth⟩

theorem writableExecutable_apply (s : Space) (e : Edit) :
    writableExecutable (e.apply s) ⊆ writableExecutable s := by
  by_cases he : ∃ b, e = .unmap b
  · obtain ⟨b, rfl⟩ := he
    exact writableExecutable_unmap s _ _
  · exact pageOrder_writableExecutable.edit writableExecutable_mapZero s e (not_exists.mp he)
      fun _ _ => trivial

/-- However many loads, frees and calls there are, and in whatever order. -/
theorem writableExecutable_edits (edits : List Edit) (s : Space) :
    writableExecutable (edits.foldl Edit.apply s) ⊆ writableExecutable s :=
  pageOrder_writableExecutable.foldl edits (fun s e _ => writableExecutable_apply s e) s

/-! ## Pages -/

theorem pageOrder_outside (F : Nat → Prop) :
    PageOrder F fun s t => ∀ i, ¬ F i → t i = s i where
  refl _ _ _ := rfl
  trans h h' i hi := (h' i hi).trans (h i hi)
  storeBytes s a bs hF i hi := by
    refine storeBytes_of_not_mem fun x hlow hhigh hx => hi (hF i ?_)
    unfold Touches
    unfold pageSize at *
    omega
  mprotect s first count p _ hF i hi := mprotect_of_not_inRange (mt (hF i) hi) s

theorem apply_outside (s : Space) (e : Edit) {i : Nat} (h : ¬ e.touches i) : e.apply s i = s i := by
  by_cases he : ∃ b, e = .unmap b
  · obtain ⟨b, rfl⟩ := he
    exact unmap_of_not_inRange h
  · refine (pageOrder_outside e.touches).edit ?_ s e (not_exists.mp he) (fun _ hi => hi) i h
    exact fun s first count hF i hi => mapZero_of_not_inRange (mt (hF i) hi)

end WinCompat.Loader
