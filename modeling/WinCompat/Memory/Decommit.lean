import WinCompat.Memory.Virtual

/-!
# What `VirtualFree(MEM_DECOMMIT)` takes away

The base is rounded down and the size up, each by itself, so the last page of the range is missed
when the range starts late enough in its first page. Nothing relates the range to an allocation.
-/

namespace WinCompat.Memory

open Lib.Paging

/-- Page `i` contains a byte of `[addr, addr + size)`. -/
def Touched (addr size i : Nat) : Prop :=
  i * pageSize < addr + size ∧ addr < (i + 1) * pageSize

/-- Mapped, but for no access. -/
def Inaccessible (s : Space) (i : Nat) : Prop :=
  ∃ pg, s i = some pg ∧ pg.prot = .noAccess

/-- The call said FALSE and changed no page, or said TRUE, for bytes inside one live region, and took
    away exactly their pages. -/
def Decommits (p : Process) (addr size : Nat) : Option (Bool × Process) → Prop
  | none => False
  | some (false, p') => p'.space = p.space
  | some (true, p') =>
    (∃ r ∈ p.table, r.base ≤ addr ∧ addr + size ≤ r.base + r.size) ∧
      (∀ i, Touched addr size i → Inaccessible p'.space i) ∧
      ∀ i, ¬ Touched addr size i → p'.space i = p.space i

/-- When it does. -/
def DecommitFits (p : Process) (addr size : Nat) (remapRefused : Bool) : Prop :=
  addr = 0 ∨ size = 0 ∨
    size + pageSize < 2 ^ 64 ∧
      (taskSize < roundDown addr pageSize + roundUp size pageSize ∨
        if remapRefused then
          Unmapped p.space (addr / pageSize) (roundUp size pageSize / pageSize)
        else
          (∃ r ∈ p.table, r.base ≤ addr ∧ addr + size ≤ r.base + r.size) ∧
            (addr % pageSize + size ≤ roundUp size pageSize ∨
              Inaccessible p.space ((addr + size - 1) / pageSize)))

/-! ## Pages of a rounded range -/

theorem roundDown_div (n : Nat) : roundDown n pageSize / pageSize = n / pageSize := by
  unfold roundDown pageSize
  omega

variable {addr size i : Nat}

theorem touched_of_inRange (h : InRange (addr / pageSize) (roundUp size pageSize / pageSize) i) :
    Touched addr size i := by
  unfold InRange roundUp at h
  unfold Touched
  unfold pageSize at *
  omega

theorem inRange_of_touched (hfits : addr % pageSize + size ≤ roundUp size pageSize)
    (h : Touched addr size i) : InRange (addr / pageSize) (roundUp size pageSize / pageSize) i := by
  unfold Touched at h
  unfold InRange roundUp at *
  unfold pageSize at *
  omega

theorem inRange_or_last (h : Touched addr size i) :
    InRange (addr / pageSize) (roundUp size pageSize / pageSize) i ∨
      i = (addr + size - 1) / pageSize := by
  unfold Touched at h
  unfold InRange roundUp
  unfold pageSize at *
  omega

theorem last_touched {addr size : Nat} (hsize : size ≠ 0) :
    Touched addr size ((addr + size - 1) / pageSize) := by
  unfold Touched pageSize
  omega

theorem last_not_inRange {addr size : Nat} (hfits : ¬ addr % pageSize + size ≤ roundUp size pageSize) :
    ¬ InRange (addr / pageSize) (roundUp size pageSize / pageSize)
      ((addr + size - 1) / pageSize) := by
  unfold InRange roundUp at *
  unfold pageSize at *
  omega

/-! ## The call -/

theorem remapped_eq (s : Space) (first count : Nat) :
    mapZero (unmap s first count) first count .noAccess = mapZero s first count .noAccess := by
  funext i
  unfold mapZero
  split_ifs with h
  · rfl
  · exact unmap_of_not_inRange h

theorem remapped_iff {s : Space} {addr size : Nat} (hsize : size ≠ 0) :
    ((∀ i, Touched addr size i →
        Inaccessible (mapZero s (addr / pageSize) (roundUp size pageSize / pageSize) .noAccess) i) ∧
      ∀ i, ¬ Touched addr size i →
        mapZero s (addr / pageSize) (roundUp size pageSize / pageSize) .noAccess i = s i) ↔
    addr % pageSize + size ≤ roundUp size pageSize ∨
      Inaccessible s ((addr + size - 1) / pageSize) := by
  have hother : ∀ i, ¬ Touched addr size i →
      mapZero s (addr / pageSize) (roundUp size pageSize / pageSize) .noAccess i = s i := by
    intro i hi
    exact mapZero_of_not_inRange fun h => hi (touched_of_inRange h)
  constructor
  · intro h
    by_cases hfits : addr % pageSize + size ≤ roundUp size pageSize
    · exact Or.inl hfits
    · obtain ⟨pg, hpg, hprot⟩ := h.1 _ (last_touched hsize)
      rw [mapZero_of_not_inRange (last_not_inRange hfits)] at hpg
      exact Or.inr ⟨pg, hpg, hprot⟩
  · intro h
    refine ⟨?_, hother⟩
    intro i hi
    by_cases hin : InRange (addr / pageSize) (roundUp size pageSize / pageSize) i
    · exact ⟨_, mapZero_of_inRange hin, rfl⟩
    · have hlast := (inRange_or_last hi).resolve_left hin
      have hlate : ¬ addr % pageSize + size ≤ roundUp size pageSize :=
        fun hfits => hin (inRange_of_touched hfits hi)
      obtain ⟨pg, hpg, hprot⟩ := h.resolve_left hlate
      refine ⟨pg, ?_, hprot⟩
      rw [mapZero_of_not_inRange hin, hlast, hpg]

theorem unmap_eq_self_iff {s : Space} {first count : Nat} :
    unmap s first count = s ↔ Unmapped s first count := by
  constructor
  · intro h i hi
    rw [← h]
    exact unmap_of_inRange hi
  · intro h
    funext i
    by_cases hi : InRange first count i
    · rw [unmap_of_inRange hi, h i hi]
    · exact unmap_of_not_inRange hi

theorem virtualFree_decommit (p : Process) {addr size : BitVec 64} (remapRefused : Bool)
    (haddr : addr ≠ 0) (hsize : size ≠ 0) (hsum : size.toNat + pageSize < 2 ^ 64) :
    virtualFree p addr size memDecommit remapRefused =
      some (if taskSize < roundDown addr.toNat pageSize + roundUp size.toNat pageSize then
          (false, p)
        else if remapRefused then
          (false, { p with
            space := unmap p.space (addr.toNat / pageSize) (roundUp size.toNat pageSize / pageSize) })
        else
          (true, { p with
            space := mapZero p.space (addr.toNat / pageSize)
              (roundUp size.toNat pageSize / pageSize) .noAccess })) := by
  have hsize' : size.toNat ≠ 0 := fun h => hsize (BitVec.eq_of_toNat_eq h)
  have hlen : roundUp size.toNat pageSize ≠ 0 := by
    unfold roundUp pageSize
    omega
  unfold virtualFree checkedRoundUp munmapCall
  rw [if_neg haddr, if_neg (by decide), if_pos (by decide), if_neg hsize, if_pos hsum]
  simp only [Option.map_some, hlen, false_or, roundDown_div]
  by_cases hend : taskSize < roundDown addr.toNat pageSize + roundUp size.toNat pageSize
  · rw [if_pos hend, if_pos hend]
  · rw [if_neg hend, if_neg hend]
    simp only [remapped_eq]

/-- A decommit takes away exactly the pages asked for, or nothing, if and only if the range fits.
    What is rounded is the length and not the end, so an address inside a page can miss the last
    page. -/
theorem decommit_exact_iff (p : Process) (addr size : BitVec 64) (remapRefused : Bool) :
    Decommits p addr.toNat size.toNat (virtualFree p addr size memDecommit remapRefused) ↔
      DecommitFits p addr.toNat size.toNat remapRefused := by
  unfold DecommitFits
  by_cases haddr : addr = 0
  · unfold virtualFree
    rw [if_pos haddr]
    simp [Decommits, haddr]
  by_cases hsize : size = 0
  · unfold virtualFree
    rw [if_neg haddr, if_neg (by decide), if_pos (by decide), if_pos hsize]
    simp [Decommits, hsize]
  have haddr' : addr.toNat ≠ 0 := fun h => haddr (BitVec.eq_of_toNat_eq h)
  have hsize' : size.toNat ≠ 0 := fun h => hsize (BitVec.eq_of_toNat_eq h)
  simp only [haddr', hsize', false_or]
  by_cases hsum : size.toNat + pageSize < 2 ^ 64
  · rw [virtualFree_decommit p remapRefused haddr hsize hsum, and_iff_right hsum]
    by_cases hend : taskSize < roundDown addr.toNat pageSize + roundUp size.toNat pageSize
    · rw [if_pos hend]
      simp [Decommits, hend]
    · rw [if_neg hend, or_iff_right hend]
      cases remapRefused with
      | true => exact unmap_eq_self_iff
      | false => exact and_congr_right fun _ => remapped_iff hsize'
  · unfold virtualFree checkedRoundUp
    rw [if_neg haddr, if_neg (by decide), if_pos (by decide), if_neg hsize, if_neg hsum]
    exact iff_of_false id fun h => hsum h.1

/-! ## A range that starts inside a page -/

/-- One allocation of two pages at 0x10000. -/
def twoPages : Process where
  space := mapZero (fun _ => none) 0x10 2 .readWrite
  table := [⟨0x10000, 0x2000, .readWrite⟩]

/-- The second page of `[0x10800, 0x11800)` stays accessible. -/
theorem twoPages_not_decommitted :
    ¬ Decommits twoPages 0x10800 0x1000 (virtualFree twoPages 0x10800 0x1000 memDecommit false) := by
  rw [virtualFree_decommit twoPages false (by decide) (by decide) (by decide), if_neg (by decide)]
  intro h
  obtain ⟨pg, hpg, hprot⟩ := h.2.1 0x11 ⟨by decide, by decide⟩
  have hout : ¬ InRange ((0x10800 : BitVec 64).toNat / pageSize)
      (roundUp (0x1000 : BitVec 64).toNat pageSize / pageSize) 0x11 := by decide
  have hkept : twoPages.space 0x11 = some pg :=
    (mapZero_of_not_inRange (p := .noAccess) hout).symm.trans hpg
  have hpage : twoPages.space 0x11 = some ⟨.readWrite, fun _ => 0⟩ :=
    mapZero_of_inRange (s := fun _ => none) (show InRange 0x10 2 0x11 by decide)
  cases hpage.symm.trans hkept
  exact absurd hprot (by decide)

end WinCompat.Memory
