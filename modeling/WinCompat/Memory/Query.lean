import WinCompat.Lib.Machine
import WinCompat.Memory.Decommit

/-!
# `VirtualQuery` over runs

The machine makes one call per step, with an address space whose `mmap` hands out pages nobody has.
`live` is what the guest knows to be allocated: what `VirtualAlloc` returned and `VirtualFree` has
not taken back.

One record has to speak for every page of an allocation. It does after a step that leaves the pages
of each allocation with one protection, the recorded one (`Uniform`); any other step makes
`VirtualQuery` lie about some page.
-/

namespace WinCompat.Memory

open Lib Lib.Paging

/-- What the guest was handed: a base address and a length in whole pages. -/
structure Extent where
  base : Nat
  size : Nat
  deriving DecidableEq

def Extent.Contains (e : Extent) (a : Nat) : Prop := e.base ≤ a ∧ a < e.base + e.size

instance (e : Extent) (a : Nat) : Decidable (e.Contains a) := inferInstanceAs (Decidable (_ ∧ _))

structure State where
  process : Process
  live : List Extent

inductive Call
  -- The kernel maps at page `mmap`, or refuses.
  | alloc (size : BitVec 64) (allocType prot : BitVec 32) (mmap : Option Nat)
  | protect (addr size : BitVec 64) (newProt : BitVec 32)
  | decommit (addr size : BitVec 64)
  | release (addr size : BitVec 64)

/-- The pages `mmap` hands out are nobody's, below the end of the address space, and not page 0. -/
def Fresh (s : Space) (page count : Nat) : Prop :=
  0 < page ∧ (page + count) * pageSize ≤ taskSize ∧ Unmapped s page count

/-- The step is one the guest and the kernel can make: memory is mapped where it is free, and
    `VirtualProtect` is for bytes of one allocation. -/
def Call.Allowed (s : State) : Call → Prop
  | .alloc size _ _ (some page) =>
    Fresh s.process.space page (roundUp size.toNat pageSize / pageSize)
  | .protect addr size _ =>
    ∃ e ∈ s.live, e.base ≤ addr.toNat ∧ addr.toNat + size.toNat ≤ e.base + e.size
  | _ => True

/-- The state after the call. -/
def Call.apply (s : State) : Call → Option State
  | .alloc size allocType prot mmap =>
    (virtualAlloc s.process size allocType prot mmap).map fun r =>
      { process := r.2
        live := if r.1 = 0 then s.live else ⟨r.1, roundUp size.toNat pageSize⟩ :: s.live }
  | .protect addr size newProt =>
    (virtualProtect s.process addr size newProt).map fun r => { s with process := r.2 }
  | .decommit addr size =>
    (virtualFree s.process addr size memDecommit false).map fun r => { s with process := r.2 }
  | .release addr size =>
    (virtualFree s.process addr size memRelease false).map fun r =>
      { process := r.2
        live := if r.1 then s.live.filter fun e => e.base ≠ addr.toNat else s.live }

instance (s : State) (c : Call) : Decidable (c.Allowed s) := by
  unfold Call.Allowed Fresh
  split <;> infer_instance

/-- What the kernel alone sees to: the guest may call `VirtualProtect` for any bytes. -/
def Call.MapsFree (s : State) : Call → Prop
  | .alloc size _ _ (some page) =>
    Fresh s.process.space page (roundUp size.toNat pageSize / pageSize)
  | _ => True

instance (s : State) (c : Call) : Decidable (c.MapsFree s) := by
  unfold Call.MapsFree Fresh
  split <;> infer_instance

/-- Any calls, from an empty table. -/
def machine : Machine State Call where
  init s := s.process.table = [] ∧ s.live = []
  next s c := if c.Allowed s then c.apply s else none

/-- Any calls with any arguments. -/
def anyCalls : Machine State Call where
  init := machine.init
  next s c := if c.MapsFree s then c.apply s else none

/-- What the kernel enforces on the page of `a`, in Windows terms. -/
def InForce (s : Space) (a : Nat) (w : BitVec 32) : Prop :=
  ∃ pg, s (a / pageSize) = some pg ∧ linuxProtToWin pg.prot = w

/-- `VirtualQuery` answers for the addresses of live allocations and for no others; what it reports,
    and what `VirtualProtect` calls the old protection, is in force there and on every page of the
    reported run. -/
structure Truthful (s : State) : Prop where
  found : ∀ a : BitVec 64, (∃ e ∈ s.live, e.Contains a.toNat) →
    ∃ info, virtualQuery s.process a 48 = some info ∧ InForce s.process.space a.toNat info.protect ∧
      (info.baseAddress ≤ a.toNat ∧ a.toNat < info.baseAddress + info.regionSize) ∧
      (info.baseAddress % pageSize = 0 ∧ info.regionSize % pageSize = 0) ∧
      ∀ b, info.baseAddress ≤ b → b < info.baseAddress + info.regionSize →
        InForce s.process.space b info.protect
  notFound : ∀ a : BitVec 64, (∀ e ∈ s.live, ¬ e.Contains a.toNat) →
    virtualQuery s.process a 48 = none
  old : ∀ (addr size : BitVec 64) (newProt : BitVec 32) (w : BitVec 32) (p' : Process),
    (∃ e ∈ s.live, e.Contains addr.toNat) →
    virtualProtect s.process addr size newProt = some ((true, some w), p') →
      InForce s.process.space addr.toNat w

/-- A step that leaves every allocation with the one protection its record has. -/
def Call.Uniform (s : State) : Call → Prop
  | .protect addr size newProt =>
    addr = 0 ∨ size = 0 ∨ ∀ r ∈ s.process.table, r.base ≤ addr.toNat → addr.toNat < r.base + r.size →
      winProtToLinux newProt = r.prot ∨
        roundDown addr.toNat pageSize = r.base ∧
          r.base + r.size ≤ addr.toNat + size.toNat + (pageSize - 1)
  | .decommit addr size =>
    addr = 0 ∨ size = 0 ∨
      taskSize < roundDown addr.toNat pageSize + roundUp size.toNat pageSize ∨
      ∀ r ∈ s.process.table, ∀ i,
        InRange (addr.toNat / pageSize) (roundUp size.toNat pageSize / pageSize) i →
        InRange (r.base / pageSize) (r.size / pageSize) i → r.prot = .noAccess
  | _ => True

/-! ## The invariant -/

/-- Page `i` belongs to the region. -/
def Region.HasPage (r : Region) (i : Nat) : Prop :=
  InRange (r.base / pageSize) (r.size / pageSize) i

/-- The records are the live allocations: whole pages of user space, apart from each other. -/
structure Layout (s : State) : Prop where
  live_eq : s.live = s.process.table.map fun r => ⟨r.base, r.size⟩
  aligned : ∀ r ∈ s.process.table, r.base % pageSize = 0 ∧ r.size % pageSize = 0
  bounds : ∀ r ∈ s.process.table, 0 < r.base ∧ 0 < r.size ∧ r.base + r.size ≤ taskSize
  apart : ∀ r ∈ s.process.table, ∀ r' ∈ s.process.table, r = r' ∨
    r.base + r.size ≤ r'.base ∨ r'.base + r'.size ≤ r.base
  /-- A protection that a Windows flag has a translation for and that translates back. -/
  sane : ∀ r ∈ s.process.table, r.prot.write = true → r.prot.read = true

/-- The one protection of a record is that of all its pages. -/
structure Inv (s : State) : Prop extends Layout s where
  recorded : ∀ r ∈ s.process.table, ∀ i, r.HasPage i →
    ∃ pg, s.process.space i = some pg ∧ pg.prot = r.prot

/-- Every page of an allocation is mapped. -/
structure Kept (s : State) : Prop extends Layout s where
  mapped : ∀ r ∈ s.process.table, ∀ i, r.HasPage i → (s.process.space i).isSome

/-- Of the allocations in `s'`, each page is as it was in `s`, or has the recorded protection. -/
structure Frames (s s' : State) : Prop where
  layout : Layout s'
  pages : ∀ r ∈ s'.process.table, ∀ i, r.HasPage i →
    (r ∈ s.process.table ∧ s'.process.space i = s.process.space i) ∨
      ∃ pg, s'.process.space i = some pg ∧ pg.prot = r.prot

variable {s s' : State}

theorem Inv.kept (h : Inv s) : Kept s := by
  refine ⟨h.toLayout, fun r hr i hi => ?_⟩
  obtain ⟨pg, hpg, -⟩ := h.recorded r hr i hi
  exact hpg ▸ rfl

theorem Inv.of_frames (h : Inv s) (hf : Frames s s') : Inv s' := by
  refine ⟨hf.layout, fun r hr i hi => ?_⟩
  rcases hf.pages r hr i hi with ⟨hr, heq⟩ | hnew
  · rw [heq]
    exact h.recorded r hr i hi
  · exact hnew

theorem Kept.of_frames (h : Kept s) (hf : Frames s s') : Kept s' := by
  refine ⟨hf.layout, fun r hr i hi => ?_⟩
  rcases hf.pages r hr i hi with ⟨hr, heq⟩ | ⟨pg, hpg, -⟩
  · rw [heq]
    exact h.mapped r hr i hi
  · exact hpg ▸ rfl

theorem winProtToLinux_sane (prot : BitVec 32) :
    (winProtToLinux prot).write = true → (winProtToLinux prot).read = true := by
  unfold winProtToLinux
  split_ifs
  · exact nofun
  · intro h
    simp only [Bool.or_eq_true]
    exact Or.inl h

theorem linuxProtToWin_inj {p q : Prot} (hp : p.write = true → p.read = true)
    (hq : q.write = true → q.read = true) (h : linuxProtToWin p = linuxProtToWin q) : p = q := by
  obtain ⟨r, w, x⟩ := p
  obtain ⟨r', w', x'⟩ := q
  revert r w x r' w' x'
  decide

/-! ## Finding a record -/

variable {a : Nat}

theorem Layout.eq_of_mem (h : Layout s) {r r' : Region} (hr : r ∈ s.process.table)
    (hr' : r' ∈ s.process.table) (ha : r.base ≤ a ∧ a < r.base + r.size)
    (ha' : r'.base ≤ a ∧ a < r'.base + r'.size) : r = r' := by
  rcases h.apart r hr r' hr' with heq | hlt | hlt
  · exact heq
  · omega
  · omega

variable {r : Region}

theorem Layout.containing_eq_some (h : Layout s) :
    s.process.table.containing a = some r ↔
      r ∈ s.process.table ∧ r.base ≤ a ∧ a < r.base + r.size := by
  unfold AllocTable.containing
  rw [Option.filter_eq_some_iff]
  simp only [decide_eq_true_eq]
  constructor
  · intro hr
    exact ⟨List.mem_of_mem_filter (List.argmax_mem hr.1), hr.2⟩
  · intro hr
    refine ⟨?_, hr.2⟩
    have hmem : r ∈ s.process.table.filter fun r => r.base ≤ a :=
      List.mem_filter.mpr ⟨hr.1, decide_eq_true hr.2.1⟩
    cases hmax : (s.process.table.filter fun r => r.base ≤ a).argmax Region.base with
    | none =>
      rw [List.argmax_eq_none.mp hmax] at hmem
      exact absurd hmem List.not_mem_nil
    | some m =>
      have hle := List.le_of_mem_argmax hmem hmax
      have hm := List.mem_filter.mp (List.argmax_mem hmax)
      have hbase : m.base ≤ a := of_decide_eq_true hm.2
      have hpos := (h.bounds r hr.1).2.1
      have heq : r = m := by
        rcases h.apart r hr.1 m hm.1 with heq | hlt | hlt
        · exact heq
        · omega
        · have := (h.bounds m hm.1).2.1
          omega
      rw [heq]

theorem Layout.exists_live_iff (h : Layout s) :
    (∃ e ∈ s.live, e.Contains a) ↔ ∃ r, s.process.table.containing a = some r := by
  rw [h.live_eq]
  simp only [List.mem_map, h.containing_eq_some]
  constructor
  · rintro ⟨e, ⟨r, hr, rfl⟩, ha⟩
    exact ⟨r, hr, ha⟩
  · rintro ⟨r, hr, ha⟩
    exact ⟨⟨r.base, r.size⟩, ⟨r, hr, rfl⟩, ha⟩

theorem Layout.hasPage (h : Layout s) (hr : r ∈ s.process.table)
    (ha : r.base ≤ a ∧ a < r.base + r.size) : r.HasPage (a / pageSize) := by
  have halign := h.aligned r hr
  unfold Region.HasPage InRange
  unfold pageSize at *
  omega

theorem Layout.contains_of_hasPage (h : Layout s) (hr : r ∈ s.process.table) {i : Nat}
    (hi : r.HasPage i) : r.base ≤ i * pageSize ∧ i * pageSize < r.base + r.size := by
  have halign := h.aligned r hr
  unfold Region.HasPage InRange at hi
  unfold pageSize at *
  omega

theorem Inv.inForce (h : Inv s) (hr : r ∈ s.process.table) (ha : r.base ≤ a ∧ a < r.base + r.size) :
    InForce s.process.space a (linuxProtToWin r.prot) := by
  obtain ⟨pg, hpg, hprot⟩ := h.recorded r hr _ (h.hasPage hr ha)
  exact ⟨pg, hpg, congrArg linuxProtToWin hprot⟩

variable {addr size : BitVec 64}

theorem virtualProtect_old {p p' : Process} {newProt w : BitVec 32}
    (hr : p.table.containing addr.toNat = some r)
    (h : virtualProtect p addr size newProt = some ((true, some w), p')) :
    w = linuxProtToWin r.prot := by
  unfold virtualProtect at h
  simp only [hr] at h
  split_ifs at h with hz hov
  · cases h
  · simp only [Option.map_eq_some_iff] at h
    obtain ⟨rounded, -, h⟩ := h
    split_ifs at h
    · cases h
      rfl
    · cases h

theorem Inv.truthful (h : Inv s) : Truthful s where
  found a ha := by
    obtain ⟨r, hr⟩ := h.exists_live_iff.mp ha
    obtain ⟨hmem, hcontains⟩ := h.containing_eq_some.mp hr
    refine ⟨⟨r.base, r.base, pageReadwrite, r.size, memCommit, linuxProtToWin r.prot, memPrivate⟩,
      ?_, h.inForce hmem hcontains, hcontains, h.aligned r hmem, ?_⟩
    · unfold virtualQuery
      rw [hr]
      rfl
    · intro b hb hb'
      exact h.inForce hmem ⟨hb, hb'⟩
  notFound a ha := by
    have hnone : s.process.table.containing a.toNat = none := by
      cases hr : s.process.table.containing a.toNat with
      | none => rfl
      | some r =>
        obtain ⟨e, he, hin⟩ := h.exists_live_iff.mpr ⟨r, hr⟩
        exact absurd hin (ha e he)
    unfold virtualQuery
    rw [hnone]
    rfl
  old addr size newProt w p' ha hcall := by
    obtain ⟨r, hr⟩ := h.exists_live_iff.mp ha
    obtain ⟨hmem, hcontains⟩ := h.containing_eq_some.mp hr
    rw [virtualProtect_old hr hcall]
    exact h.inForce hmem hcontains

/-! ## Allocation and release -/

theorem virtualAlloc_granted (p : Process) {size : BitVec 64} {allocType prot : BitVec 32}
    (page : Nat) (hsize : size ≠ 0) (htype : allocType &&& (memCommit ||| memReserve) ≠ 0)
    (hsum : size.toNat + pageSize < 2 ^ 64) :
    virtualAlloc p size allocType prot (some page) =
      some (page * pageSize,
        { space := mapZero p.space page (roundUp size.toNat pageSize / pageSize)
            (winProtToLinux prot)
          table := p.table.insert
            ⟨page * pageSize, roundUp size.toNat pageSize, winProtToLinux prot⟩ }) := by
  have hmprotect : (if winProtToLinux prot = .readWrite then
        (true, mapZero p.space page (roundUp size.toNat pageSize / pageSize) .readWrite)
      else
        mprotect (mapZero p.space page (roundUp size.toNat pageSize / pageSize) .readWrite) page
          (roundUp size.toNat pageSize / pageSize) (winProtToLinux prot)) =
      (true, mapZero p.space page (roundUp size.toNat pageSize / pageSize)
        (winProtToLinux prot)) := by
    by_cases hrw : winProtToLinux prot = .readWrite
    · rw [if_pos hrw, hrw]
    · rw [if_neg hrw, mprotect_of_mapped (mapped_mapZero _ _ _ _), protect_mapZero]
  unfold virtualAlloc checkedRoundUp
  rw [if_neg hsize, if_neg htype, if_pos hsum]
  simp only [Option.map_some, hmprotect, if_true]

theorem Kept.insert (h : Kept s) {page count : Nat} {prot : Prot} (hcount : 0 < count)
    (hfresh : Fresh s.process.space page count)
    (hsane : prot.write = true → prot.read = true) :
    Frames s ⟨⟨mapZero s.process.space page count prot,
        s.process.table.insert ⟨page * pageSize, count * pageSize, prot⟩⟩,
      ⟨page * pageSize, count * pageSize⟩ :: s.live⟩ := by
  obtain ⟨hpage, hend, hunmapped⟩ := hfresh
  -- A record in the table has its pages mapped, so it has none of the new ones.
  have hnone : ∀ r ∈ s.process.table, ∀ i, r.HasPage i → ¬ InRange page count i := by
    intro r hr i hi hin
    have hsome := h.mapped r hr i hi
    rw [hunmapped i hin] at hsome
    cases hsome
  have hapart : ∀ r ∈ s.process.table, r.base + r.size ≤ page * pageSize ∨
      page * pageSize + count * pageSize ≤ r.base := by
    intro r hr
    have halign := h.aligned r hr
    have hbounds := h.bounds r hr
    have hlow := hnone r hr (r.base / pageSize)
    have hhigh := hnone r hr page
    unfold Region.HasPage InRange at hlow hhigh
    unfold pageSize at *
    omega
  have hfilter : s.process.table.filter (fun r' => r'.base ≠ page * pageSize) = s.process.table := by
    apply List.filter_eq_self.mpr
    intro r hr
    have hbounds := h.bounds r hr
    have hpos : 0 < count * pageSize := Nat.mul_pos hcount (by decide)
    have := hapart r hr
    exact decide_eq_true (by omega)
  have hmem : ∀ r, r ∈ s.process.table.insert ⟨page * pageSize, count * pageSize, prot⟩ ↔
      r = ⟨page * pageSize, count * pageSize, prot⟩ ∨ r ∈ s.process.table := by
    intro r
    unfold AllocTable.insert
    rw [hfilter]
    exact List.mem_cons
  refine ⟨⟨?_, ?_, ?_, ?_, ?_⟩, ?_⟩
  · unfold AllocTable.insert
    rw [hfilter, List.map_cons, ← h.live_eq]
  · intro r hr
    rcases (hmem r).mp hr with rfl | hr
    · exact ⟨Nat.mul_mod_left _ _, Nat.mul_mod_left _ _⟩
    · exact h.aligned r hr
  · intro r hr
    rcases (hmem r).mp hr with rfl | hr
    · refine ⟨Nat.mul_pos hpage (by decide), Nat.mul_pos hcount (by decide), ?_⟩
      rwa [Nat.add_mul] at hend
    · exact h.bounds r hr
  · intro r hr r' hr'
    rcases (hmem r).mp hr with rfl | hr
    · rcases (hmem r').mp hr' with rfl | hr'
      · exact Or.inl rfl
      · exact Or.inr (hapart r' hr').symm
    · rcases (hmem r').mp hr' with rfl | hr'
      · exact Or.inr (hapart r hr)
      · exact h.apart r hr r' hr'
  · intro r hr
    rcases (hmem r).mp hr with rfl | hr
    · exact hsane
    · exact h.sane r hr
  · intro r hr i hi
    rcases (hmem r).mp hr with rfl | hr
    · have hin : InRange page count i := by
        unfold Region.HasPage at hi
        rwa [Nat.mul_div_cancel _ (by decide), Nat.mul_div_cancel _ (by decide)] at hi
      exact .inr ⟨_, mapZero_of_inRange hin, rfl⟩
    · exact .inl ⟨hr, mapZero_of_not_inRange (hnone r hr i hi)⟩

theorem Layout.frames (h : Layout s) : Frames s s := ⟨h, fun _ hr _ _ => .inl ⟨hr, rfl⟩⟩

theorem Kept.alloc (h : Kept s) {size : BitVec 64} {allocType prot : BitVec 32} {mmap : Option Nat}
    (hfree : (Call.alloc size allocType prot mmap).MapsFree s)
    (happly : (Call.alloc size allocType prot mmap).apply s = some s') : Frames s s' := by
  obtain ⟨r, hr, rfl⟩ := Option.map_eq_some_iff.mp happly
  by_cases hsize : size = 0
  · unfold virtualAlloc at hr
    rw [if_pos hsize] at hr
    cases hr
    exact h.frames
  by_cases htype : allocType &&& (memCommit ||| memReserve) = 0
  · unfold virtualAlloc at hr
    rw [if_neg hsize, if_pos htype] at hr
    cases hr
    exact h.frames
  by_cases hsum : size.toNat + pageSize < 2 ^ 64
  · cases mmap with
    | none =>
      unfold virtualAlloc checkedRoundUp at hr
      rw [if_neg hsize, if_neg htype, if_pos hsum] at hr
      cases hr
      exact h.frames
    | some page =>
      rw [virtualAlloc_granted s.process page hsize htype hsum] at hr
      cases hr
      have hsize' : size.toNat ≠ 0 := fun h => hsize (BitVec.eq_of_toNat_eq h)
      have hpage : page * pageSize ≠ 0 :=
        Nat.ne_of_gt (Nat.mul_pos hfree.1 (by decide))
      have hcount : 0 < roundUp size.toNat pageSize / pageSize := by
        unfold roundUp pageSize
        omega
      have hround : roundUp size.toNat pageSize / pageSize * pageSize = roundUp size.toNat pageSize := by
        unfold roundUp pageSize
        omega
      have hframes := h.insert hcount hfree (winProtToLinux_sane prot)
      rw [hround] at hframes
      simpa only [hpage, if_false] using hframes
  · unfold virtualAlloc checkedRoundUp at hr
    rw [if_neg hsize, if_neg htype, if_neg hsum] at hr
    cases hr

theorem get?_eq_some {t : AllocTable} {base : Nat} (h : t.get? base = some r) :
    r ∈ t ∧ r.base = base := by
  unfold AllocTable.get? at h
  have hbase := List.find?_some h
  exact ⟨List.mem_of_find?_eq_some h, of_decide_eq_true hbase⟩

theorem Layout.release (h : Layout s) (happly : (Call.release addr size).apply s = some s') :
    Frames s s' := by
  obtain ⟨r, hr, rfl⟩ := Option.map_eq_some_iff.mp happly
  unfold virtualFree at hr
  by_cases haddr : addr = 0
  · rw [if_pos haddr] at hr
    cases hr
    exact h.frames
  rw [if_neg haddr, if_pos (by decide)] at hr
  cases hget : s.process.table.get? addr.toNat with
  | none =>
    simp only [hget] at hr
    cases hr
    exact h.frames
  | some r₀ =>
    obtain ⟨hmem, hbase⟩ := get?_eq_some hget
    have hbounds := h.bounds r₀ hmem
    have hmunmap : munmapCall s.process.space addr.toNat r₀.size =
        some (unmap s.process.space (addr.toNat / pageSize) (r₀.size / pageSize)) := by
      unfold munmapCall
      rw [if_neg (by omega)]
    simp only [hget, hmunmap] at hr
    cases hr
    have hleft : ∀ r, r ∈ s.process.table.remove addr.toNat ↔
        r ∈ s.process.table ∧ r.base ≠ addr.toNat := by
      intro r
      unfold AllocTable.remove
      rw [List.mem_filter, decide_eq_true_eq]
    refine ⟨⟨?_, ?_, ?_, ?_, ?_⟩, ?_⟩
    · unfold AllocTable.remove
      rw [if_pos rfl, h.live_eq, List.filter_map]
      rfl
    · intro r hr
      exact h.aligned r ((hleft r).mp hr).1
    · intro r hr
      exact h.bounds r ((hleft r).mp hr).1
    · intro r hr r' hr'
      exact h.apart r ((hleft r).mp hr).1 r' ((hleft r').mp hr').1
    · intro r hr
      exact h.sane r ((hleft r).mp hr).1
    · intro r hr i hi
      obtain ⟨hr, hne⟩ := (hleft r).mp hr
      refine .inl ⟨hr, unmap_of_not_inRange fun hin => ?_⟩
      rw [← hbase] at hin
      have hsame := h.eq_of_mem hr hmem (h.contains_of_hasPage hr hi)
        (h.contains_of_hasPage hmem hin)
      exact hne (hsame ▸ hbase)

/-! ## Changes of protection -/

/-- The pages of `[addr, addr + size)`, as `VirtualProtect` counts them. -/
def protectPages (addr size : Nat) : Nat :=
  roundUp (size + (addr - roundDown addr pageSize)) pageSize / pageSize

theorem virtualProtect_inside (h : Inv s) {addr size : BitVec 64} (newProt : BitVec 32)
    {r : Region} (hr : r ∈ s.process.table) (hlow : r.base ≤ addr.toNat)
    (hhigh : addr.toNat + size.toNat ≤ r.base + r.size) (haddr : addr ≠ 0) (hsize : size ≠ 0) :
    virtualProtect s.process addr size newProt =
      some ((true, some (linuxProtToWin r.prot)),
        { space := protect s.process.space (addr.toNat / pageSize)
            (protectPages addr.toNat size.toNat) (winProtToLinux newProt)
          table := s.process.table.setProt (roundDown addr.toNat pageSize)
            (winProtToLinux newProt) }) := by
  have hsize' : size.toNat ≠ 0 := fun h => hsize (BitVec.eq_of_toNat_eq h)
  have hbounds := h.bounds r hr
  have halign := h.aligned r hr
  have hcontaining : s.process.table.containing addr.toNat = some r :=
    h.containing_eq_some.mpr ⟨hr, hlow, by omega⟩
  have hspan : size.toNat + (addr.toNat - roundDown addr.toNat pageSize) + pageSize < 2 ^ 64 := by
    unfold taskSize at hbounds
    unfold roundDown
    unfold pageSize at *
    omega
  have hmapped : Mapped s.process.space (addr.toNat / pageSize)
      (protectPages addr.toNat size.toNat) := by
    intro i hi
    obtain ⟨pg, hpg, -⟩ := h.recorded r hr i (by
      unfold protectPages roundUp roundDown InRange at hi
      unfold Region.HasPage InRange
      unfold pageSize at *
      omega)
    rw [hpg]
    rfl
  unfold virtualProtect checkedRoundUp
  rw [if_neg (not_or.mpr ⟨haddr, hsize⟩)]
  simp only [hcontaining, roundDown_div]
  rw [if_neg (by omega), if_pos hspan]
  have hcall := mprotect_of_mapped (p := winProtToLinux newProt) hmapped
  unfold protectPages at hcall ⊢
  simp only [Option.map_some, hcall, if_true]

theorem mem_setProt {t : AllocTable} {base : Nat} {p : Prot} {r' : Region} :
    r' ∈ t.setProt base p ↔
      ∃ r ∈ t, r' = if r.base = base then { r with prot := p } else r := by
  unfold AllocTable.setProt
  rw [List.mem_map]
  exact exists_congr fun r => and_congr_right fun _ => eq_comm

theorem Layout.setProt (h : Layout s) (space : Space) (base : Nat) {p : Prot}
    (hp : p.write = true → p.read = true) :
    Layout ⟨⟨space, s.process.table.setProt base p⟩, s.live⟩ := by
  have hsame : ∀ r' ∈ s.process.table.setProt base p, ∃ r ∈ s.process.table,
      r'.base = r.base ∧ r'.size = r.size ∧ (r'.prot = p ∨ r'.prot = r.prot) := by
    intro r' hr'
    obtain ⟨r, hr, rfl⟩ := mem_setProt.mp hr'
    refine ⟨r, hr, ?_⟩
    split_ifs
    · exact ⟨rfl, rfl, Or.inl rfl⟩
    · exact ⟨rfl, rfl, Or.inr rfl⟩
  refine ⟨?_, ?_, ?_, ?_, ?_⟩
  · unfold AllocTable.setProt
    rw [List.map_map, h.live_eq]
    apply List.map_congr_left
    intro r _
    simp only [Function.comp]
    split_ifs <;> rfl
  · intro r' hr'
    obtain ⟨r, hr, hbase, hsize, -⟩ := hsame r' hr'
    rw [hbase, hsize]
    exact h.aligned r hr
  · intro r' hr'
    obtain ⟨r, hr, hbase, hsize, -⟩ := hsame r' hr'
    rw [hbase, hsize]
    exact h.bounds r hr
  · intro r₁' hr₁' r₂' hr₂'
    obtain ⟨r₁, hr₁, rfl⟩ := mem_setProt.mp hr₁'
    obtain ⟨r₂, hr₂, rfl⟩ := mem_setProt.mp hr₂'
    rcases h.apart r₁ hr₁ r₂ hr₂ with rfl | hlt
    · exact Or.inl rfl
    · refine Or.inr ?_
      split_ifs <;> exact hlt
  · intro r' hr'
    obtain ⟨r, hr, -, -, hprot | hprot⟩ := hsame r' hr'
    · rwa [hprot]
    · rw [hprot]
      exact h.sane r hr

variable {newProt : BitVec 32}

theorem Inv.protect_region (h : Inv s) (hallowed : (Call.protect addr size newProt).Allowed s) :
    ∃ r ∈ s.process.table, r.base ≤ addr.toNat ∧ addr.toNat + size.toNat ≤ r.base + r.size := by
  obtain ⟨e, he, hin⟩ := hallowed
  rw [h.live_eq] at he
  obtain ⟨r, hr, rfl⟩ := List.mem_map.mp he
  exact ⟨r, hr, hin⟩

theorem inRange_protectPages {addr size : Nat} (hsize : size ≠ 0) :
    InRange (addr / pageSize) (protectPages addr size) (addr / pageSize) := by
  unfold InRange protectPages roundUp pageSize
  omega

theorem protect_inRange_hasPage (h : Inv s) (hr : r ∈ s.process.table) {addr size i : Nat}
    (hlow : r.base ≤ addr) (hhigh : addr + size ≤ r.base + r.size)
    (hi : InRange (addr / pageSize) (protectPages addr size) i) : r.HasPage i := by
  have halign := h.aligned r hr
  unfold protectPages roundUp roundDown InRange at hi
  unfold Region.HasPage InRange
  unfold pageSize at *
  omega

theorem Inv.protect (h : Inv s) (hallowed : (Call.protect addr size newProt).Allowed s)
    (huniform : (Call.protect addr size newProt).Uniform s)
    (happly : (Call.protect addr size newProt).apply s = some s') : Inv s' := by
  obtain ⟨res, hres, rfl⟩ := Option.map_eq_some_iff.mp happly
  by_cases hz : addr = 0 ∨ size = 0
  · unfold virtualProtect at hres
    rw [if_pos hz] at hres
    cases hres
    exact h
  obtain ⟨haddr, hsize⟩ := not_or.mp hz
  have hsize' : size.toNat ≠ 0 := fun h => hsize (BitVec.eq_of_toNat_eq h)
  obtain ⟨r, hr, hlow, hhigh⟩ := h.protect_region hallowed
  rw [virtualProtect_inside h newProt hr hlow hhigh haddr hsize] at hres
  cases hres
  have hr_addr : r.base ≤ addr.toNat ∧ addr.toNat < r.base + r.size := ⟨hlow, by omega⟩
  have huni := ((huniform.resolve_left haddr).resolve_left hsize) r hr hr_addr.1 hr_addr.2
  have halign := h.aligned r hr
  refine ⟨h.setProt _ _ (winProtToLinux_sane newProt), ?_⟩
  intro r' hr' i hi
  obtain ⟨r₁, hr₁, rfl⟩ := mem_setProt.mp hr'
  have hpage : r₁.HasPage i := by
    revert hi
    split_ifs <;> exact id
  obtain ⟨pg, hpg, hprot⟩ := h.recorded r₁ hr₁ i hpage
  by_cases hin : InRange (addr.toNat / pageSize) (protectPages addr.toNat size.toNat) i
  · -- A changed page is one of `r`'s, and whatever `r`'s record says now is the new protection.
    have heq : r₁ = r := h.eq_of_mem hr₁ hr (h.contains_of_hasPage hr₁ hpage)
      (h.contains_of_hasPage hr (protect_inRange_hasPage h hr hlow hhigh hin))
    subst heq
    refine ⟨{ pg with prot := winProtToLinux newProt }, ?_, ?_⟩
    · exact (protect_of_inRange hin).trans (by rw [hpg]; rfl)
    · split_ifs with hbase
      · rfl
      · exact huni.resolve_right fun hwhole => hbase hwhole.1.symm
  · refine ⟨pg, (protect_of_not_inRange hin).trans hpg, ?_⟩
    rw [hprot]
    split_ifs with hbase
    · -- The record at the rounded address is `r`'s own; a page left out means the protection is the
      -- old one.
      have heq : r₁ = r := by
        have hbounds := h.bounds r₁ hr₁
        apply h.eq_of_mem hr₁ hr (a := r₁.base) ⟨Nat.le_refl _, by omega⟩
        unfold roundDown at hbase
        unfold pageSize at *
        omega
      subst heq
      rcases huni with hsame | hwhole
      · exact hsame.symm
      · have hcovered : InRange (addr.toNat / pageSize) (protectPages addr.toNat size.toNat) i := by
          unfold Region.HasPage InRange at hpage
          unfold InRange protectPages roundUp roundDown at *
          unfold pageSize at *
          omega
        exact absurd hcovered hin
    · rfl

theorem Layout.not_truthful {space : Space} {table : AllocTable}
    (h : Layout ⟨⟨space, table⟩, s.live⟩) (hr : r ∈ table) {i : Nat} {pg : Page} (hi : r.HasPage i)
    (hpg : space i = some pg) (hprot : linuxProtToWin pg.prot ≠ linuxProtToWin r.prot) :
    ¬ Truthful ⟨⟨space, table⟩, s.live⟩ := by
  intro htrue
  have hbounds := h.bounds r hr
  have hcontains := h.contains_of_hasPage hr hi
  have hnat : (BitVec.ofNat 64 (i * pageSize)).toNat = i * pageSize := by
    rw [BitVec.toNat_ofNat]
    apply Nat.mod_eq_of_lt
    simp only [taskSize] at hbounds
    omega
  have hget : table.containing (BitVec.ofNat 64 (i * pageSize)).toNat = some r := by
    rw [hnat]
    exact h.containing_eq_some.mpr ⟨hr, hcontains⟩
  obtain ⟨info, hinfo, hforce, -⟩ := htrue.found (BitVec.ofNat 64 (i * pageSize))
    (h.exists_live_iff.mpr ⟨r, hget⟩)
  unfold virtualQuery at hinfo
  simp only [hget] at hinfo
  cases hinfo
  obtain ⟨pg', hpg', hwin⟩ := hforce
  rw [hnat, Nat.mul_div_cancel _ (by decide)] at hpg'
  cases hpg.symm.trans hpg'
  exact hprot hwin

theorem Inv.protect_not_uniform (h : Inv s) (hallowed : (Call.protect addr size newProt).Allowed s)
    (hnot : ¬ (Call.protect addr size newProt).Uniform s)
    (happly : (Call.protect addr size newProt).apply s = some s') : ¬ Truthful s' := by
  obtain ⟨res, hres, rfl⟩ := Option.map_eq_some_iff.mp happly
  simp only [Call.Uniform, not_or, not_forall] at hnot
  obtain ⟨haddr, hsize, r, hr, hlow, hlt, hother, hpart⟩ := hnot
  have hsize' : size.toNat ≠ 0 := fun h => hsize (BitVec.eq_of_toNat_eq h)
  obtain ⟨r', hr', hlow', hhigh⟩ := h.protect_region hallowed
  obtain rfl : r' = r := h.eq_of_mem hr' hr ⟨hlow', by omega⟩ ⟨hlow, hlt⟩
  rw [virtualProtect_inside h newProt hr hlow hhigh haddr hsize] at hres
  cases hres
  have hlayout := h.setProt (Paging.protect s.process.space (addr.toNat / pageSize)
    (protectPages addr.toNat size.toNat) (winProtToLinux newProt)) (roundDown addr.toNat pageSize)
    (winProtToLinux_sane newProt)
  have halign := h.aligned r' hr
  have hne : linuxProtToWin r'.prot ≠ linuxProtToWin (winProtToLinux newProt) := fun heq =>
    hother (linuxProtToWin_inj (h.sane r' hr) (winProtToLinux_sane newProt) heq).symm
  by_cases hbase : r'.base = roundDown addr.toNat pageSize
  · -- The record is changed, and the last page is not.
    have hlast : r'.HasPage ((r'.base + r'.size) / pageSize - 1) := by
      unfold Region.HasPage InRange
      unfold pageSize at *
      omega
    have hleft : ¬ InRange (addr.toNat / pageSize) (protectPages addr.toNat size.toNat)
        ((r'.base + r'.size) / pageSize - 1) := by
      have hend : ¬ r'.base + r'.size ≤ addr.toNat + size.toNat + (pageSize - 1) := fun hle =>
        hpart ⟨hbase.symm, hle⟩
      unfold InRange protectPages roundUp roundDown at *
      unfold pageSize at *
      omega
    obtain ⟨pg, hpg, hprot⟩ := h.recorded r' hr _ hlast
    have hmem : ({ r' with prot := winProtToLinux newProt } : Region) ∈
        s.process.table.setProt (roundDown addr.toNat pageSize) (winProtToLinux newProt) :=
      mem_setProt.mpr ⟨r', hr, by rw [if_pos hbase]⟩
    apply hlayout.not_truthful hmem hlast ((protect_of_not_inRange hleft).trans hpg)
    rw [hprot]
    exact hne
  · -- The pages are changed, and the record is not.
    have hin := @inRange_protectPages addr.toNat _ hsize'
    obtain ⟨pg, hpg, hprot⟩ := h.recorded r' hr _ (h.hasPage hr ⟨hlow, hlt⟩)
    have hmem : r' ∈
        s.process.table.setProt (roundDown addr.toNat pageSize) (winProtToLinux newProt) :=
      mem_setProt.mpr ⟨r', hr, by rw [if_neg hbase]⟩
    apply hlayout.not_truthful hmem (h.hasPage hr ⟨hlow, hlt⟩)
      ((protect_of_inRange hin).trans (by rw [hpg]; rfl))
    exact hne.symm

theorem Layout.setSpace (h : Layout s) (space : Space) :
    Layout ⟨⟨space, s.process.table⟩, s.live⟩ :=
  ⟨h.live_eq, h.aligned, h.bounds, h.apart, h.sane⟩

theorem Kept.protect (h : Kept s) (happly : (Call.protect addr size newProt).apply s = some s') :
    Kept s' := by
  obtain ⟨res, hres, rfl⟩ := Option.map_eq_some_iff.mp happly
  unfold virtualProtect at hres
  by_cases hz : addr = 0 ∨ size = 0
  · rw [if_pos hz] at hres
    cases hres
    exact h
  rw [if_neg hz] at hres
  dsimp only at hres
  by_cases hspan : 2 ^ 64 ≤ size.toNat + (addr.toNat - roundDown addr.toNat pageSize)
  · rw [if_pos hspan] at hres
    cases hres
  rw [if_neg hspan] at hres
  obtain ⟨rounded, -, rfl⟩ := Option.map_eq_some_iff.mp hres
  split
  · refine ⟨h.setProt _ _ (winProtToLinux_sane newProt), fun r hr i hi => ?_⟩
    obtain ⟨r₀, hr₀, rfl⟩ := mem_setProt.mp hr
    refine (mprotect_isSome i).trans (h.mapped r₀ hr₀ i ?_)
    revert hi
    split_ifs <;> exact id
  · exact ⟨h.setSpace _, fun r hr i hi => (mprotect_isSome i).trans (h.mapped r hr i hi)⟩

/-! ## Decommit -/

theorem decommit_cases (happly : (Call.decommit addr size).apply s = some s') :
    (addr = 0 ∨ size = 0 ∨
        taskSize < roundDown addr.toNat pageSize + roundUp size.toNat pageSize) ∧ s' = s ∨
      ¬ (addr = 0 ∨ size = 0 ∨
        taskSize < roundDown addr.toNat pageSize + roundUp size.toNat pageSize) ∧
      s' = ⟨⟨mapZero s.process.space (addr.toNat / pageSize)
        (roundUp size.toNat pageSize / pageSize) .noAccess, s.process.table⟩, s.live⟩ := by
  obtain ⟨res, hres, rfl⟩ := Option.map_eq_some_iff.mp happly
  by_cases haddr : addr = 0
  · unfold virtualFree at hres
    rw [if_pos haddr] at hres
    cases hres
    exact Or.inl ⟨Or.inl haddr, rfl⟩
  by_cases hsize : size = 0
  · unfold virtualFree at hres
    rw [if_neg haddr, if_neg (by decide), if_pos (by decide), if_pos hsize] at hres
    cases hres
    exact Or.inl ⟨Or.inr (Or.inl hsize), rfl⟩
  by_cases hsum : size.toNat + pageSize < 2 ^ 64
  · rw [virtualFree_decommit s.process false haddr hsize hsum] at hres
    by_cases hend : taskSize < roundDown addr.toNat pageSize + roundUp size.toNat pageSize
    · rw [if_pos hend] at hres
      cases hres
      exact Or.inl ⟨Or.inr (Or.inr hend), rfl⟩
    · rw [if_neg hend] at hres
      cases hres
      exact Or.inr ⟨not_or.mpr ⟨haddr, not_or.mpr ⟨hsize, hend⟩⟩, rfl⟩
  · unfold virtualFree checkedRoundUp at hres
    rw [if_neg haddr, if_neg (by decide), if_pos (by decide), if_neg hsize, if_neg hsum] at hres
    cases hres

theorem Inv.decommit (h : Inv s) (huniform : (Call.decommit addr size).Uniform s)
    (happly : (Call.decommit addr size).apply s = some s') : Inv s' := by
  rcases decommit_cases happly with ⟨-, rfl⟩ | ⟨hreach, rfl⟩
  · exact h
  obtain ⟨haddr, hreach⟩ := not_or.mp hreach
  obtain ⟨hsize, hend⟩ := not_or.mp hreach
  have huni := ((huniform.resolve_left haddr).resolve_left hsize).resolve_left hend
  refine ⟨h.toLayout.setSpace _, ?_⟩
  intro r hr i hi
  by_cases hin : InRange (addr.toNat / pageSize) (roundUp size.toNat pageSize / pageSize) i
  · exact ⟨_, mapZero_of_inRange hin, (huni r hr i hin hi).symm⟩
  · obtain ⟨pg, hpg, hprot⟩ := h.recorded r hr i hi
    exact ⟨pg, (mapZero_of_not_inRange hin).trans hpg, hprot⟩

theorem Kept.decommit (h : Kept s) (happly : (Call.decommit addr size).apply s = some s') :
    Kept s' := by
  rcases decommit_cases happly with ⟨-, rfl⟩ | ⟨-, rfl⟩
  · exact h
  refine ⟨h.setSpace _, fun r hr i hi => ?_⟩
  by_cases hin : InRange (addr.toNat / pageSize) (roundUp size.toNat pageSize / pageSize) i
  · exact congrArg Option.isSome (mapZero_of_inRange hin)
  · exact (congrArg Option.isSome (mapZero_of_not_inRange hin)).trans (h.mapped r hr i hi)

theorem Inv.decommit_not_uniform (h : Inv s) (hnot : ¬ (Call.decommit addr size).Uniform s)
    (happly : (Call.decommit addr size).apply s = some s') : ¬ Truthful s' := by
  simp only [Call.Uniform, not_or, not_forall] at hnot
  obtain ⟨haddr, hsize, hend, r, hr, i, hin, hi, hprot⟩ := hnot
  rcases decommit_cases happly with ⟨hrefused, -⟩ | ⟨-, rfl⟩
  · rcases hrefused with hz | hz | hz
    · exact absurd hz haddr
    · exact absurd hz hsize
    · exact absurd hz hend
  · apply (h.toLayout.setSpace _).not_truthful hr hi (mapZero_of_inRange hin)
    intro heq
    exact hprot (linuxProtToWin_inj (h.sane r hr) nofun heq.symm)

/-! ## Runs -/

theorem inv_init (h : machine.init s) : Inv s := by
  obtain ⟨htable, hlive⟩ := h
  have hnone : ∀ r, r ∉ s.process.table := by
    intro r
    rw [htable]
    exact List.not_mem_nil
  refine ⟨⟨?_, ?_, ?_, ?_, ?_⟩, ?_⟩
  · rw [hlive, htable]
    rfl
  · exact fun r hr => absurd hr (hnone r)
  · exact fun r hr => absurd hr (hnone r)
  · exact fun r hr => absurd hr (hnone r)
  · exact fun r hr => absurd hr (hnone r)
  · exact fun r hr => absurd hr (hnone r)

variable {c : Call}

theorem machine_next (h : machine.next s c = some s') : c.Allowed s ∧ c.apply s = some s' := by
  simp only [machine] at h
  split_ifs at h with hallowed
  exact ⟨hallowed, h⟩

theorem Call.Allowed.mapsFree (h : c.Allowed s) : c.MapsFree s := by
  cases c with
  | alloc size allocType prot mmap =>
    cases mmap with
    | none => trivial
    | some page => exact h
  | protect | decommit | release => trivial

theorem next_of_allowed (h : c.Allowed s) : machine.next s c = c.apply s := if_pos h

theorem Inv.step (h : Inv s) (huniform : c.Uniform s) (hn : machine.next s c = some s') :
    Inv s' := by
  obtain ⟨hallowed, happly⟩ := machine_next hn
  cases c with
  | alloc size allocType prot mmap => exact h.of_frames (h.kept.alloc hallowed.mapsFree happly)
  | protect addr size newProt => exact h.protect hallowed huniform happly
  | decommit addr size => exact h.decommit huniform happly
  | release addr size => exact h.of_frames (h.release happly)

theorem Inv.step_not_uniform (h : Inv s) (hnot : ¬ c.Uniform s) (hn : machine.next s c = some s') :
    ¬ Truthful s' := by
  obtain ⟨hallowed, happly⟩ := machine_next hn
  cases c with
  | alloc size allocType prot mmap => exact absurd trivial hnot
  | protect addr size newProt => exact h.protect_not_uniform hallowed hnot happly
  | decommit addr size => exact h.decommit_not_uniform hnot happly
  | release addr size => exact absurd trivial hnot

theorem Kept.step (h : Kept s) (hn : anyCalls.next s c = some s') : Kept s' := by
  simp only [anyCalls] at hn
  split_ifs at hn with hfree
  have happly : c.apply s = some s' := hn
  cases c with
  | alloc size allocType prot mmap => exact h.of_frames (h.alloc hfree happly)
  | protect addr size newProt => exact h.protect happly
  | decommit addr size => exact h.decommit happly
  | release addr size => exact h.of_frames (h.release happly)

theorem allocations_kept (h : anyCalls.Reachable s) : Kept s :=
  h.invariant (fun _ hinit => (inv_init hinit).kept) fun _ _ _ hkept hn => hkept.step hn

theorem inv_of_uniform (h : machine.ReachableIf (fun s c => c.Uniform s) s) : Inv s :=
  h.invariant (fun _ => inv_init) fun _ _ _ hinv huniform hn => hinv.step huniform hn

/-- As long as every step leaves each allocation with one protection, the reports are true; and the
    first step that does not makes one of them false. -/
theorem query_truthful_iff_uniform (h : machine.ReachableIf (fun s c => c.Uniform s) s) :
    Truthful s ∧ ∀ c s', machine.next s c = some s' → (Truthful s' ↔ c.Uniform s) := by
  have hinv := inv_of_uniform h
  refine ⟨hinv.truthful, ?_⟩
  intro c s' hn
  constructor
  · intro htrue
    by_contra hnot
    exact hinv.step_not_uniform hnot hn htrue
  · intro huniform
    exact (hinv.step huniform hn).truthful

/-- Nothing is mapped and nothing is recorded. -/
def emptyState : State := ⟨⟨fun _ => none, []⟩, []⟩

/-- Two pages of read-write memory at 0x10000. -/
def allocTwoPages : Call := .alloc 0x2000 memCommit pageReadwrite (some 0x10)

def twoPagesState : State := ⟨⟨mapZero (fun _ => none) 0x10 2 .readWrite,
  [⟨0x10000, 0x2000, .readWrite⟩]⟩, [⟨0x10000, 0x2000⟩]⟩

theorem next_allocTwoPages : machine.next emptyState allocTwoPages = some twoPagesState := by
  have hallowed : allocTwoPages.Allowed emptyState :=
    ⟨by decide, by decide, fun _ _ => rfl⟩
  have hround : roundUp (0x2000 : BitVec 64).toNat pageSize = 0x2000 := by decide
  have hcount : 0x2000 / pageSize = 2 := by decide
  have hbase : 0x10 * pageSize = 0x10000 := by decide
  have hprot : winProtToLinux pageReadwrite = .readWrite := by decide
  rw [next_of_allowed hallowed]
  have hcall := @virtualAlloc_granted emptyState.process 0x2000 _ pageReadwrite 0x10 (by decide)
    (show memCommit &&& _ ≠ 0 by decide) (by decide)
  simp only [hround, hcount, hbase, hprot] at hcall
  simp only [allocTwoPages, Call.apply, hcall, Option.map_some, hround]
  rfl

theorem twoPagesState_reachable : machine.ReachableIf (fun s c => c.Uniform s) twoPagesState := by
  have huniform : allocTwoPages.Uniform emptyState := trivial
  exact .step (.start ⟨rfl, rfl⟩) huniform next_allocTwoPages

/-- Two allocations side by side. The protection of both and of what comes after is changed, which is
    refused half-way; then a range across the border is decommitted, and the second released twice. -/
def strayCalls : List Call :=
  [allocTwoPages, .alloc 0x1000 memCommit pageReadwrite (some 0x12),
    .protect 0x10000 0x5000 pageReadonly, .decommit 0x11000 0x2000, .release 0x12000 0,
    .release 0x12000 0]

theorem allocations_kept_strayCalls : ∃ s, anyCalls.exec emptyState strayCalls = some s ∧
    s.live = [⟨0x10000, 0x2000⟩] ∧ (s.process.space 0x10).map Page.prot = some ⟨true, false, false⟩ ∧
    (s.process.space 0x11).map Page.prot = some .noAccess ∧ Kept s := by
  have hruns : ((anyCalls.exec emptyState strayCalls).map fun s => (s.live,
      (s.process.space 0x10).map Page.prot, (s.process.space 0x11).map Page.prot)) =
        some ([⟨0x10000, 0x2000⟩], some ⟨true, false, false⟩, some .noAccess) := by decide
  obtain ⟨s, hs, hstate⟩ := Option.map_eq_some_iff.mp hruns
  obtain ⟨hlive, hpages⟩ := Prod.mk.inj hstate
  obtain ⟨hfirst, hsecond⟩ := Prod.mk.inj hpages
  exact ⟨s, hs, hlive, hfirst, hsecond, allocations_kept (Machine.reachable_of_exec ⟨rfl, rfl⟩ hs)⟩

theorem query_truthful_iff_uniform_twoPages :
    Truthful twoPagesState ∧ ∀ c s', machine.next twoPagesState c = some s' →
      (Truthful s' ↔ c.Uniform twoPagesState) :=
  query_truthful_iff_uniform twoPagesState_reachable

/-- The first of the two pages made read-only. -/
def protectFirstPage : Call := .protect 0x10000 0x1000 pageReadonly

/-- The second page can still be written, and is reported as read-only. -/
theorem protectFirstPage_not_truthful :
    ∃ s', machine.exec emptyState [allocTwoPages, protectFirstPage] = some s' ∧ ¬ Truthful s' := by
  have hinv := inv_of_uniform twoPagesState_reachable
  have hallowed : protectFirstPage.Allowed twoPagesState :=
    ⟨_, List.mem_cons_self, by decide, by decide⟩
  have hcall := @virtualProtect_inside _ hinv 0x10000 0x1000 pageReadonly _
    List.mem_cons_self (by decide) (by decide) (by decide) (by decide)
  have hnext := next_of_allowed hallowed
  simp only [protectFirstPage, Call.apply, hcall, Option.map_some] at hnext
  refine ⟨_, ?_, hinv.step_not_uniform ?_ hnext⟩
  · simp only [Machine.exec, next_allocTwoPages, Option.bind_some]
    unfold protectFirstPage
    rw [hnext]
    rfl
  · intro huniform
    have huni := ((huniform.resolve_left (by decide)).resolve_left (by decide)) _
      List.mem_cons_self (by decide) (by decide)
    exact huni.elim (by decide) fun hwhole => absurd hwhole.2 (by decide)

end WinCompat.Memory
