import WinCompat.Lib.Machine
import WinCompat.Lib.Search
import WinCompat.Seh.Unwind

/-!
# The exception table

The `EXC_TABLE` half of `pe-loader/src/seh.rs`, with the places that feed it and read it:
`load_bytes`, the two proxies of `lib.rs`, and the slots of `win32-kernel32/src/dllload.rs` that
the proxies are registered in.

There is one table. `load_bytes` installs the one of the image it loads, when that image declares a
usable exception directory; `load_dll_ex` installs none. A run is any order of loads and unloads:
an image loaded by `load_bytes` is never unmapped, neither by a later failure of the load nor when
its `PeImage` is dropped (`MappedImage` has no `Drop`), a DLL is, by `free_library` or when its own
load fails. Where the kernel maps an image is the run's choice, as long as nothing is there.

`unwinds_installed` says what the two bridges then do, over whole runs: everything the table says is
about the image whose installation was the last one, which is still mapped.
-/

namespace WinCompat.Seh

open Lib Lib.Bytes

/-! ## Images and their function tables -/

/-- An image in memory, as its load leaves it: relocated, its sections copied. -/
structure Image where
  base : Nat
  size : Nat
  /-- By RVA. -/
  content : Nat → Byte
  /-- Address and size of `DataDirectory[3]`. -/
  exceptionTable : Option (Nat × Nat)
  base_pos : 0 < base
  size_pos : 0 < size
  base_add_size : base + size ≤ 2 ^ 64
  /-- `SizeOfImage` is a `u32`, rounded up to a page. -/
  size_le : size ≤ 2 ^ 32

namespace Image

def Contains (im : Image) (a : Nat) : Prop := im.base ≤ a ∧ a < im.base + im.size

instance (im : Image) : DecidablePred im.Contains := fun _ => inferInstanceAs (Decidable (_ ∧ _))

def Apart (im im' : Image) : Prop :=
  im.base + im.size ≤ im'.base ∨ im'.base + im'.size ≤ im.base

instance (im im' : Image) : Decidable (im.Apart im') := inferInstanceAs (Decidable (_ ∨ _))

theorem Apart.symm {im im' : Image} (h : im.Apart im') : im'.Apart im := Or.symm h

/-- Where the `RUNTIME_FUNCTION` array starts and how many entries it has, if `load_bytes` takes
    it. -/
def pdata (im : Image) : Option (Nat × Nat) :=
  im.exceptionTable.bind fun dir =>
    if 0 < dir.1 ∧ 12 ≤ dir.2 ∧ dir.1 + dir.2 ≤ im.size then some (dir.1, dir.2 / 12) else none

/-- The `i`-th entry of an array at `rva`. -/
def function (im : Image) (rva i : Nat) : RuntimeFunction :=
  ⟨u32At im.content (rva + i * 12), u32At im.content (rva + i * 12 + 4),
    u32At im.content (rva + i * 12 + 8)⟩

/-- `pc` is in the function of that entry. -/
def Covers (im : Image) (rva i pc : Nat) : Prop :=
  im.base + (im.function rva i).beginAddress.toNat ≤ pc ∧
    pc < im.base + (im.function rva i).endAddress.toNat

instance (im : Image) (rva i pc : Nat) : Decidable (im.Covers rva i pc) :=
  inferInstanceAs (Decidable (_ ∧ _))

/-- What a linker writes: the functions lie in the image, in the order of their addresses, and do
    not overlap. -/
structure Sorted (im : Image) (rva count : Nat) : Prop where
  inside : ∀ i < count, (im.function rva i).endAddress.toNat ≤ im.size
  ordered : ∀ j < count, ∀ i < j,
    (im.function rva i).endAddress.toNat ≤ (im.function rva j).beginAddress.toNat
  /-- A function has a first byte. -/
  nonempty : ∀ i < count,
    (im.function rva i).beginAddress.toNat < (im.function rva i).endAddress.toNat

theorem pdata_bounds {im : Image} {rva count : Nat} (h : im.pdata = some (rva, count)) :
    0 < rva ∧ 0 < count ∧ rva + count * 12 ≤ im.size := by
  obtain ⟨dir, _, hdir⟩ := Option.bind_eq_some_iff.mp h
  split at hdir
  · case isTrue hok =>
    obtain ⟨rfl, rfl⟩ := Prod.mk.injEq .. ▸ Option.some.inj hdir
    have := Nat.div_mul_le_self dir.2 12
    refine ⟨hok.1, Nat.div_pos hok.2.1 (by simp), by omega⟩
  · cases hdir

end Image

/-! ## The process -/

/-- `ExceptionTable`. -/
structure ExceptionTable where
  base : Nat
  count : Nat
  imageBase : Nat
  imageSize : Nat
  deriving DecidableEq

structure Process where
  /-- What `load_bytes` mapped, newest first. -/
  images : List Image
  /-- What `load_dll_ex` mapped and nothing has unmapped. -/
  dlls : List Image
  /-- `EXC_TABLE`. -/
  table : Option ExceptionTable
  /-- `LOOKUP_FN_ENTRY_FN` and `VIRTUAL_UNWIND_FN` hold the proxies. -/
  registered : Bool

namespace Process

def new : Process := ⟨[], [], none, false⟩

def mapped (s : Process) : List Image := s.images ++ s.dlls

/-- The byte mapped at `a`. -/
def byteAt (s : Process) (a : Nat) : Option Byte :=
  (s.mapped.find? fun im => im.Contains a).map fun im => im.content (a - im.base)

/-- The mapped bytes, for a reader that stays inside the images. -/
def bytes (s : Process) (a : Nat) : Byte := (s.byteAt a).getD 0

/-- A `u32` in memory; `none` is a fault. -/
def load32 (s : Process) (a : Nat) : Option (BitVec 32) := do
  let b₀ ← s.byteAt a
  let b₁ ← s.byteAt (a + 1)
  let b₂ ← s.byteAt (a + 2)
  let b₃ ← s.byteAt (a + 3)
  return (b₃ ++ b₂) ++ (b₁ ++ b₀)

/-- The `RuntimeFunction` a pointer is to. -/
def entryAt (s : Process) (a : Nat) : Option RuntimeFunction := do
  let beginAddress ← s.load32 a
  let endAddress ← s.load32 (a + 4)
  let unwindData ← s.load32 (a + 8)
  return ⟨beginAddress, endAddress, unwindData⟩

/-- `lookup_function_entry`: the outer option is `none` when a read faults, the inner one is the
    pointer returned. -/
def lookupFunctionEntry (s : Process) (pc : Word) : Option (Option Nat) :=
  match s.table with
  | none => some none
  | some tbl =>
      if tbl.count = 0 ∨ tbl.base = 0 then some none
      else if pc.toNat < tbl.imageBase ∨ tbl.imageBase + tbl.imageSize ≤ pc.toNat then some none
      else
        let rva := (pc.toNat - tbl.imageBase) % 2 ^ 32
        let test := fun mid =>
          (s.entryAt (tbl.base + mid * 12)).map fun entry => decide (entry.beginAddress.toNat ≤ rva)
        (Search.partitionPoint test 0 tbl.count).bind fun lo =>
          if lo = 0 then some none
          else
            (s.entryAt (tbl.base + (lo - 1) * 12)).map fun entry =>
              if rva < entry.endAddress.toNat then some (tbl.base + (lo - 1) * 12) else none

/-- `get_image_base`. -/
def getImageBase (s : Process) : Option Nat := s.table.map ExceptionTable.imageBase

/-- `virtual_unwind_proxy`: the image base comes from the table. -/
def virtualUnwindProxy (s : Process) (stack : Mem) (functionEntry : Option Nat) (ctx : Context) :
    Option Unwound :=
  match functionEntry with
  | none => some (virtualUnwind s.bytes stack none (s.getImageBase.getD 0) ctx)
  | some a => (s.entryAt a).map fun rf =>
      virtualUnwind s.bytes stack (some rf) (s.getImageBase.getD 0) ctx

/-- `call_lookup_function_entry`. -/
def callLookupFunctionEntry (s : Process) (pc : Word) : Option (Option Nat) :=
  if s.registered then s.lookupFunctionEntry pc else some none

/-- `call_virtual_unwind`. -/
def callVirtualUnwind (s : Process) (stack : Mem) (functionEntry : Option Nat) (ctx : Context) :
    Option Unwound :=
  if s.registered then s.virtualUnwindProxy stack functionEntry ctx else some ⟨0, ctx, none⟩

/-- Nothing is mapped where `im` is to go. -/
def Free (s : Process) (im : Image) : Prop := ∀ im' ∈ s.mapped, im'.Apart im

instance (s : Process) (im : Image) : Decidable (s.Free im) :=
  inferInstanceAs (Decidable (∀ _ ∈ _, _))

/-- The exception-table part of `load_bytes`. -/
def installTable (s : Process) (im : Image) : Process :=
  match im.pdata with
  | none => s
  | some (rva, count) =>
      { s with table := some ⟨im.base + rva, count, im.base, im.size⟩, registered := true }

end Process

inductive Action
  /-- A `load_bytes` that maps `im`. It may fail before it comes to the exception directory, and
      after. -/
  | loadBytes (im : Image) (comesToTable : Bool)
  /-- `load_dll_ex` maps a DLL. -/
  | mapDll (im : Image)
  /-- `free_library`, or a `load_dll_ex` that gives up. -/
  | unmapDll (base : Nat)
  | dropPeImage

namespace Process

def next (s : Process) : Action → Option Process
  | .loadBytes im comesToTable =>
      if s.Free im then
        let s := { s with images := im :: s.images }
        some (if comesToTable then s.installTable im else s)
      else none
  | .mapDll im => if s.Free im then some { s with dlls := im :: s.dlls } else none
  | .unmapDll base => some { s with dlls := s.dlls.filter fun im => im.base ≠ base }
  | .dropPeImage => some s

end Process

/-- The loader, under any order of loads and unloads. -/
def imageLoader : Machine Process Action where
  init s := s = Process.new
  next := Process.next

/-- The image whose table this action installs. -/
def Action.installs : Action → Option Image
  | .loadBytes im true => if im.pdata.isSome then some im else none
  | _ => none

/-- The image whose table was installed last, in a run that begins with `before`'s. -/
def installed (before : Option Image) (acts : List Action) : Option Image :=
  acts.foldl (fun im a => a.installs <|> im) before

/-! ## What the bridges answer -/

/-- The bridges know `im`, whose array has `count` entries at `rva`, and nothing else. -/
structure Process.Unwinds (s : Process) (im : Image) (rva count : Nat) : Prop where
  /-- `im` is mapped. -/
  mapped : ∀ r < im.size, s.byteAt (im.base + r) = some (im.content r)
  /-- In a function of a table as linkers write them, its entry is found. -/
  lookup : im.Sorted rva count → ∀ i < count, ∀ pc : Word, im.Covers rva i pc.toNat →
    s.callLookupFunctionEntry pc = some (some (im.base + rva + i * 12))
  /-- Whatever the order of the table, no lookup reads what is not mapped. -/
  lookup_reads : ∀ pc : Word, (s.callLookupFunctionEntry pc).isSome
  /-- Outside the image and in no function of it there is no entry. -/
  lookup_null : ∀ pc : Word, (¬ im.Contains pc.toNat ∨ ∀ i < count, ¬ im.Covers rva i pc.toNat) →
    s.callLookupFunctionEntry pc = some none
  /-- The unwinder reads the entry, and its unwind information relative to `im`'s base. -/
  unwind : ∀ i < count, ∀ stack ctx,
    s.callVirtualUnwind stack (some (im.base + rva + i * 12)) ctx =
      some (virtualUnwind s.bytes stack (some (im.function rva i)) im.base ctx)

/-- The bridges know no image. -/
structure Process.KnowsNone (s : Process) : Prop where
  lookup : ∀ pc, s.callLookupFunctionEntry pc = some none
  unwind : ∀ stack functionEntry ctx,
    s.callVirtualUnwind stack functionEntry ctx = some ⟨0, ctx, none⟩

def Process.UnwindsOnly (s : Process) : Option Image → Prop
  | none => s.KnowsNone
  | some im => ∃ rva count, im.pdata = some (rva, count) ∧ s.Unwinds im rva count

/-! ## Reading a mapped image -/

theorem find?_of_apart {im : Image} {a : Nat} (ha : im.Contains a) :
    ∀ {l : List Image}, l.Pairwise Image.Apart → im ∈ l →
      l.find? (fun im' => im'.Contains a) = some im := by
  intro l
  induction l with
  | nil => intro _ h; cases h
  | cons im' rest ih =>
    intro hl h
    obtain ⟨hhead, hrest⟩ := List.pairwise_cons.mp hl
    obtain rfl | h := List.mem_cons.mp h
    · exact List.find?_cons_of_pos (decide_eq_true ha)
    · have hnot : ¬ im'.Contains a := by
        have := hhead im h
        unfold Image.Apart at this
        unfold Image.Contains at ha ⊢
        omega
      rw [List.find?_cons_of_neg (by simpa using hnot)]
      exact ih hrest h

section

variable {s : Process} {im : Image}
  (hmapped : ∀ r < im.size, s.byteAt (im.base + r) = some (im.content r))

include hmapped

theorem load32_mapped {r : Nat} (h : r + 4 ≤ im.size) :
    s.load32 (im.base + r) = some (u32At im.content r) := by
  have hbyte : ∀ j < 4, s.byteAt (im.base + r + j) = some (im.content (r + j)) := by
    intro j hj
    rw [Nat.add_assoc]
    exact hmapped _ (by omega)
  have h₀ := hbyte 0 (by omega)
  simp only [Nat.add_zero] at h₀
  simp only [Process.load32, h₀, hbyte 1 (by omega), hbyte 2 (by omega), hbyte 3 (by omega)]
  rfl

theorem entryAt_mapped {rva i : Nat} (h : rva + i * 12 + 12 ≤ im.size) :
    s.entryAt (im.base + rva + i * 12) = some (im.function rva i) := by
  have hload : ∀ j, j + 4 ≤ 12 →
      s.load32 (im.base + rva + i * 12 + j) = some (u32At im.content (rva + i * 12 + j)) := by
    intro j hj
    simp only [Nat.add_assoc]
    exact load32_mapped hmapped (by omega)
  have h₀ := hload 0 (by omega)
  simp only [Nat.add_zero] at h₀
  simp only [Process.entryAt, h₀, hload 4 (by omega), hload 8 (by omega)]
  rfl

end

/-! ## The lookup -/

/-- `pc` is in the function of this entry. -/
def RuntimeFunction.Covers (e : RuntimeFunction) (imageBase pc : Nat) : Prop :=
  imageBase + e.beginAddress.toNat ≤ pc ∧ pc < imageBase + e.endAddress.toNat

namespace ExceptionTable

def Inside (tbl : ExceptionTable) (pc : Nat) : Prop :=
  tbl.imageBase ≤ pc ∧ pc < tbl.imageBase + tbl.imageSize

/-- What `lookup_function_entry` does with a table whose array is read by `entry`. -/
def find (tbl : ExceptionTable) (entry : Nat → Option RuntimeFunction) (pc : Word) :
    Option (Option Nat) :=
  if tbl.count = 0 ∨ tbl.base = 0 then some none
  else if pc.toNat < tbl.imageBase ∨ tbl.imageBase + tbl.imageSize ≤ pc.toNat then some none
  else
    let rva := (pc.toNat - tbl.imageBase) % 2 ^ 32
    let test := fun mid => (entry mid).map fun e => decide (e.beginAddress.toNat ≤ rva)
    (Search.partitionPoint test 0 tbl.count).bind fun lo =>
      if lo = 0 then some none
      else
        (entry (lo - 1)).map fun e =>
          if rva < e.endAddress.toNat then some (tbl.base + (lo - 1) * 12) else none

end ExceptionTable

theorem lookupFunctionEntry_eq_find {s : Process} {tbl : ExceptionTable}
    (htable : s.table = some tbl) (pc : Word) :
    s.lookupFunctionEntry pc = tbl.find (fun i => s.entryAt (tbl.base + i * 12)) pc := by
  rw [Process.lookupFunctionEntry, htable]
  rfl

section

variable {tbl : ExceptionTable} {entry : Nat → Option RuntimeFunction} {pc : Word}

theorem find_outside (hpc : ¬ tbl.Inside pc.toNat) : tbl.find entry pc = some none := by
  unfold ExceptionTable.Inside at hpc
  unfold ExceptionTable.find
  split
  · rfl
  · rw [if_pos (by omega)]

variable (hsize : tbl.imageSize ≤ 2 ^ 32)

include hsize

theorem find_eq (hin : tbl.Inside pc.toNat) (hbase : tbl.base ≠ 0) (hcount : tbl.count ≠ 0) :
    tbl.find entry pc =
      (Search.partitionPoint (fun mid => (entry mid).map fun e =>
        decide (tbl.imageBase + e.beginAddress.toNat ≤ pc.toNat)) 0 tbl.count).bind fun lo =>
          if lo = 0 then some none
          else (entry (lo - 1)).map fun e =>
            if pc.toNat < tbl.imageBase + e.endAddress.toNat then
              some (tbl.base + (lo - 1) * 12) else none := by
  unfold ExceptionTable.Inside at hin
  have hmod : (pc.toNat - tbl.imageBase) % 2 ^ 32 = pc.toNat - tbl.imageBase :=
    Nat.mod_eq_of_lt (by omega)
  have hend : ∀ e : Nat, pc.toNat - tbl.imageBase < e ↔ pc.toNat < tbl.imageBase + e := by omega
  have hbegin : ∀ b : Nat, b ≤ pc.toNat - tbl.imageBase ↔ tbl.imageBase + b ≤ pc.toNat := by
    omega
  unfold ExceptionTable.find
  simp only [hmod, hend, hbegin]
  rw [if_neg (by omega), if_neg (by omega)]

variable {entries : Nat → RuntimeFunction} (hread : ∀ i < tbl.count, entry i = some (entries i))

include hread

theorem find_covered {i : Nat} (hbase : tbl.base ≠ 0)
    (hordered : ∀ j < tbl.count, ∀ i < j,
      (entries i).endAddress.toNat ≤ (entries j).beginAddress.toNat)
    (hnonempty : ∀ i < tbl.count,
      (entries i).beginAddress.toNat < (entries i).endAddress.toNat)
    (hi : i < tbl.count) (hpc : (entries i).Covers tbl.imageBase pc.toNat)
    (hin : tbl.Inside pc.toNat) :
    tbl.find entry pc = some (some (tbl.base + i * 12)) := by
  obtain ⟨hbegin, hend⟩ := hpc
  -- the entries that begin at or below `pc` are those up to the `i`-th
  have hsearch : Search.partitionPoint (fun mid => (entry mid).map fun e =>
      decide (tbl.imageBase + e.beginAddress.toNat ≤ pc.toNat)) 0 tbl.count = some (i + 1) := by
    apply Search.partitionPoint_eq _ (Nat.zero_le _) hi
    intro j _ hj
    rw [hread j hj, Option.map_some]
    congr 2
    rw [eq_iff_iff]
    obtain hlt | rfl | hlt := Nat.lt_trichotomy j i
    · have := hordered i hi j hlt
      have := hnonempty j hj
      omega
    · exact iff_of_true hbegin (Nat.lt_succ_self j)
    · have := hordered j hj i hlt
      omega
  rw [find_eq hsize hin hbase (by omega), hsearch, Option.bind_some, if_neg (Nat.succ_ne_zero i),
    Nat.add_sub_cancel, hread i hi, Option.map_some, if_pos hend]

omit hsize in
theorem probe_isSome (j : Nat) (_ : 0 ≤ j) (hj : j < tbl.count) :
    ((entry j).map fun e => decide (tbl.imageBase + e.beginAddress.toNat ≤ pc.toNat)).isSome := by
  rw [hread j hj]
  rfl

theorem find_isSome : (tbl.find entry pc).isSome := by
  by_cases hin : tbl.Inside pc.toNat
  · by_cases hnull : tbl.count = 0 ∨ tbl.base = 0
    · rw [show tbl.find entry pc = some none from if_pos hnull]
      rfl
    · obtain ⟨hcount, hbase⟩ := not_or.mp hnull
      obtain ⟨k, hk, _, hkc, _⟩ := Search.partitionPoint_cases (probe_isSome hread) (Nat.zero_le _)
      rw [find_eq hsize hin hbase hcount, hk, Option.bind_some]
      split
      · rfl
      · rw [hread _ (by omega)]
        rfl
  · rw [find_outside hin]
    rfl

theorem find_uncovered (hpc : ∀ i < tbl.count, ¬ (entries i).Covers tbl.imageBase pc.toNat) :
    tbl.find entry pc = some none := by
  by_cases hin : tbl.Inside pc.toNat
  · by_cases hnull : tbl.count = 0 ∨ tbl.base = 0
    · exact if_pos hnull
    · obtain ⟨hcount, hbase⟩ := not_or.mp hnull
      rw [find_eq hsize hin hbase hcount]
      obtain ⟨k, hk, _, hkc, hbelow⟩ :=
        Search.partitionPoint_cases (probe_isSome hread) (Nat.zero_le _)
      rw [hk, Option.bind_some]
      split
      · rfl
      · next hne =>
        obtain rfl | hbelow := hbelow
        · exact absurd rfl hne
        · -- the entry just below the end of the search begins at or below `pc`
          rw [hread _ (by omega), Option.map_some, Option.some.injEq, decide_eq_true_eq] at hbelow
          rw [hread _ (by omega), Option.map_some, if_neg]
          intro hend
          exact hpc _ (by omega) ⟨hbelow, hend⟩
  · exact find_outside hin

end

section

variable {s : Process} {im : Image} {rva count : Nat}
  (htable : s.table = some ⟨im.base + rva, count, im.base, im.size⟩)

include htable

theorem lookup_outside {pc : Word} (hpc : ¬ im.Contains pc.toNat) :
    s.lookupFunctionEntry pc = some none := by
  rw [lookupFunctionEntry_eq_find htable]
  exact find_outside hpc

variable (hpdata : im.pdata = some (rva, count))
  (hmapped : ∀ r < im.size, s.byteAt (im.base + r) = some (im.content r))

include hpdata hmapped

theorem lookup_covered {i : Nat} {pc : Word} (hsorted : im.Sorted rva count) (hi : i < count)
    (hpc : im.Covers rva i pc.toNat) :
    s.lookupFunctionEntry pc = some (some (im.base + rva + i * 12)) := by
  obtain ⟨hrva, _, hbound⟩ := Image.pdata_bounds hpdata
  rw [lookupFunctionEntry_eq_find htable]
  refine @find_covered _ _ pc im.size_le (im.function rva)
    (fun j hj => entryAt_mapped hmapped (by dsimp only at hj; omega)) i (by dsimp only; omega)
    hsorted.ordered hsorted.nonempty hi hpc ?_
  have := hsorted.inside i hi
  unfold Image.Covers at hpc
  unfold ExceptionTable.Inside
  dsimp only
  omega

theorem lookup_isSome (pc : Word) : (s.lookupFunctionEntry pc).isSome := by
  obtain ⟨_, _, hbound⟩ := Image.pdata_bounds hpdata
  rw [lookupFunctionEntry_eq_find htable]
  exact @find_isSome _ _ pc im.size_le (im.function rva)
    (fun j hj => entryAt_mapped hmapped (by dsimp only at hj; omega))

theorem lookup_uncovered {pc : Word} (hpc : ∀ i < count, ¬ im.Covers rva i pc.toNat) :
    s.lookupFunctionEntry pc = some none := by
  obtain ⟨_, _, hbound⟩ := Image.pdata_bounds hpdata
  rw [lookupFunctionEntry_eq_find htable]
  exact @find_uncovered _ _ pc im.size_le (im.function rva)
    (fun j hj => entryAt_mapped hmapped (by dsimp only at hj; omega)) hpc

end

/-! ## Runs -/

/-- `table` is the one of `im`. -/
def Process.Names (s : Process) (im : Image) : Prop :=
  ∃ rva count, im.pdata = some (rva, count) ∧
    s.table = some ⟨im.base + rva, count, im.base, im.size⟩

/-- The last image that was registered is the one that the unwinder knows. -/
structure Process.Inv (s : Process) (last : Option Image) : Prop where
  apart : s.mapped.Pairwise Image.Apart
  names : ∀ im, last = some im → im ∈ s.images ∧ s.registered = true ∧ s.Names im
  unnamed : last = none → s.registered = false

namespace Process.Inv

variable {s : Process} {last : Option Image}

theorem byteAt (h : s.Inv last) {im : Image} (hlast : last = some im) {r : Nat}
    (hr : r < im.size) : s.byteAt (im.base + r) = some (im.content r) := by
  have hmem : im ∈ s.mapped := List.mem_append_left _ (h.names im hlast).1
  have hin : im.Contains (im.base + r) := ⟨Nat.le_add_right _ _, by omega⟩
  rw [Process.byteAt, find?_of_apart hin h.apart hmem, Option.map_some, Nat.add_sub_cancel_left]

theorem unwindsOnly (h : s.Inv last) : s.UnwindsOnly last := by
  cases last with
  | none =>
    have hbridge := h.unnamed rfl
    refine ⟨fun pc => ?_, fun stack functionEntry ctx => ?_⟩
    · rw [callLookupFunctionEntry, hbridge]
      rfl
    · rw [callVirtualUnwind, hbridge]
      rfl
  | some im =>
    obtain ⟨_, hbridge, rva, count, hpdata, htable⟩ := h.names im rfl
    obtain ⟨_, _, hbound⟩ := Image.pdata_bounds hpdata
    have hmapped : ∀ r < im.size, s.byteAt (im.base + r) = some (im.content r) :=
      fun r hr => h.byteAt rfl hr
    refine ⟨rva, count, hpdata, hmapped, ?_, ?_, ?_, ?_⟩
    · intro hsorted i hi pc hpc
      rw [callLookupFunctionEntry, if_pos hbridge]
      exact lookup_covered htable hpdata hmapped hsorted hi hpc
    · intro pc
      rw [callLookupFunctionEntry, if_pos hbridge]
      exact lookup_isSome htable hpdata hmapped pc
    · intro pc hpc
      rw [callLookupFunctionEntry, if_pos hbridge]
      obtain hpc | hpc := hpc
      · exact lookup_outside htable hpc
      · exact lookup_uncovered htable hpdata hmapped hpc
    · intro i hi stack ctx
      rw [callVirtualUnwind, if_pos hbridge, virtualUnwindProxy,
        entryAt_mapped hmapped (by omega), getImageBase, htable]
      rfl

/-! What is mapped next, and what goes. -/

theorem mapImage (h : s.Inv last) {im : Image} (hfree : s.Free im) :
    Process.Inv { s with images := im :: s.images } last where
  apart := List.pairwise_cons.mpr ⟨fun im' hmem => (hfree im' hmem).symm, h.apart⟩
  names im' hlast := ⟨List.mem_cons_of_mem _ (h.names im' hlast).1, (h.names im' hlast).2⟩
  unnamed := h.unnamed

theorem installTable (h : s.Inv last) {im : Image} (hmem : im ∈ s.images) :
    (s.installTable im).Inv ((if im.pdata.isSome then some im else none) <|> last) := by
  unfold Process.installTable
  cases hpdata : im.pdata with
  | none => exact h
  | some p =>
    refine ⟨h.apart, ?_, nofun⟩
    intro im' him'
    obtain rfl := Option.some.inj him'
    exact ⟨hmem, rfl, p.1, p.2, hpdata, rfl⟩

theorem mapDll (h : s.Inv last) {im : Image} (hfree : s.Free im) :
    Process.Inv { s with dlls := im :: s.dlls } last where
  apart := by
    have hcons : (im :: s.mapped).Pairwise Image.Apart :=
      List.pairwise_cons.mpr ⟨fun im' hmem => (hfree im' hmem).symm, h.apart⟩
    exact hcons.perm List.perm_middle.symm fun hxy => hxy.symm
  names := h.names
  unnamed := h.unnamed

theorem unmapDll (h : s.Inv last) (base : Nat) :
    Process.Inv { s with dlls := s.dlls.filter fun im => im.base ≠ base } last where
  apart := h.apart.sublist (List.Sublist.append_left List.filter_sublist _)
  names := h.names
  unnamed := h.unnamed

theorem step (h : s.Inv last) {a : Action} {s' : Process} (hn : s.next a = some s') :
    s'.Inv (a.installs <|> last) := by
  cases a with
  | loadBytes im comesToTable =>
    obtain ⟨hfree, hs⟩ := Option.ite_none_right_eq_some.mp hn
    obtain rfl := Option.some.inj hs
    cases comesToTable with
    | false => exact h.mapImage hfree
    | true => exact (h.mapImage hfree).installTable List.mem_cons_self
  | mapDll im =>
    obtain ⟨hfree, hs⟩ := Option.ite_none_right_eq_some.mp hn
    obtain rfl := Option.some.inj hs
    exact h.mapDll hfree
  | unmapDll base =>
    obtain rfl := Option.some.inj hn
    exact h.unmapDll base
  | dropPeImage =>
    obtain rfl := Option.some.inj hn
    exact h

theorem exec {acts : List Action} : ∀ {s : Process} {last : Option Image}, s.Inv last →
    ∀ {s' : Process}, imageLoader.exec s acts = some s' → s'.Inv (installed last acts) := by
  induction acts with
  | nil =>
    intro s last h s' hs'
    obtain rfl := Option.some.inj hs'
    exact h
  | cons a rest ih =>
    intro s last h s' hs'
    obtain ⟨s₁, hn, hrest⟩ := Option.bind_eq_some_iff.mp hs'
    exact ih (h.step hn) hrest

end Process.Inv

theorem inv_new : Process.new.Inv none where
  apart := .nil
  names := nofun
  unnamed _ := rfl

/-- **In every run, the bridges answer for the image whose exception table was installed last**, and
    for no other: it is still mapped, its functions are found and unwound relative to its own base,
    everywhere else the lookup returns NULL, and no lookup reads unmapped memory. -/
theorem unwinds_installed {acts : List Action} {s : Process}
    (h : imageLoader.exec Process.new acts = some s) : s.UnwindsOnly (installed none acts) :=
  (inv_new.exec h).unwindsOnly

/-- Two pages with one function, `[0x1000, 0x1010)`, and its entry at 0x10. -/
def smallContent (r : Nat) : Byte := if r = 17 ∨ r = 20 ∨ r = 21 then 0x10 else 0

theorem smallImage_size : 8192 ≤ 2 ^ 32 := by decide

def smallImage (base : Nat) (hpos : 0 < base) (hle : base + 8192 ≤ 2 ^ 64) : Image where
  base := base
  size := 8192
  content := smallContent
  exceptionTable := some (16, 12)
  base_pos := hpos
  size_pos := by decide
  base_add_size := hle
  size_le := smallImage_size

theorem smallImage_sorted (base : Nat) (hpos : 0 < base) (hle : base + 8192 ≤ 2 ^ 64) :
    (smallImage base hpos hle).Sorted 16 1 where
  inside i hi := by
    obtain rfl := Nat.lt_one_iff.mp hi
    exact (by decide : (u32At smallContent 20).toNat ≤ 8192)
  ordered j hj i hi := by
    obtain rfl := Nat.lt_one_iff.mp hj
    exact absurd hi (Nat.not_lt_zero i)
  nonempty i hi := by
    obtain rfl := Nat.lt_one_iff.mp hi
    exact (by decide : (u32At smallContent 16).toNat < (u32At smallContent 20).toNat)

def mainImage : Image := smallImage 0x140000000 (by decide) (by decide)

def otherImage : Image := smallImage 0x7f0000000000 (by decide) (by decide)

theorem unwinds_installed_twoImages :
    Process.UnwindsOnly ⟨[mainImage], [], some ⟨0x140000010, 1, 0x140000000, 8192⟩, true⟩
      (some mainImage) :=
  @unwinds_installed [.loadBytes mainImage true, .mapDll otherImage, .dropPeImage,
    .unmapDll 0x7f0000000000] _ rfl

/-- A function of a loaded DLL has no entry; nor has one of the first of two images loaded by
    `load_bytes`. -/
theorem images_not_unwound :
    (∃ s, imageLoader.exec .new [.loadBytes mainImage true, .mapDll otherImage] = some s ∧
      otherImage ∈ s.mapped ∧ otherImage.pdata = some (16, 1) ∧ otherImage.Sorted 16 1 ∧
      otherImage.Covers 16 0 0x7f0000001000 ∧
      s.callLookupFunctionEntry 0x7f0000001000 = some none) ∧
    (∃ s, imageLoader.exec .new [.loadBytes mainImage true, .loadBytes otherImage true] = some s ∧
      mainImage ∈ s.mapped ∧ mainImage.pdata = some (16, 1) ∧ mainImage.Sorted 16 1 ∧
      mainImage.Covers 16 0 0x140001000 ∧ s.callLookupFunctionEntry 0x140001000 = some none) := by
  have hmain : ¬ mainImage.Contains (0x7f0000001000 : Word).toNat := by decide
  have hother : ¬ otherImage.Contains (0x140001000 : Word).toNat := by decide
  refine ⟨⟨_, rfl, List.mem_cons_of_mem _ List.mem_cons_self, rfl, smallImage_sorted ..,
    by decide, ?_⟩, ⟨_, rfl, List.mem_cons_of_mem _ List.mem_cons_self, rfl, smallImage_sorted ..,
    by decide, ?_⟩⟩
  · exact lookup_outside (s := ⟨[mainImage], [otherImage], some ⟨mainImage.base + 16, 1,
      mainImage.base, mainImage.size⟩, true⟩) rfl hmain
  · exact lookup_outside (s := ⟨[otherImage, mainImage], [], some ⟨otherImage.base + 16, 1,
      otherImage.base, otherImage.size⟩, true⟩) rfl hother

/-! ## Any table -/

namespace ExceptionTable

/-- The array alone: a read past its end faults. -/
def array (tbl : ExceptionTable) (entries : Nat → RuntimeFunction) (i : Nat) :
    Option RuntimeFunction :=
  if i < tbl.count then some (entries i) else none

/-- The functions are sorted by their first address, none is empty and no two overlap; and the image
    is one that can be mapped. -/
structure Linked (tbl : ExceptionTable) (entries : Nat → RuntimeFunction) : Prop where
  base_ne : tbl.base ≠ 0
  size_le : tbl.imageSize ≤ 2 ^ 32
  base_add_size : tbl.imageBase + tbl.imageSize ≤ 2 ^ 64
  sorted : ∀ j < tbl.count, ∀ i < j, (entries i).beginAddress ≤ (entries j).beginAddress
  nonempty : ∀ i < tbl.count, (entries i).beginAddress < (entries i).endAddress
  apart : ∀ j < tbl.count, ∀ i < j, ∀ pc,
    (entries i).Covers tbl.imageBase pc → ¬ (entries j).Covers tbl.imageBase pc

theorem Linked.ordered {tbl : ExceptionTable} {entries : Nat → RuntimeFunction}
    (h : tbl.Linked entries) {i j : Nat} (hj : j < tbl.count) (hij : i < j) :
    (entries i).endAddress.toNat ≤ (entries j).beginAddress.toNat := by
  have hsorted := BitVec.le_def.mp (h.sorted j hj i hij)
  have hnonempty := BitVec.lt_def.mp (h.nonempty j hj)
  by_contra hlt
  refine h.apart j hj i hij (tbl.imageBase + (entries j).beginAddress.toNat) ?_ ?_
  · exact ⟨by omega, by omega⟩
  · exact ⟨Nat.le_refl _, by omega⟩

theorem Linked.unique {tbl : ExceptionTable} {entries : Nat → RuntimeFunction}
    (h : tbl.Linked entries) {i j pc : Nat} (hi : i < tbl.count) (hj : j < tbl.count)
    (hpc : (entries i).Covers tbl.imageBase pc) (hpc' : (entries j).Covers tbl.imageBase pc) :
    i = j := by
  obtain hlt | heq | hlt := Nat.lt_trichotomy i j
  · exact absurd hpc' (h.apart j hj i hlt pc hpc)
  · exact heq
  · exact absurd hpc (h.apart i hi j hlt pc hpc')

end ExceptionTable

/-- **The lookup is exact**: an answer comes without a read past the end of the array, and it is the
    one entry whose function `pc` is in, if `pc` is in the image. -/
theorem lookupFunctionEntry_exact {s : Process} {tbl : ExceptionTable}
    {entries : Nat → RuntimeFunction} (htable : s.table = some tbl) (hlinked : tbl.Linked entries)
    (hread : ∀ i < tbl.count, s.entryAt (tbl.base + i * 12) = some (entries i)) (pc : Word) :
    ∃ found, s.lookupFunctionEntry pc = some found ∧
      tbl.find (tbl.array entries) pc = some found ∧
      (∀ p, found = some p ↔ tbl.Inside pc.toNat ∧
        ∃ i < tbl.count, (entries i).Covers tbl.imageBase pc.toNat ∧ p = tbl.base + i * 12) ∧
      ∀ i < tbl.count, ∀ j < tbl.count, (entries i).Covers tbl.imageBase pc.toNat →
        (entries j).Covers tbl.imageBase pc.toNat → i = j := by
  have hunique : ∀ i < tbl.count, ∀ j < tbl.count, (entries i).Covers tbl.imageBase pc.toNat →
      (entries j).Covers tbl.imageBase pc.toNat → i = j :=
    fun i hi j hj hpc hpc' => hlinked.unique hi hj hpc hpc'
  have harray : ∀ i < tbl.count, tbl.array entries i = some (entries i) := fun i hi => if_pos hi
  rw [lookupFunctionEntry_eq_find htable]
  by_cases hin : tbl.Inside pc.toNat
  · by_cases hcovered : ∃ i < tbl.count, (entries i).Covers tbl.imageBase pc.toNat
    · obtain ⟨i, hi, hpc⟩ := hcovered
      have hfind : ∀ {entry : Nat → Option RuntimeFunction},
          (∀ j < tbl.count, entry j = some (entries j)) →
            tbl.find entry pc = some (some (tbl.base + i * 12)) := by
        intro entry hentry
        apply find_covered hlinked.size_le hentry hlinked.base_ne _ _ hi hpc hin
        · exact fun j hj i hij => hlinked.ordered hj hij
        · exact fun j hj => BitVec.lt_def.mp (hlinked.nonempty j hj)
      refine ⟨_, hfind hread, hfind harray, fun p => ?_, hunique⟩
      rw [Option.some.injEq]
      constructor
      · exact fun hp => ⟨hin, i, hi, hpc, hp.symm⟩
      · rintro ⟨-, j, hj, hpc', rfl⟩
        rw [hunique i hi j hj hpc hpc']
    · have hnone : ∀ i < tbl.count, ¬ (entries i).Covers tbl.imageBase pc.toNat :=
        fun i hi hpc => hcovered ⟨i, hi, hpc⟩
      refine ⟨none, find_uncovered hlinked.size_le hread hnone,
        find_uncovered hlinked.size_le harray hnone, fun p => ?_, hunique⟩
      refine iff_of_false nofun ?_
      rintro ⟨-, i, hi, hpc, -⟩
      exact hnone i hi hpc
  · exact ⟨none, find_outside hin, find_outside hin,
      fun p => iff_of_false nofun fun h => hin h.1, hunique⟩

/-- Three functions from RVA 0x1000 on, the third 16 bytes after the end of the second. -/
def threeBytes : List Byte :=
  [0, 0x10, 0, 0, 0x10, 0x10, 0, 0, 0, 0, 0, 0,
    0x10, 0x10, 0, 0, 0x20, 0x10, 0, 0, 0, 0, 0, 0,
    0x30, 0x10, 0, 0, 0x40, 0x10, 0, 0, 0, 0, 0, 0]

def threeImage : Image :=
  { mainImage with content := fun r => threeBytes.getD (r - 16) 0, exceptionTable := some (16, 36) }

def threeTable : ExceptionTable := ⟨0x140000010, 3, 0x140000000, 8192⟩

/-- The process that has loaded this image alone. -/
def threeOnly : Process := ⟨[threeImage], [], some threeTable, true⟩

theorem threeTable_linked : threeTable.Linked (threeImage.function 16) where
  base_ne := by decide
  size_le := by decide
  base_add_size := by decide
  sorted := by decide
  nonempty := by decide
  apart j hj i hij pc hi hj' := by
    have hordered : ∀ j < 3, ∀ i < j, (threeImage.function 16 i).endAddress.toNat ≤
      (threeImage.function 16 j).beginAddress.toNat := by decide
    have hle := hordered j hj i hij
    obtain ⟨-, hend⟩ := hi
    obtain ⟨hbegin, -⟩ := hj'
    omega

/-- The search goes to both sides: the third function is found, and nothing in the gap before it. -/
theorem lookupFunctionEntry_exact_threeOnly :
    threeOnly.lookupFunctionEntry 0x140001034 = some (some 0x140000028) ∧
      threeOnly.lookupFunctionEntry 0x140001024 = some none := by
  have hread : ∀ i < threeTable.count, threeOnly.entryAt (threeTable.base + i * 12) =
      some (threeImage.function 16 i) := by decide
  constructor
  · obtain ⟨found, hfound, -, hexact, -⟩ :=
      lookupFunctionEntry_exact rfl threeTable_linked hread 0x140001034
    rw [hfound, (hexact 0x140000028).mpr]
    exact ⟨⟨by decide, by decide⟩, 2, by decide, ⟨by decide, by decide⟩, by decide⟩
  · obtain ⟨found, hfound, -, hexact, -⟩ :=
      lookupFunctionEntry_exact rfl threeTable_linked hread 0x140001024
    rw [hfound, Option.some_inj, Option.eq_none_iff_forall_ne_some]
    intro p hp
    obtain ⟨-, i, hi, hcovers, -⟩ := (hexact p).mp hp
    have hnone : ∀ i < threeTable.count,
        ¬ (threeImage.function 16 i).Covers threeTable.imageBase 0x140001024 := by
      unfold RuntimeFunction.Covers
      decide
    exact hnone i hi hcovers

end WinCompat.Seh
