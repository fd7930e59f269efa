import WinCompat.Lib.Machine

/-!
# Heap handles

`GetProcessHeap`, `HeapCreate` and `HeapDestroy` of `win32-kernel32/src/heap.rs`. The registry is a
set of handles; a new handle is computed from how many there are, and the process heap is one of
them only if it was asked for while there was no other.

Beside the registry the machine keeps the handles of the heaps that were created and not destroyed,
one for each heap, so that two heaps with one handle stay two.
-/

namespace WinCompat.Heap.Registry

open Lib

abbrev Handle := BitVec 64

/-- `HEAP_HANDLE`, the process heap's. -/
def heapHandle : Handle := 0x0001000000000001

/-- `known_heaps`. -/
abbrev KnownHeaps := Finset Handle

def ensureDefaultHeap (g : KnownHeaps) : KnownHeaps := if g = ∅ then insert heapHandle g else g

def getProcessHeap (g : KnownHeaps) : Handle × KnownHeaps := (heapHandle, ensureDefaultHeap g)

/-- The handle that `heap_create` picks. -/
def nextHandle (g : KnownHeaps) : Handle := 0x0001000000000002 + BitVec.ofNat 64 g.card

def heapCreate (g : KnownHeaps) : Handle × KnownHeaps := (nextHandle g, insert (nextHandle g) g)

def heapDestroy (g : KnownHeaps) (heap : Handle) : Bool × KnownHeaps :=
  (decide (heap ∈ g ∨ heap = heapHandle), g.erase heap)

/-! ## Runs -/

structure State where
  known : KnownHeaps
  /-- The handles that `HeapCreate` has returned, less one for each TRUE of `HeapDestroy`. -/
  live : List Handle
  deriving DecidableEq

inductive Call
  | getProcessHeap
  | heapCreate
  | heapDestroy (heap : Handle)
  deriving DecidableEq

def Call.apply (s : State) : Call → State
  | .getProcessHeap => { s with known := (Registry.getProcessHeap s.known).2 }
  | .heapCreate =>
    let r := Registry.heapCreate s.known
    ⟨r.2, r.1 :: s.live⟩
  | .heapDestroy heap =>
    let r := Registry.heapDestroy s.known heap
    ⟨r.2, if r.1 then s.live.erase heap else s.live⟩

def State.start : State := ⟨∅, []⟩

/-- The calls in any order. -/
def machine : Machine State Call where
  init s := s = .start
  next s c := some (c.apply s)

/-- Live heaps have handles of their own, none the process heap's; and `HeapDestroy` says TRUE of
    those heaps and of no other that is not the process heap. -/
structure Distinct (s : State) : Prop where
  nodup : s.live.Nodup
  notDefault : heapHandle ∉ s.live
  destroyed : ∀ h, h ≠ heapHandle → ((heapDestroy s.known h).1 = true ↔ h ∈ s.live)

/-- The handle that `HeapCreate` is about to pick is nobody's. -/
def Call.Unused (s : State) : Call → Prop
  | .heapCreate => nextHandle s.known ∉ s.live ∧ nextHandle s.known ≠ heapHandle
  | _ => True

/-! ## One step -/

variable {s : State}

theorem Distinct.mem_known (hs : Distinct s) {h : Handle} (hne : h ≠ heapHandle) :
    h ∈ s.known ↔ h ∈ s.live := by
  have hiff := hs.destroyed h hne
  simpa [heapDestroy, hne] using hiff

/-- `Distinct`, by what the registry holds. -/
theorem distinct_iff : Distinct s ↔
    s.live.Nodup ∧ heapHandle ∉ s.live ∧ ∀ h, h ≠ heapHandle → (h ∈ s.known ↔ h ∈ s.live) := by
  constructor
  · intro hs
    exact ⟨hs.nodup, hs.notDefault, fun h hne => hs.mem_known hne⟩
  · intro ⟨hnodup, hdefault, hknown⟩
    refine ⟨hnodup, hdefault, fun h hne => ?_⟩
    simpa [heapDestroy, hne] using hknown h hne

theorem Distinct.getProcessHeap (hs : Distinct s) : Distinct (Call.getProcessHeap.apply s) := by
  refine distinct_iff.mpr ⟨hs.nodup, hs.notDefault, fun h hne => ?_⟩
  refine Iff.trans ?_ (hs.mem_known hne)
  simp only [Call.apply, Registry.getProcessHeap, ensureDefaultHeap]
  split
  · simp [hne]
  · rfl

theorem Distinct.heapDestroy (hs : Distinct s) (heap : Handle) :
    Distinct ((Call.heapDestroy heap).apply s) := by
  by_cases hdefault : heap = heapHandle
  · have hsame : s.live.erase heap = s.live := List.erase_of_not_mem (hdefault ▸ hs.notDefault)
    refine distinct_iff.mpr ?_
    simp only [Call.apply, hsame, ite_self]
    refine ⟨hs.nodup, hs.notDefault, fun h hne => ?_⟩
    rw [← hs.mem_known hne]
    simp [Registry.heapDestroy, hdefault, hne]
  · refine distinct_iff.mpr ?_
    by_cases hmem : heap ∈ s.live
    · have htrue := (hs.destroyed heap hdefault).mpr hmem
      simp only [Call.apply, htrue, if_true]
      refine ⟨hs.nodup.erase heap, fun h => hs.notDefault (List.mem_of_mem_erase h), ?_⟩
      intro h hne
      rw [hs.nodup.mem_erase_iff, ← hs.mem_known hne]
      exact Finset.mem_erase
    · have hfalse := mt (hs.destroyed heap hdefault).mp hmem
      simp only [Call.apply, hfalse]
      refine ⟨hs.nodup, hs.notDefault, fun h hne => ?_⟩
      have hknown := mt (hs.mem_known hdefault).mp hmem
      simp [Registry.heapDestroy, Finset.erase_eq_of_notMem hknown, hs.mem_known hne]

theorem Distinct.heapCreate_iff (hs : Distinct s) :
    Distinct (Call.heapCreate.apply s) ↔ Call.heapCreate.Unused s := by
  constructor
  · intro h
    exact ⟨(List.nodup_cons.mp h.nodup).1, fun he => h.notDefault (he ▸ List.mem_cons_self)⟩
  · intro ⟨hunused, hdefault⟩
    refine distinct_iff.mpr ⟨List.nodup_cons.mpr ⟨hunused, hs.nodup⟩, ?_, fun h hne => ?_⟩
    · exact List.not_mem_cons_of_ne_of_not_mem hdefault.symm hs.notDefault
    · simp [Call.apply, Registry.heapCreate, hs.mem_known hne]

theorem distinct_step {s' : State} (c : Call) (hs : Distinct s) (hn : machine.next s c = some s') :
    Distinct s' ↔ c.Unused s := by
  obtain rfl := Option.some.inj hn
  cases c with
  | getProcessHeap => exact iff_of_true hs.getProcessHeap trivial
  | heapCreate => exact hs.heapCreate_iff
  | heapDestroy heap => exact iff_of_true (hs.heapDestroy heap) trivial

theorem distinct_start : Distinct .start :=
  distinct_iff.mpr ⟨List.nodup_nil, List.not_mem_nil, fun h _ => by simp [State.start]⟩

/-- **When heap handles are distinct**: in exactly the runs in which no `HeapCreate` picks a handle
    that is taken. -/
theorem handles_distinct_iff (calls : List Call) :
    machine.Throughout Distinct .start calls ↔ machine.Steps (fun s c => c.Unused s) .start calls :=
  Machine.throughout_iff_steps
    (fun _ c _ (_ : True) hs hn => ⟨trivial, distinct_step c hs hn⟩) trivial distinct_start

/-- Two heaps, the first destroyed, and a third: there is one in the registry, so the third gets the
    handle of the second. -/
theorem third_heap_taken :
    ¬ machine.Throughout Distinct .start
      [.heapCreate, .heapCreate, .heapDestroy 0x0001000000000002, .heapCreate] := by
  intro h
  obtain ⟨-, h⟩ := h
  obtain ⟨-, h⟩ := h _ rfl
  obtain ⟨-, h⟩ := h _ rfl
  obtain ⟨-, h⟩ := h _ rfl
  have hnodup := (h _ rfl).nodup
  exact absurd hnodup (by decide)

end WinCompat.Heap.Registry
