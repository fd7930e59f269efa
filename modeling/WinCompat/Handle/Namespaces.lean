import WinCompat.Handle.Table

/-!
# Five counters, one space of handles

The handles a guest gets come from `HandleTable` (`ntapi/src/handle.rs`), `make_fake_handle`
(`anticheat.rs`), `next_tpm_handle` (`tpm.rs`), `known_heaps` (`heap.rs`) and `Registry::mint`
(`registry.rs`). Each counts from a start of its own, chosen so that they stay apart, and nothing
checks that they do. The two fake counters start at the same number, and a heap's number is that of
the heaps known when it is made.

`live` lists the handles the guest has and has not closed, each with the number of its mint within
its kind; the code keeps no such list. A close is of a handle the guest has, or of a value that is
none of them, and by whatever function.
-/

namespace WinCompat.Handles.Namespaces

open Lib

inductive Kind
  /-- `HandleTable`: events, mutexes, semaphores, threads, files. -/
  | table
  /-- `make_fake_handle` -/
  | fake
  /-- `Tbsi_Context_Create` -/
  | tpm
  /-- `HeapCreate` -/
  | heap
  /-- `GetProcessHeap` -/
  | processHeap
  /-- `RegOpenKey` and `RegCreateKey` -/
  | key
  deriving DecidableEq

structure Minted where
  kind : Kind
  serial : Nat
  value : Handle
  deriving DecidableEq

structure State where
  table : Handles.State
  /-- `NEXT_FAKE_HANDLE` -/
  nextFake : BitVec 32
  /-- `NEXT_TPM_HANDLE` -/
  nextTpm : BitVec 32
  /-- `known_heaps` -/
  heaps : Finset Handle
  /-- `Registry::handles`, with the path of each key. -/
  keys : Handle → Option String
  /-- `Registry::next` -/
  nextKey : Handle
  /-- How many handles of a kind have been made. -/
  made : Kind → Nat
  live : List Minted

/-- `HEAP_HANDLE` -/
def heapHandle : Handle := 0x0001000000000001

/-- `root_name`, as far as whether there is one. -/
def isRoot (h : Handle) : Bool :=
  h = 0x80000000 || h = 0x80000001 || h = 0x80000002 || h = 0x80000003 || h = 0x80000005

namespace State

/-- `make_fake_handle` -/
def makeFakeHandle (s : State) : State × Handle :=
  ({ s with nextFake := s.nextFake + 1 }, s.nextFake.setWidth 64)

/-- `tbsi_context_create` -/
def tbsiContextCreate (s : State) : State × Handle :=
  ({ s with nextTpm := s.nextTpm + 1 }, s.nextTpm.setWidth 64)

/-- `get_process_heap` -/
def getProcessHeap (s : State) : State × Handle :=
  ({ s with heaps := if s.heaps = ∅ then {heapHandle} else s.heaps }, heapHandle)

/-- `heap_create` -/
def heapCreate (s : State) : State × Handle :=
  let next := 0x0001000000000002 + BitVec.ofNat 64 s.heaps.card
  ({ s with heaps := insert next s.heaps }, next)

/-- `Registry::mint` -/
def mintKey (s : State) (path : String) : State × Handle :=
  ({ s with keys := Function.update s.keys s.nextKey (some path), nextKey := s.nextKey + 1 },
    s.nextKey)

/-- `heap_destroy` -/
def heapDestroy (s : State) (h : Handle) : State := { s with heaps := s.heaps.erase h }

/-- `reg_close_key` -/
def regCloseKey (s : State) (h : Handle) : State :=
  { s with keys := if isRoot h then s.keys else Function.update s.keys h none }

/-- The number of the next handle of a kind. -/
def serial (s : State) : Kind → Nat
  | .heap => s.heaps.card
  | .processHeap => 0
  | k => s.made k

/-- The guest has a new handle. -/
def give (s : State) (k : Kind) (n : Nat) (r : State × Handle) : State :=
  { r.1 with made := Function.update s.made k (s.made k + 1), live := ⟨k, n, r.2⟩ :: s.live }

end State

/-- The functions that close. -/
inductive CloseFn
  | closeHandle
  | ntClose
  | heapDestroy
  | regCloseKey
  | tbsipContextClose
  deriving DecidableEq

/-- The kinds of handle a function is there to close. -/
def CloseFn.ends : CloseFn → Kind → Bool
  | closeHandle, .table | closeHandle, .fake | ntClose, .table | ntClose, .fake => true
  | heapDestroy, .heap | heapDestroy, .processHeap => true
  | regCloseKey, .key => true
  | tbsipContextClose, .tpm => true
  | _, _ => false

/-- What closing a value does, whatever the value stands for. -/
def State.runClose (s : State) (h : Handle) : CloseFn → State
  | .closeHandle => { s with table := s.table.close (.closeHandle h) h }
  | .ntClose => { s with table := s.table.close (.ntClose h) h }
  | .heapDestroy => s.heapDestroy h
  | .regCloseKey => s.regCloseKey h
  | .tbsipContextClose => s

inductive Call
  /-- The creation of an object that is not a file. -/
  | create (o : Object)
  /-- `open_file_handle`, with the descriptor `open(2)` returned. -/
  | openFile (fd : Nat)
  | makeFakeHandle
  | tbsiContextCreate
  | getProcessHeap
  | heapCreate
  /-- `RegOpenKey` or `RegCreateKey` on a path that `build_path` could make. -/
  | regOpen (path : String)
  | close (fn : CloseFn) (m : Minted)
  deriving DecidableEq

/-- The guest has the process heap's handle. -/
def State.HasProcessHeap (s : State) : Prop := ∃ m ∈ s.live, m.kind = .processHeap

instance (s : State) : Decidable s.HasProcessHeap :=
  inferInstanceAs (Decidable (∃ m ∈ s.live, m.kind = .processHeap))

/-- The kind of handle that is new to the guest after the call. -/
def State.mints (s : State) : Call → Option Kind
  | .create _ | .openFile _ => some .table
  | .makeFakeHandle => some .fake
  | .tbsiContextCreate => some .tpm
  | .getProcessHeap => if s.HasProcessHeap then none else some .processHeap
  | .heapCreate => some .heap
  | .regOpen _ => some .key
  | .close _ _ => none

def State.next (s : State) : Call → Option State
  | .create o => (s.table.run (.create o)).map fun t =>
      s.give .table (s.serial .table) ({ s with table := t }, s.table.next)
  | .openFile fd => (s.table.run (.openFileHandle (some fd))).map fun t =>
      s.give .table (s.serial .table) ({ s with table := t }, s.table.next)
  | .makeFakeHandle => some (s.give .fake (s.serial .fake) s.makeFakeHandle)
  | .tbsiContextCreate => some (s.give .tpm (s.serial .tpm) s.tbsiContextCreate)
  | .getProcessHeap =>
      if s.HasProcessHeap then some s.getProcessHeap.1
      else some (s.give .processHeap (s.serial .processHeap) s.getProcessHeap)
  | .heapCreate => some (s.give .heap (s.serial .heap) s.heapCreate)
  | .regOpen path => some (s.give .key (s.serial .key) (s.mintKey path))
  | .close fn m =>
      if m ∈ s.live ∨ ∀ m' ∈ s.live, m'.value ≠ m.value then
        some { s.runClose m.value fn with
          live := if fn.ends m.kind then s.live.erase m else s.live }
      else none

/-- A process at its start. -/
def namespaces : Machine State Call where
  init s := handles.init s.table ∧ s.nextFake = 0x100000 ∧ s.nextTpm = 0x100000 ∧ s.heaps = ∅ ∧
    (∀ h, s.keys h = none) ∧ s.nextKey = 0x0002000000000001 ∧ (∀ k, s.made k = 0) ∧ s.live = []
  next := State.next

/-! ## What the namespaces promise -/

/-- What the handle stands for is still there. Fake handles, TPM contexts and the process heap stand
    for nothing that could be removed. -/
def State.Has (s : State) (m : Minted) : Prop :=
  match m.kind with
  | .table => (s.table.objects m.value).isSome
  | .heap => m.value ∈ s.heaps
  | .key => (s.keys m.value).isSome
  | _ => True

/-- One namespace for all live handles, of whatever kind. -/
structure Disjoint (s : State) : Prop where
  /-- Handles that are live at the same time differ. -/
  distinct : (s.live.map Minted.value).Nodup
  /-- No close has taken away what a live handle stands for. -/
  kept : ∀ m ∈ s.live, s.Has m

/-! ## Where the counters stand -/

def Kind.first : Kind → Nat
  | table => 0x10000
  | fake | tpm => 0x100000
  | heap => 0x0001000000000002
  | processHeap => 0x0001000000000001
  | key => 0x0002000000000001

def Kind.width : Kind → Nat
  | fake | tpm => 32
  | _ => 64

/-- The number of the `n`-th handle of a kind. -/
def Kind.place (k : Kind) (n : Nat) : Nat := (k.first + n) % 2 ^ k.width

/-- The call makes no handle with the number of a live one. -/
def Clean (s : State) (c : Call) : Prop :=
  ∀ k, s.mints c = some k → ∀ m ∈ s.live, m.kind.place m.serial ≠ k.place (s.serial k)

/-! ## The invariant -/

/-- Each counter has counted its own handles. -/
structure Counted (s : State) : Prop where
  table : s.table.next.toNat = Kind.table.place (s.made .table)
  fake : s.nextFake.toNat = Kind.fake.place (s.made .fake)
  tpm : s.nextTpm.toNat = Kind.tpm.place (s.made .tpm)
  key : s.nextKey.toNat = Kind.key.place (s.made .key)

/-- A handle's number says which one of its kind it was. -/
structure Inv (s : State) : Prop extends Disjoint s where
  counted : Counted s
  values : ∀ m ∈ s.live, m.value.toNat = m.kind.place m.serial

variable {s s' : State} {k : Kind} {n : Nat}

theorem place_succ {x : BitVec k.width} (h : x.toNat = k.place n) :
    (x + 1).toNat = k.place (n + 1) := by
  have hone : (1 : BitVec k.width).toNat = 1 := by
    cases k <;> rfl
  rw [BitVec.toNat_add, h, hone, Kind.place, Kind.place, Nat.mod_add_mod, Nat.add_assoc]

theorem toNat_setWidth_64 (x : BitVec 32) : (x.setWidth 64).toNat = x.toNat := by
  rw [BitVec.toNat_setWidth]
  exact Nat.mod_eq_of_lt (Nat.lt_trans x.isLt (by decide))

theorem toNat_heapHandle : heapHandle.toNat = Kind.processHeap.place 0 := rfl

theorem toNat_next_heap (n : Nat) :
    (0x0001000000000002 + BitVec.ofNat 64 n).toNat = Kind.heap.place n := by
  rw [BitVec.toNat_add, BitVec.toNat_ofNat, Nat.add_mod_mod]
  rfl

/-- What a call does that makes a handle of kind `k`. -/
structure Mints (s : State) (k : Kind) (s' : State) (r : State × Handle) : Prop where
  result : s' = s.give k (s.serial k) r
  place : r.2.toNat = k.place (s.serial k)
  kept : ∀ m : Minted, m.value ≠ r.2 → s.Has m → r.1.Has m
  new : r.1.Has ⟨k, s.serial k, r.2⟩
  counted : Counted (s.give k (s.serial k) r)

variable {m : Minted}

theorem State.Has.mono (h : s.Has m)
    (htable : (s.table.objects m.value).isSome → (s'.table.objects m.value).isSome)
    (hheaps : m.value ∈ s.heaps → m.value ∈ s'.heaps)
    (hkeys : (s.keys m.value).isSome → (s'.keys m.value).isSome) : s'.Has m := by
  unfold State.Has at h ⊢
  cases hk : m.kind with
  | table =>
    rw [hk] at h
    exact htable h
  | heap =>
    rw [hk] at h
    exact hheaps h
  | key =>
    rw [hk] at h
    exact hkeys h
  | fake | tpm | processHeap => trivial

/-- The table has a new entry under its next number. -/
theorem mints_table (h : Counted s) {t : Handles.State} {o : Object}
    (hobjects : t.objects = Function.update s.table.objects s.table.next (some o))
    (hnext : t.next = s.table.next + 1) :
    Mints s .table (s.give .table (s.serial .table) ({ s with table := t }, s.table.next))
      ({ s with table := t }, s.table.next) where
  result := rfl
  place := h.table
  kept := by
    intro m hne hhas
    refine hhas.mono ?_ id id
    intro hsome
    rw [hobjects, Function.update_of_ne hne]
    exact hsome
  new := by
    simp [State.Has, hobjects]
  counted := by
    refine ⟨?_, h.fake, h.tpm, h.key⟩
    show t.next.toNat = _
    rw [hnext]
    exact place_succ (k := .table) h.table

theorem mem_getProcessHeap (h : Handle) (hmem : h ∈ s.heaps) : h ∈ s.getProcessHeap.1.heaps := by
  have hne : s.heaps ≠ ∅ := Finset.ne_empty_of_mem hmem
  unfold State.getProcessHeap
  rw [if_neg hne]
  exact hmem

theorem next_mints (h : Counted s) {c : Call} (hk : s.mints c = some k)
    (hn : s.next c = some s') : ∃ r, Mints s k s' r := by
  cases c with
  | create o =>
    cases hk
    simp only [State.next, Option.map_eq_some_iff] at hn
    obtain ⟨t, hrun, rfl⟩ := hn
    obtain ⟨hobjects, hnext⟩ := run_create hrun
    exact ⟨_, mints_table h hobjects hnext⟩
  | openFile fd =>
    cases hk
    simp only [State.next, Option.map_eq_some_iff] at hn
    obtain ⟨t, hrun, rfl⟩ := hn
    obtain ⟨hobjects, hnext⟩ := run_openFile hrun
    exact ⟨_, mints_table h hobjects hnext⟩
  | makeFakeHandle =>
    cases hk
    cases hn
    refine ⟨s.makeFakeHandle, rfl, ?_, fun _ _ hhas => hhas, trivial, ?_⟩
    · exact (toNat_setWidth_64 s.nextFake).trans h.fake
    · exact ⟨h.table, place_succ (k := .fake) h.fake, h.tpm, h.key⟩
  | tbsiContextCreate =>
    cases hk
    cases hn
    refine ⟨s.tbsiContextCreate, rfl, ?_, fun _ _ hhas => hhas, trivial, ?_⟩
    · exact (toNat_setWidth_64 s.nextTpm).trans h.tpm
    · exact ⟨h.table, h.fake, place_succ (k := .tpm) h.tpm, h.key⟩
  | getProcessHeap =>
    simp only [State.mints] at hk
    by_cases hhas : s.HasProcessHeap
    · rw [if_pos hhas] at hk
      cases hk
    · rw [if_neg hhas] at hk
      cases hk
      simp only [State.next, if_neg hhas] at hn
      cases hn
      refine ⟨s.getProcessHeap, rfl, toNat_heapHandle, ?_, trivial, ?_⟩
      · exact fun m _ hm => hm.mono id (mem_getProcessHeap m.value) id
      · exact ⟨h.table, h.fake, h.tpm, h.key⟩
  | heapCreate =>
    cases hk
    cases hn
    refine ⟨s.heapCreate, rfl, toNat_next_heap _, ?_, ?_, ?_⟩
    · exact fun m _ hm => hm.mono id Finset.mem_insert_of_mem id
    · exact Finset.mem_insert_self _ _
    · exact ⟨h.table, h.fake, h.tpm, h.key⟩
  | regOpen path =>
    cases hk
    cases hn
    refine ⟨s.mintKey path, rfl, h.key, ?_, ?_, ?_⟩
    · intro m hne hm
      refine hm.mono id id ?_
      intro hsome
      have hnext : m.value ≠ s.nextKey := hne
      show (Function.update s.keys s.nextKey (some path) m.value).isSome
      rw [Function.update_of_ne hnext]
      exact hsome
    · simp [State.Has, State.mintKey]
    · exact ⟨h.table, h.fake, h.tpm, place_succ (k := .key) h.key⟩
  | close fn m => cases hk

/-! ## Closing -/

variable {fn : CloseFn}

theorem has_runClose_of_ne {h : Handle} (hne : m.value ≠ h) (hhas : s.Has m) :
    (s.runClose h fn).Has m := by
  cases fn with
  | closeHandle | ntClose =>
    refine hhas.mono ?_ id id
    intro hsome
    unfold State.runClose
    rw [Handles.State.close_objects_ne hne]
    exact hsome
  | heapDestroy => exact hhas.mono id (fun hmem => Finset.mem_erase_of_ne_of_mem hne hmem) id
  | regCloseKey =>
    refine hhas.mono id id ?_
    intro hsome
    show ((if isRoot h then s.keys else Function.update s.keys h none) m.value).isSome
    split
    · exact hsome
    · rw [Function.update_of_ne hne]
      exact hsome
  | tbsipContextClose => exact hhas

theorem has_runClose_of_not_ends {h : Handle} (hnot : fn.ends m.kind = false) (hhas : s.Has m) :
    (s.runClose h fn).Has m := by
  unfold State.Has at hhas ⊢
  cases hk : m.kind with
  | table =>
    rw [hk] at hnot hhas
    cases fn with
    | closeHandle | ntClose => cases hnot
    | heapDestroy | regCloseKey | tbsipContextClose => exact hhas
  | heap =>
    rw [hk] at hnot hhas
    cases fn with
    | heapDestroy => cases hnot
    | closeHandle | ntClose | regCloseKey | tbsipContextClose => exact hhas
  | key =>
    rw [hk] at hnot hhas
    cases fn with
    | regCloseKey => cases hnot
    | closeHandle | ntClose | heapDestroy | tbsipContextClose => exact hhas
  | fake | tpm | processHeap => trivial

theorem Counted.runClose (h : Counted s) (v : Handle) (fn : CloseFn) :
    Counted (s.runClose v fn) := by
  cases fn with
  | closeHandle | ntClose =>
    refine ⟨?_, h.fake, h.tpm, h.key⟩
    exact (congrArg BitVec.toNat Handles.State.close_next).trans h.table
  | heapDestroy | regCloseKey | tbsipContextClose => exact ⟨h.table, h.fake, h.tpm, h.key⟩

theorem Disjoint.eq_of_value (h : Disjoint s) {m m' : Minted} (hm : m ∈ s.live)
    (hm' : m' ∈ s.live) (heq : m.value = m'.value) : m = m' :=
  List.inj_on_of_nodup_map h.distinct hm hm' heq

theorem Inv.close (h : Inv s) (hn : s.next (.close fn m) = some s') : Inv s' := by
  simp only [State.next, Option.ite_none_right_eq_some, Option.some.injEq] at hn
  obtain ⟨hgiven, rfl⟩ := hn
  have hsub : (if fn.ends m.kind then s.live.erase m else s.live).Sublist s.live := by
    split
    · exact List.erase_sublist
    · exact List.Sublist.refl _
  constructor
  · constructor
    · exact h.distinct.sublist (hsub.map Minted.value)
    · intro m' hm'
      have hold := hsub.subset hm'
      have hhas := h.kept m' hold
      by_cases hvalue : m'.value = m.value
      · have hmem : m ∈ s.live := by
          rcases hgiven with hmem | hnone
          · exact hmem
          · exact absurd hvalue (hnone m' hold)
        have heq : m' = m := h.eq_of_value hold hmem hvalue
        subst heq
        cases hends : fn.ends m'.kind with
        | true =>
          simp only [hends, if_true] at hm'
          have hnodup : s.live.Nodup := List.Nodup.of_map _ h.distinct
          exact absurd rfl (hnodup.mem_erase_iff.mp hm').1
        | false => exact has_runClose_of_not_ends hends hhas
      · exact has_runClose_of_ne hvalue hhas
  · have hcounted := h.counted.runClose m.value fn
    exact ⟨hcounted.table, hcounted.fake, hcounted.tpm, hcounted.key⟩
  · exact fun m' hm' => h.values m' (hsub.subset hm')

/-! ## Every run -/

theorem inv_init (h : namespaces.init s) : Inv s := by
  obtain ⟨htable, hfake, htpm, -, -, hkey, hmade, hlive⟩ := h
  have hnext : s.table.next = 0x10000 := htable.2.1
  constructor
  · constructor
    · rw [hlive]
      exact List.nodup_nil
    · rw [hlive]
      exact fun m hm => absurd hm List.not_mem_nil
  · refine ⟨?_, ?_, ?_, ?_⟩
    · rw [hnext, hmade]
      rfl
    · rw [hfake, hmade]
      rfl
    · rw [htpm, hmade]
      rfl
    · rw [hkey, hmade]
      rfl
  · rw [hlive]
    exact fun m hm => absurd hm List.not_mem_nil

theorem Inv.fresh_iff (h : Inv s) {r : State × Handle} (hr : Mints s k s' r) :
    r.2 ∉ s.live.map Minted.value ↔
      ∀ m ∈ s.live, m.kind.place m.serial ≠ k.place (s.serial k) := by
  rw [List.mem_map, not_exists]
  apply forall_congr'
  intro m
  rw [not_and]
  apply forall_congr'
  intro hm
  rw [← h.values m hm, ← hr.place]
  exact not_congr (BitVec.toNat_inj).symm

theorem Inv.mint (h : Inv s) {r : State × Handle} (hr : Mints s k s' r)
    (hfree : ∀ m ∈ s.live, m.kind.place m.serial ≠ k.place (s.serial k)) : Inv s' := by
  have hfresh := (h.fresh_iff hr).mpr hfree
  rw [hr.result]
  constructor
  · constructor
    · exact List.nodup_cons.mpr ⟨hfresh, h.distinct⟩
    · intro m hm
      rcases List.mem_cons.mp hm with rfl | hm
      · exact hr.new
      · apply hr.kept m ?_ (h.kept m hm)
        intro heq
        exact hfresh (heq ▸ List.mem_map_of_mem hm)
  · exact hr.counted
  · intro m hm
    rcases List.mem_cons.mp hm with rfl | hm
    · exact hr.place
    · exact h.values m hm

theorem Inv.step (h : Inv s) {c : Call} (hclean : Clean s c)
    (hn : namespaces.next s c = some s') : Inv s' := by
  cases hk : s.mints c with
  | some k =>
    obtain ⟨r, hr⟩ := next_mints h.counted hk hn
    exact h.mint hr (hclean k hk)
  | none =>
    cases c with
    | close fn m => exact h.close hn
    | getProcessHeap =>
      simp only [State.mints, ite_eq_left_iff, reduceCtorEq, imp_false, not_not] at hk
      simp only [namespaces, State.next, if_pos hk] at hn
      cases hn
      refine ⟨⟨h.distinct, ?_⟩, ⟨h.counted.table, h.counted.fake, h.counted.tpm,
        h.counted.key⟩, h.values⟩
      exact fun m hm => (h.kept m hm).mono id (mem_getProcessHeap m.value) id
    | create o | openFile fd | makeFakeHandle | tbsiContextCreate | heapCreate | regOpen path =>
      cases hk

theorem Inv.step_not_clean (h : Inv s) {c : Call} (hnot : ¬ Clean s c)
    (hn : namespaces.next s c = some s') : ¬ Disjoint s' := by
  intro hdisjoint
  apply hnot
  intro k hk
  obtain ⟨r, hr⟩ := next_mints h.counted hk hn
  apply (h.fresh_iff hr).mp
  have hdistinct := hdisjoint.distinct
  rw [hr.result] at hdistinct
  exact (List.nodup_cons.mp hdistinct).1

theorem inv_of_clean (h : namespaces.ReachableIf Clean s) : Inv s :=
  h.invariant (fun _ => inv_init) fun _ _ _ hinv hclean hn => hinv.step hclean hn

/-- **Handle namespaces do not meet exactly while no call makes a handle with the number of a live
    one.** -/
theorem namespaces_disjoint_iff (h : namespaces.ReachableIf Clean s) :
    Disjoint s ∧ ∀ c s', namespaces.next s c = some s' → (Disjoint s' ↔ Clean s c) := by
  have hinv := inv_of_clean h
  refine ⟨hinv.toDisjoint, ?_⟩
  intro c s' hn
  constructor
  · intro hdisjoint
    by_contra hnot
    exact hinv.step_not_clean hnot hn hdisjoint
  · intro hclean
    exact (hinv.step hclean hn).toDisjoint

/-- A process that has made no handle yet. -/
def startState : State where
  table := fresh
  nextFake := 0x100000
  nextTpm := 0x100000
  heaps := ∅
  keys _ := none
  nextKey := 0x0002000000000001
  made _ := 0
  live := []

theorem startState_init : namespaces.init startState :=
  ⟨fresh_init, rfl, rfl, rfl, fun _ => rfl, rfl, fun _ => rfl, rfl⟩

/-- An event, a private heap and a registry key. -/
def threeKinds : State :=
  (namespaces.exec startState [.create (.event 0), .heapCreate, .regOpen "HKCU"]).getD startState

theorem threeKinds_clean : namespaces.ReachableIf Clean threeKinds := by
  have h₀ : namespaces.ReachableIf Clean startState := .start startState_init
  have h₁ := h₀.step (a := .create (.event 0)) (by
    intro k _ m hm
    exact absurd hm List.not_mem_nil) rfl
  have h₂ := h₁.step (a := .heapCreate) (by
    intro k hk m hm
    cases hk
    cases List.mem_singleton.mp hm
    decide) rfl
  exact h₂.step (a := .regOpen "HKCU") (by
    intro k hk m hm
    cases hk
    rcases List.mem_pair.mp hm with rfl | rfl <;> decide) rfl

theorem namespaces_disjoint_iff_threeKinds :
    Disjoint threeKinds ∧ ∀ c s', namespaces.next threeKinds c = some s' →
      (Disjoint s' ↔ Clean threeKinds c) :=
  namespaces_disjoint_iff threeKinds_clean

/-! ## Handles that meet -/

/-- A file mapping and a TPM context. -/
def fakeAndTpm : List Call := [.makeFakeHandle, .tbsiContextCreate]

/-- Two private heaps, of which the first is destroyed, and a third. -/
def threeHeaps : List Call :=
  [.heapCreate, .heapCreate, .close .heapDestroy ⟨.heap, 0, 0x0001000000000002⟩, .heapCreate]

/-- The table counts on, whatever else there is. -/
theorem exists_table_entry (n : Nat) : ∀ {s : State}, namespaces.Reachable s →
    ∃ s' m, namespaces.Reachable s' ∧ (∀ m' ∈ s.live, m' ∈ s'.live) ∧ m ∈ s'.live ∧
      m.kind = .table ∧ m.value = s.table.next + BitVec.ofNat 64 n ∧ s'.Has m := by
  induction n with
  | zero =>
    intro s hs
    have hstep := hs.step (a := .create (.event 0)) trivial rfl
    refine ⟨_, _, hstep, fun _ => List.mem_cons_of_mem _, List.mem_cons_self, rfl, ?_, ?_⟩
    · simp
    · simp [State.Has, State.give, Handles.State.insert_objects]
  | succ n ih =>
    intro s hs
    have hstep := hs.step (a := .create (.event 0)) trivial rfl
    obtain ⟨s', m, hs', hkeep, hm, hkind, hvalue, hhas⟩ := ih hstep
    refine ⟨s', m, hs', fun m' hm' => hkeep m' (List.mem_cons_of_mem _ hm'), hm, hkind, ?_, hhas⟩
    have hnext : ((s.table.insert (.create (.event 0)) (.event 0)).next) = s.table.next + 1 :=
      Handles.State.insert_next
    rw [hvalue]
    show (s.table.insert (.create (.event 0)) (.event 0)).next + BitVec.ofNat 64 n = _
    rw [hnext, Nat.add_comm n 1, BitVec.ofNat_add, BitVec.add_assoc]
    rfl

def fakeMapping : Minted := ⟨.fake, 0, 0x100000⟩

theorem fake_close_takes_object : ∃ s s' m, namespaces.Reachable s ∧ m ∈ s.live ∧
    m.kind = .table ∧ s.Has m ∧ fakeMapping ∈ s.live ∧
    namespaces.next s (.close .closeHandle fakeMapping) = some s' ∧ ¬ s'.Has m := by
  have hfake : namespaces.Reachable (startState.give .fake 0 startState.makeFakeHandle) :=
    .step (a := .makeFakeHandle) (.start startState_init) trivial rfl
  obtain ⟨s, m, hs, hkeep, hm, hkind, hvalue, hhas⟩ := exists_table_entry 0xf0000 hfake
  have hlive : fakeMapping ∈ s.live := hkeep fakeMapping List.mem_cons_self
  have hplace : m.value = 0x100000 := hvalue
  refine ⟨s, _, m, hs, hm, hkind, hhas, hlive, if_pos (Or.inl hlive), ?_⟩
  unfold State.Has
  rw [hkind]
  show ¬ (((s.table.close (.closeHandle 0x100000) 0x100000).objects m.value).isSome = true)
  rw [hplace, Handles.State.close_objects_self rfl]
  exact Bool.false_ne_true

theorem namespaces_meet :
    (∃ s, namespaces.exec startState fakeAndTpm = some s ∧
      s.live = [⟨.tpm, 0, 0x100000⟩, ⟨.fake, 0, 0x100000⟩] ∧ ¬ Disjoint s) ∧
    (∃ s, namespaces.exec startState threeHeaps = some s ∧
      s.live = [⟨.heap, 1, 0x0001000000000003⟩, ⟨.heap, 1, 0x0001000000000003⟩] ∧
      ¬ Disjoint s) ∧
    ∃ s s' m, namespaces.Reachable s ∧ m ∈ s.live ∧ m.kind = .table ∧ s.Has m ∧
      fakeMapping ∈ s.live ∧ namespaces.next s (.close .closeHandle fakeMapping) = some s' ∧
      ¬ s'.Has m := by
  refine ⟨?_, ?_, fake_close_takes_object⟩
  · refine ⟨_, rfl, rfl, ?_⟩
    intro h
    exact absurd h.distinct (by decide)
  · refine ⟨_, rfl, by decide, ?_⟩
    intro h
    exact absurd h.distinct (by decide)

end WinCompat.Handles.Namespaces
