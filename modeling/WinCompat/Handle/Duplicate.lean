import WinCompat.Handle.Table

/-!
# `DuplicateHandle` and the lifetime of an object

`win32-kernel32/src/extras2.rs`, `duplicate_handle`, over the handle table. A duplicate is the number
of its source: the table has one entry for an object however many handles the guest has on it, and
does not count them. So the first close of any of them takes the object away.

`slots` are the handles the guest has been given, each with the number of the creation it goes back
to, `created` what the creations put into the table, and `closes` the closes so far with what they
returned. The guest closes each of its handles at most once.
-/

namespace WinCompat.Handles.Duplicate

open Lib

structure Slot where
  value : Handle
  serial : Nat
  isOpen : Bool
  deriving DecidableEq

structure State where
  table : Handles.State
  created : List Object
  slots : List Slot
  closes : List (Nat × Bool)

/-- `duplicate_handle`: what it writes to `*dst_h`. -/
def duplicateHandle (_srcProc srcH _dstProc : Handle) (_access : BitVec 32) (_inherit : BitVec 32)
    (_options : BitVec 32) : Handle := srcH

/-- What `handle::close` returns. -/
def closeResult (t : Handles.State) (h : Handle) : Bool :=
  Handles.State.isPseudoHandle h || (t.objects h).isSome

inductive CloseFn
  | closeHandle
  | ntClose
  deriving DecidableEq

def CloseFn.call (fn : CloseFn) (h : Handle) : Handles.Call :=
  match fn with
  | closeHandle => .closeHandle h
  | ntClose => .ntClose h

inductive Call
  | create (o : Object)
  | openFile (fd : Nat)
  /-- `DuplicateHandle` of one of the guest's handles. -/
  | duplicate (i : Nat) (srcProc dstProc : Handle) (access inherit options : BitVec 32)
  | close (fn : CloseFn) (i : Nat)
  deriving DecidableEq

namespace State

/-- The guest has a handle on a new object. -/
def give (s : State) (t : Handles.State) (o : Object) : State :=
  { s with
    table := t
    created := s.created ++ [o]
    slots := s.slots ++ [⟨s.table.next, s.created.length, true⟩] }

def duplicate (s : State) (slot : Slot) (value : Handle) : State :=
  { s with slots := s.slots ++ [⟨value, slot.serial, true⟩] }

def close (s : State) (fn : CloseFn) (i : Nat) (slot : Slot) : State :=
  { s with
    table := s.table.close (fn.call slot.value) slot.value
    slots := s.slots.set i { slot with isOpen := false }
    closes := s.closes ++ [(slot.serial, closeResult s.table slot.value)] }

/-- A handle that the guest has and has not closed. -/
def openSlot (s : State) (i : Nat) : Option Slot :=
  (s.slots[i]?).filter Slot.isOpen

def next (s : State) : Call → Option State
  | .create o => (s.table.run (.create o)).map fun t => s.give t o
  | .openFile fd => (s.table.run (.openFileHandle (some fd))).map fun t =>
      s.give t (.file ⟨fd, s.table.opens.length⟩)
  | .duplicate i srcProc dstProc access inherit options => (s.openSlot i).map fun slot =>
      s.duplicate slot (duplicateHandle srcProc slot.value dstProc access inherit options)
  | .close fn i => (s.openSlot i).map fun slot => s.close fn i slot

/-- The objects of which some handle has been closed. -/
def closed (s : State) : List Nat := s.closes.map Prod.fst

/-- What the closes of the object's handles have returned, in order. -/
def results (s : State) (n : Nat) : List Bool := (s.closes.filter (·.1 = n)).map Prod.snd

end State

def duplicates : Machine State Call where
  init s := handles.init s.table ∧ s.created = [] ∧ s.slots = [] ∧ s.closes = []
  next := State.next

/-- Handles that are independent of each other: an object is there as long as one of its handles is
    open, and every close of an open handle succeeds. -/
structure Independent (s : State) : Prop where
  usable : ∀ slot ∈ s.slots, slot.isOpen = true → (s.table.objects slot.value).isSome
  succeeds : ∀ r ∈ s.closes, r.2 = true

/-- Handles that share one entry: all handles of an object are one number, and the object is there,
    with its descriptor open if it is a file, until the first close of any of them, whatever of these
    calls are made on the handles of other objects. That close succeeds and the later ones do not. -/
structure Shared (s : State) : Prop where
  sameValue : ∀ slot ∈ s.slots, ∀ slot' ∈ s.slots, slot.serial = slot'.serial →
    slot.value = slot'.value
  usable : ∀ slot ∈ s.slots, slot.serial ∉ s.closed →
    ∃ o, s.created[slot.serial]? = some o ∧ s.table.objects slot.value = some o ∧
      ∀ f, o = .file f → s.table.fds f.fd = some (.opened f.serial)
  gone : ∀ slot ∈ s.slots, slot.serial ∈ s.closed → s.table.objects slot.value = none
  results : ∀ n ∈ s.closed, ∃ k, s.results n = true :: List.replicate k false

/-! ## The numbers the table gives out -/

/-- The handle of creation number `n`. -/
def valueOf (n : Nat) : Handle := BitVec.ofNat 64 (0x10000 + n)

/-- How many creations give numbers that are different, and no pseudo-handles. -/
def maxCreated : Nat := 2 ^ 64 - 0x10002

theorem valueOf_inj {m n : Nat} (hm : m ≤ maxCreated) (hn : n ≤ maxCreated) :
    valueOf m = valueOf n ↔ m = n := by
  unfold valueOf
  unfold maxCreated at hm hn
  rw [← BitVec.toNat_inj, BitVec.toNat_ofNat, BitVec.toNat_ofNat]
  omega

theorem valueOf_succ (n : Nat) : valueOf n + 1 = valueOf (n + 1) := by
  unfold valueOf
  rw [← Nat.add_assoc, BitVec.ofNat_add (0x10000 + n) 1]
  rfl

theorem valueOf_real {n : Nat} (hn : n < maxCreated) :
    Handles.State.isPseudoHandle (valueOf n) = false := by
  unfold maxCreated at hn
  have hvalue : (valueOf n).toNat = 0x10000 + n := by
    unfold valueOf
    rw [BitVec.toNat_ofNat]
    exact Nat.mod_eq_of_lt (by omega)
  have hones : (BitVec.allOnes 64).toNat = 2 ^ 64 - 1 := rfl
  have hbelow : (BitVec.allOnes 64 - 1).toNat = 2 ^ 64 - 2 := rfl
  unfold Handles.State.isPseudoHandle
  simp only [Bool.or_eq_false_iff, decide_eq_false_iff_not, ← BitVec.toNat_inj, hvalue, hones,
    hbelow]
  omega

/-! ## The invariant -/

/-- The table is the list of what was created, less what was closed. -/
structure Inv (s : State) : Prop where
  owned : Owned s.table
  next : s.table.next = valueOf s.created.length
  slots : ∀ slot ∈ s.slots,
    slot.serial < s.created.length ∧ slot.value = valueOf slot.serial
  entries : ∀ n o, s.created[n]? = some o →
    s.table.objects (valueOf n) = if n ∈ s.closed then none else some o
  /-- Nothing else is in the table. -/
  issued : ∀ h, s.table.objects h ≠ none → ∃ n < s.created.length, h = valueOf n
  closed : ∀ n ∈ s.closed, n < s.created.length
  results : ∀ n ∈ s.closed, ∃ k, s.results n = true :: List.replicate k false

variable {s s' : State}

theorem Inv.shared (h : Inv s) : Shared s := by
  constructor
  · intro slot hslot slot' hslot' hserial
    rw [(h.slots slot hslot).2, (h.slots slot' hslot').2, hserial]
  · intro slot hslot hopen
    obtain ⟨hlt, hvalue⟩ := h.slots slot hslot
    have hget : s.created[slot.serial]? = some s.created[slot.serial] := List.getElem?_eq_getElem hlt
    have hentry := h.entries _ _ hget
    rw [if_neg hopen, ← hvalue] at hentry
    refine ⟨_, hget, hentry, ?_⟩
    intro f hf
    rw [hf] at hentry
    exact h.owned.fdOpen _ f hentry
  · intro slot hslot hclosed
    obtain ⟨hlt, hvalue⟩ := h.slots slot hslot
    have hentry := h.entries _ _ (List.getElem?_eq_getElem hlt)
    rw [if_pos hclosed, ← hvalue] at hentry
    exact hentry
  · exact h.results

theorem inv_init (h : duplicates.init s) : Inv s := by
  obtain ⟨htable, hcreated, hslots, hcloses⟩ := h
  constructor
  · exact owned_start htable
  · rw [hcreated]
    exact htable.2.1
  · simp [hslots]
  · simp [hcreated]
  · intro h hne
    exact absurd (htable.1 h) hne
  · simp [State.closed, hcloses]
  · simp [State.closed, hcloses]

theorem Inv.next_free (h : Inv s) (hfew : s.created.length ≤ maxCreated) :
    s.table.objects s.table.next = none := by
  by_contra hne
  obtain ⟨n, hn, heq⟩ := h.issued _ hne
  rw [h.next] at heq
  have hsame := (valueOf_inj hfew (Nat.le_of_lt (Nat.lt_of_lt_of_le hn hfew))).mp heq
  exact Nat.lt_irrefl _ (hsame ▸ hn)

/-- A new object, under a number that no handle has. -/
theorem Inv.give (h : Inv s) {t : Handles.State} {o : Object} (howned : Owned t)
    (hobjects : t.objects = Function.update s.table.objects s.table.next (some o))
    (hnext : t.next = s.table.next + 1) (hfew : s.created.length < maxCreated) :
    Inv (s.give t o) := by
  have hlength : (s.created ++ [o]).length = s.created.length + 1 := List.length_append
  constructor
  · exact howned
  · show t.next = valueOf (s.created ++ [o]).length
    rw [hnext, h.next, hlength, valueOf_succ]
  · intro slot hslot
    show slot.serial < (s.created ++ [o]).length ∧ _
    rw [hlength]
    rcases List.mem_append.mp hslot with hslot | hslot
    · obtain ⟨hlt, hvalue⟩ := h.slots slot hslot
      exact ⟨Nat.lt_succ_of_lt hlt, hvalue⟩
    · cases List.mem_singleton.mp hslot
      exact ⟨Nat.lt_succ_self _, h.next⟩
  · intro n o' hget
    show t.objects (valueOf n) = if n ∈ s.closed then none else some o'
    have hn : n < (s.created ++ [o]).length := (List.getElem?_eq_some_iff.mp hget).1
    rw [hlength] at hn
    have hle : n ≤ s.created.length := Nat.le_of_lt_succ hn
    rw [hobjects, h.next]
    by_cases hlast : n = s.created.length
    · subst hlast
      have hopen : s.created.length ∉ s.closed := fun hc => Nat.lt_irrefl _ (h.closed _ hc)
      have ho : o = o' := by simpa [State.give] using hget
      rw [Function.update_self, if_neg hopen, ho]
    · have hne : valueOf n ≠ valueOf s.created.length := by
        intro heq
        apply hlast
        exact (valueOf_inj (Nat.le_trans hle (Nat.le_of_lt hfew)) (Nat.le_of_lt hfew)).mp heq
      rw [Function.update_of_ne hne]
      apply h.entries
      rw [← hget]
      exact (List.getElem?_append_left (Nat.lt_of_le_of_ne hle hlast)).symm
  · intro v hne
    show ∃ n < (s.created ++ [o]).length, v = valueOf n
    rw [hlength]
    by_cases hv : v = s.table.next
    · exact ⟨s.created.length, Nat.lt_succ_self _, hv.trans h.next⟩
    · have hold : s.table.objects v ≠ none := by
        have hne : t.objects v ≠ none := hne
        rwa [hobjects, Function.update_of_ne hv] at hne
      obtain ⟨n, hn, heq⟩ := h.issued v hold
      exact ⟨n, Nat.lt_succ_of_lt hn, heq⟩
  · intro n hn
    show n < (s.created ++ [o]).length
    rw [hlength]
    exact Nat.lt_succ_of_lt (h.closed n hn)
  · exact h.results

variable {slot : Slot}

theorem mem_of_openSlot {i : Nat} (h : s.openSlot i = some slot) : slot ∈ s.slots := by
  unfold State.openSlot at h
  rw [Option.filter_eq_some_iff] at h
  exact List.mem_of_getElem? h.1

theorem Inv.duplicate (h : Inv s) (hmem : slot ∈ s.slots) : Inv (s.duplicate slot slot.value) := by
  refine ⟨h.owned, h.next, ?_, h.entries, h.issued, h.closed, h.results⟩
  intro slot' hslot'
  rcases List.mem_append.mp hslot' with hslot' | hslot'
  · exact h.slots slot' hslot'
  · cases List.mem_singleton.mp hslot'
    exact h.slots slot hmem

variable {fn : CloseFn}

theorem closed_close {i n : Nat} :
    n ∈ (s.close fn i slot).closed ↔ n ∈ s.closed ∨ n = slot.serial := by
  simp [State.closed, State.close]

theorem results_close {i : Nat} (n : Nat) :
    (s.close fn i slot).results n =
      if slot.serial = n then s.results n ++ [closeResult s.table slot.value]
      else s.results n := by
  unfold State.results State.close
  by_cases hn : slot.serial = n
  · simp [hn]
  · simp [hn]

theorem results_eq_nil {n : Nat} (h : n ∉ s.closed) : s.results n = [] := by
  unfold State.results
  rw [List.map_eq_nil_iff, List.filter_eq_nil_iff]
  intro r hr heq
  apply h
  rw [← of_decide_eq_true heq]
  exact List.mem_map_of_mem hr

theorem Inv.close (h : Inv s) (hfew : s.created.length ≤ maxCreated) {i : Nat}
    (hmem : slot ∈ s.slots) : Inv (s.close fn i slot) := by
  obtain ⟨hlt, hvalue⟩ := h.slots slot hmem
  have hreal : Handles.State.isPseudoHandle slot.value = false := by
    rw [hvalue]
    exact valueOf_real (Nat.lt_of_lt_of_le hlt hfew)
  have hgone : (s.table.close (fn.call slot.value) slot.value).objects slot.value = none :=
    Handles.State.close_objects_self hreal
  have hentry := h.entries _ _ (List.getElem?_eq_getElem hlt)
  rw [← hvalue] at hentry
  constructor
  · cases fn with
    | closeHandle =>
      have hclean : Clean s.table (.closeHandle slot.value) := trivial
      exact h.owned.step hclean rfl
    | ntClose =>
      have hclean : Clean s.table (.ntClose slot.value) := trivial
      exact h.owned.step hclean rfl
  · exact Handles.State.close_next.trans h.next
  · intro slot' hslot'
    rcases List.mem_or_eq_of_mem_set hslot' with hslot' | rfl
    · exact h.slots slot' hslot'
    · exact ⟨hlt, hvalue⟩
  · intro n o hget
    show (s.table.close (fn.call slot.value) slot.value).objects (valueOf n) = _
    by_cases hn : n = slot.serial
    · subst hn
      rw [if_pos (closed_close.mpr (Or.inr rfl)), ← hvalue]
      exact hgone
    · have hlen : n < s.created.length := (List.getElem?_eq_some_iff.mp hget).1
      have hne : valueOf n ≠ slot.value := by
        rw [hvalue]
        intro heq
        apply hn
        exact (valueOf_inj (Nat.le_of_lt (Nat.lt_of_lt_of_le hlen hfew))
          (Nat.le_of_lt (Nat.lt_of_lt_of_le hlt hfew))).mp heq
      have hsame : n ∈ (s.close fn i slot).closed ↔ n ∈ s.closed := by simp [closed_close, hn]
      rw [Handles.State.close_objects_ne hne, h.entries n o hget]
      simp only [hsame]
  · intro v hne
    apply h.issued
    by_cases hv : v = slot.value
    · subst hv
      exact absurd hgone hne
    · rw [← Handles.State.close_objects_ne hv]
      exact hne
  · intro n hn
    rcases closed_close.mp hn with hn | rfl
    · exact h.closed n hn
    · exact hlt
  · intro n hn
    rw [results_close]
    by_cases hserial : slot.serial = n
    · subst hserial
      rw [if_pos rfl]
      unfold closeResult
      rw [hreal, hentry, Bool.false_or]
      by_cases hbefore : slot.serial ∈ s.closed
      · obtain ⟨k, hk⟩ := h.results _ hbefore
        refine ⟨k + 1, ?_⟩
        rw [if_pos hbefore, hk, List.replicate_succ', List.cons_append]
        rfl
      · refine ⟨0, ?_⟩
        rw [if_neg hbefore, results_eq_nil hbefore]
        rfl
    · rw [if_neg hserial]
      rcases closed_close.mp hn with hn | heq
      · exact h.results n hn
      · exact absurd heq.symm hserial

/-! ## Every run -/

theorem created_le {c : Call} (hn : duplicates.next s c = some s') :
    s.created.length ≤ s'.created.length := by
  cases c with
  | create o | openFile fd =>
    obtain ⟨t, -, rfl⟩ := Option.map_eq_some_iff.mp hn
    simp [State.give]
  | duplicate i srcProc dstProc access inherit options | close fn i =>
    obtain ⟨slot, -, rfl⟩ := Option.map_eq_some_iff.mp hn
    exact Nat.le_refl _

theorem Inv.step (h : Inv s) {c : Call} (hn : duplicates.next s c = some s')
    (hfew : s'.created.length ≤ maxCreated) : Inv s' := by
  cases c with
  | create o =>
    obtain ⟨t, hrun, rfl⟩ := Option.map_eq_some_iff.mp hn
    have hlt : s.created.length < maxCreated :=
      Nat.lt_of_succ_le (by simpa [State.give] using hfew)
    have hfree := h.next_free (Nat.le_of_lt hlt)
    have hclean : Clean s.table (.create o) := fun f => by rw [hfree]; nofun
    have howned := h.owned.step hclean hrun
    obtain ⟨hobjects, hnext⟩ := run_create hrun
    exact h.give howned hobjects hnext hlt
  | openFile fd =>
    obtain ⟨t, hrun, rfl⟩ := Option.map_eq_some_iff.mp hn
    have hlt : s.created.length < maxCreated :=
      Nat.lt_of_succ_le (by simpa [State.give] using hfew)
    have hfree := h.next_free (Nat.le_of_lt hlt)
    have hclean : Clean s.table (.openFileHandle (some fd)) := fun f => by rw [hfree]; nofun
    have howned := h.owned.step hclean hrun
    obtain ⟨hobjects, hnext⟩ := run_openFile hrun
    exact h.give howned hobjects hnext hlt
  | duplicate i srcProc dstProc access inherit options =>
    obtain ⟨slot, hslot, rfl⟩ := Option.map_eq_some_iff.mp hn
    exact h.duplicate (mem_of_openSlot hslot)
  | close fn i =>
    obtain ⟨slot, hslot, rfl⟩ := Option.map_eq_some_iff.mp hn
    exact h.close hfew (mem_of_openSlot hslot)

/-- **A duplicate shares its original's entry**, in every run that creates fewer objects than there
    are numbers for. -/
theorem duplicates_share (h : duplicates.Reachable s) (hfew : s.created.length ≤ maxCreated) :
    Shared s := by
  have hinv : s.created.length ≤ maxCreated → Inv s := by
    apply h.invariant
    · exact fun _ hinit _ => inv_init hinit
    · intro s c s' ih hn hle
      exact (ih (Nat.le_trans (created_le hn) hle)).step hn hle
  exact (hinv hfew).shared

def startState : State := ⟨fresh, [], [], []⟩

theorem startState_init : duplicates.init startState := ⟨fresh_init, rfl, rfl, rfl⟩

/-- An event is duplicated, and both handles are closed. -/
def closeBoth : List Call :=
  [.create (.event 0), .duplicate 0 0 0 0 0 0, .close .closeHandle 0, .close .closeHandle 1]

/-- The same as far as the first close. -/
def closeOriginal : List Call := closeBoth.take 3

theorem duplicates_share_closeBoth : ∃ s, duplicates.exec startState closeBoth = some s ∧
    s.results 0 = [true, false] ∧ Shared s := by
  refine ⟨_, rfl, rfl, ?_⟩
  apply duplicates_share
  · exact Machine.reachable_of_exec (l := closeBoth) startState_init rfl
  · show 1 ≤ maxCreated
    decide

/-- The duplicate is still open and names nothing. -/
theorem duplicates_not_independent :
    (∃ s, duplicates.exec startState closeOriginal = some s ∧
      s.slots = [⟨0x10000, 0, false⟩, ⟨0x10000, 0, true⟩] ∧ s.table.objects 0x10000 = none ∧
      ¬ Independent s) ∧
    ∃ s, duplicates.exec startState closeBoth = some s ∧ s.closes = [(0, true), (0, false)] ∧
      ¬ Independent s := by
  constructor
  · refine ⟨_, rfl, rfl, rfl, ?_⟩
    intro h
    have husable := h.usable ⟨0x10000, 0, true⟩ (by decide) rfl
    exact absurd husable (by decide)
  · refine ⟨_, rfl, rfl, ?_⟩
    intro h
    exact absurd (h.succeeds (0, false) (by decide)) (by decide)

end WinCompat.Handles.Duplicate
