import WinCompat.Gpu.D3d12
import WinCompat.Lib.Machine

/-!
# Command lists and their command buffers

A command list of `d3d12/src/lib.rs` has two flags; its `VkCommandBuffer` has a state of its own. Here
both sides run: the functions of `D3d12` for the flags, beside them the command buffers as Vulkan has
them, and the pools of the allocators. Every command buffer is begun with `ONE_TIME_SUBMIT`, so it is
invalid once it has executed.

The two sides stay together in a run (`Faithful`) exactly if no `close` and no `reset` fails and each
list is executed at most once for each time that it is recorded (`faithful_iff`).
-/

namespace WinCompat.Gpu.D3d12

open Lib Lib.Fallible

/-- The states of a command buffer; a freed one is not in any. -/
inductive BufferState
  | initial
  | recording
  | executable
  | pending
  | invalid
  deriving DecidableEq

/-- What belongs to a list beside its flags. -/
structure Slot where
  buffer : Nat
  /-- The allocator that its `Arc` keeps alive. -/
  allocator : Nat

inductive Fault
  | recordedOutside
  | submittedUnready
  deriving DecidableEq

structure Host (ι κ : Type) where
  world : World ι κ
  /-- The lists that were created and not dropped. -/
  alive : List ι := []
  slot : ι → Slot
  /-- It was created or reset, and not closed since. -/
  opened : ι → Bool
  /-- Command buffers from here on have not been allocated yet. -/
  next : Nat := 0
  state : Nat → BufferState := fun _ => .initial
  /-- How often a command buffer was freed. -/
  frees : Nat → Nat := fun _ => 0
  /-- Those that no list ever had: they go with their pool. -/
  unowned : List Nat := []
  /-- Allocators from here on have not been created yet. -/
  allocators : Nat := 0
  /-- The allocators that the program itself holds. -/
  held : List Nat := []
  /-- How often the pool of an allocator was destroyed. -/
  destroyed : Nat → Nat := fun _ => 0
  faults : List Fault := []

inductive Action (ι : Type)
  | createAllocator
  | dropAllocator (a : Nat)
  | createCommandList (i : ι) (a : Nat) (o : GraphicsCommandList.Resetting)
  /-- An operation that records commands. -/
  | record (i : ι)
  | close (i : ι) (finish : Outcome)
  | reset (i : ι) (a : Nat) (o : GraphicsCommandList.Resetting)
  | execute (lists : List ι) (o : Executing)
  | drop (i : ι)

variable {ι κ : Type}

/-- Vulkan returned a command buffer. -/
def GraphicsCommandList.Resetting.Allocated (o : Resetting) : Bool :=
  match o.allocate with
  | .ok (_ + 1) => true
  | .ok 0 | .error _ => false

namespace Host

/-- Some `Arc` of the allocator is left. -/
def InUse (s : Host ι κ) (a : Nat) : Prop := a ∈ s.held ∨ ∃ i ∈ s.alive, (s.slot i).allocator = a

/-- Somebody is yet to free the command buffer: its list, or its pool. -/
def Kept (s : Host ι κ) (b : Nat) : Prop := b ∈ s.unowned ∨ ∃ i ∈ s.alive, (s.slot i).buffer = b

instance (s : Host ι κ) (a : Nat) : Decidable (s.InUse a) :=
  inferInstanceAs (Decidable (_ ∨ ∃ i ∈ s.alive, _))

instance (s : Host ι κ) (b : Nat) : Decidable (s.Kept b) :=
  inferInstanceAs (Decidable (_ ∨ ∃ i ∈ s.alive, _))

/-- The last `Arc` takes the pool with it. -/
def release (s : Host ι κ) (a : Nat) : Host ι κ :=
  { s with
    destroyed :=
      if s.InUse a then s.destroyed else Function.update s.destroyed a (s.destroyed a + 1) }

def free (s : Host ι κ) (b : Nat) : Host ι κ :=
  { s with frees := Function.update s.frees b (s.frees b + 1) }

def setState (s : Host ι κ) (b : Nat) (state : BufferState) : Host ι κ :=
  { s with state := Function.update s.state b state }

/-- The command buffer that is allocated next. -/
def allocate (s : Host ι κ) (state : BufferState) : Host ι κ :=
  { s.setState s.next state with next := s.next + 1 }

/-- A command buffer that could not be begun, and that no list has. -/
def leave (s : Host ι κ) : Host ι κ :=
  { s.allocate .initial with unowned := s.next :: s.unowned }

variable [DecidableEq ι]

def setSlot (s : Host ι κ) (i : ι) (slot : Slot) : Host ι κ :=
  { s with slot := Function.update s.slot i slot }

def setOpened (s : Host ι κ) (i : ι) (opened : Bool) : Host ι κ :=
  { s with opened := Function.update s.opened i opened }

/-- A list on a command buffer that records. -/
def add (s : Host ι κ) (i : ι) (a : Nat) : Host ι κ :=
  { ((s.allocate .recording).setSlot i ⟨s.next, a⟩).setOpened i true with
    alive := i :: s.alive
    world := s.world.setList i fun _ => {} }

def createCommandList (s : Host ι κ) (i : ι) (a : Nat) (o : GraphicsCommandList.Resetting) :
    Host ι κ :=
  if o.Allocated then if o.begin = none then s.add i a else s.leave else s

/-- What is recorded is recorded into the command buffer, whatever its state. -/
def record (s : Host ι κ) (i : ι) : Host ι κ :=
  match (GraphicsCommandList.requireRecording i s.world).1 with
  | .error _ => s
  | .ok _ =>
    if s.state (s.slot i).buffer = .recording then s
    else { s with faults := .recordedOutside :: s.faults }

/-- Where `vkEndCommandBuffer` is called, it ends the recording or makes the command buffer invalid. -/
def close (s : Host ι κ) (i : ι) (finish : Outcome) : Host ι κ :=
  let s' := { s with world := (GraphicsCommandList.close i finish s.world).2 }
  if (s.world.lists i).closed = false ∧ (s.world.lists i).recording = true then
    match finish with
    | none => (s'.setState (s.slot i).buffer .executable).setOpened i false
    | some _ => s'.setState (s.slot i).buffer .invalid
  else s'

/-- What `reset` begins with: the old command buffer is freed, and the `Arc` of the old allocator is
    replaced. -/
def detach (s : Host ι κ) (i : ι) (a : Nat) : Host ι κ :=
  ((s.free (s.slot i).buffer).setSlot i { s.slot i with allocator := a }).release
    (s.slot i).allocator

def reset (s : Host ι κ) (i : ι) (a : Nat) (o : GraphicsCommandList.Resetting) : Host ι κ :=
  let s' := { s.detach i a with world := (GraphicsCommandList.reset i o s.world).2 }
  if o.Allocated then
    if o.begin = none then ((s'.allocate .recording).setSlot i ⟨s.next, a⟩).setOpened i true
    else (s'.allocate .initial).setSlot i ⟨s.next, a⟩
  else s'

/-- The command buffers get as far as the queue. -/
def Submits (s : Host ι κ) (lists : List ι) (o : Executing) : Prop :=
  lists ≠ [] ∧ (∀ i ∈ lists, (s.world.lists i).closed = true) ∧ o.fence = none ∧ o.submit = none

instance (s : Host ι κ) (lists : List ι) (o : Executing) : Decidable (s.Submits lists o) :=
  inferInstanceAs (Decidable (_ ∧ _))

/-- Each may be submitted, and none is twice: they are not begun for simultaneous use. -/
def Ready (s : Host ι κ) (lists : List ι) : Prop :=
  lists.Nodup ∧ ∀ i ∈ lists, s.state (s.slot i).buffer = .executable

instance (s : Host ι κ) (lists : List ι) : Decidable (s.Ready lists) :=
  inferInstanceAs (Decidable (_ ∧ _))

/-- What has executed is invalid. If the wait fails, nothing says that it has. -/
def execute (s : Host ι κ) (lists : List ι) (o : Executing) : Host ι κ :=
  let s' := { s with world := (executeCommandLists lists o s.world).2 }
  if s.Submits lists o then
    { s' with
      state := fun b =>
        if ∃ i ∈ lists, (s.slot i).buffer = b then if o.wait = none then .invalid else .pending
        else s.state b
      faults := if s.Ready lists then s.faults else .submittedUnready :: s.faults }
  else s'

/-- Drops the list, and with it its `Arc`. -/
def drop (s : Host ι κ) (i : ι) : Host ι κ :=
  { s.free (s.slot i).buffer with alive := s.alive.filter (· ≠ i) }.release (s.slot i).allocator

end Host

/-- The program uses lists that there are, and allocators that it holds. -/
def buffers [DecidableEq ι] : Machine (Host ι κ) (Action ι) where
  init s := s.alive = []
  next s
    | .createAllocator =>
      some { s with allocators := s.allocators + 1, held := s.allocators :: s.held }
    | .dropAllocator a =>
      if a ∈ s.held then some ({ s with held := s.held.filter (· ≠ a) }.release a) else none
    | .createCommandList i a o =>
      if i ∉ s.alive ∧ a ∈ s.held then some (s.createCommandList i a o) else none
    | .record i => if i ∈ s.alive then some (s.record i) else none
    | .close i finish => if i ∈ s.alive then some (s.close i finish) else none
    | .reset i a o => if i ∈ s.alive ∧ a ∈ s.held then some (s.reset i a o) else none
    | .execute lists o => if ∀ i ∈ lists, i ∈ s.alive then some (s.execute lists o) else none
    | .drop i => if i ∈ s.alive then some (s.drop i) else none

/-! ## Being faithful -/

/-- The flags say which state the command buffer is in. -/
structure Mirrors (l : GraphicsCommandList) (opened : Bool) (state : BufferState) : Prop where
  recording : l.recording = true ↔ state = .recording
  closed : l.closed = true ↔ state = .executable ∨ state = .pending ∨ state = .invalid
  either : l.closed = !l.recording
  opened : opened = l.recording

/-- A list mirrors its command buffer as long as it lives, and what it has allocated is freed
    once. -/
structure Faithful (s : Host ι κ) : Prop where
  faultless : s.faults = []
  mirrors : ∀ i ∈ s.alive, Mirrors (s.world.lists i) (s.opened i) (s.state (s.slot i).buffer)
  freed : ∀ b < s.next, s.frees b = if s.Kept b then 0 else 1
  pools : ∀ a < s.allocators, s.destroyed a = if s.InUse a then 0 else 1

/-- What holds of every run, however it goes. -/
structure WellFormed (s : Host ι κ) : Prop where
  buffer_lt : ∀ i ∈ s.alive, (s.slot i).buffer < s.next
  buffer_inj : ∀ i ∈ s.alive, ∀ j ∈ s.alive, (s.slot i).buffer = (s.slot j).buffer → i = j
  unowned_lt : ∀ b ∈ s.unowned, b < s.next
  unowned_ne : ∀ b ∈ s.unowned, ∀ i ∈ s.alive, (s.slot i).buffer ≠ b
  frees_new : ∀ b, s.next ≤ b → s.frees b = 0
  allocator_lt : ∀ i ∈ s.alive, (s.slot i).allocator < s.allocators
  held_lt : ∀ a ∈ s.held, a < s.allocators
  destroyed_new : ∀ a, s.allocators ≤ a → s.destroyed a = 0

/-- Only these steps take a list and its command buffer apart. -/
def Action.Keeps (s : Host ι κ) : Action ι → Prop
  | .close i finish =>
    (s.world.lists i).closed = false ∧ (s.world.lists i).recording = true → finish = none
  | .reset _ _ o => o.Allocated = true ∧ o.begin = none
  | .execute lists o => s.Submits lists o → s.Ready lists
  | .createAllocator | .dropAllocator _ | .createCommandList _ _ _ | .record _ | .drop _ => True

section Steps

variable {i : ι}

/-! ## What the pieces keep -/

theorem pools_release (s s₁ : Host ι κ) {a : Nat}
    (hpools : ∀ a < s.allocators, s.destroyed a = if s.InUse a then 0 else 1)
    (hdestroyed : s₁.destroyed = s.destroyed) (ha : a < s.allocators) (hused : s.InUse a)
    (hother : ∀ a', a' ≠ a → (s₁.InUse a' ↔ s.InUse a')) :
    ∀ a' < s.allocators, (s₁.release a).destroyed a' = if s₁.InUse a' then 0 else 1 := by
  intro a' ha'
  have hold : s.destroyed a = 0 := by rw [hpools a ha, if_pos hused]
  show (if s₁.InUse a then s₁.destroyed else Function.update s₁.destroyed a _) a' = _
  rw [hdestroyed]
  by_cases hsame : a' = a
  · subst hsame
    by_cases hstill : s₁.InUse a'
    · rw [if_pos hstill, if_pos hstill, hold]
    · rw [if_neg hstill, if_neg hstill, Function.update_self, hold]
  · have hkept : s.destroyed a' = if s₁.InUse a' then 0 else 1 := by
      rw [hpools a' ha']
      exact if_congr (hother a' hsame).symm rfl rfl
    by_cases hstill : s₁.InUse a
    · rw [if_pos hstill, hkept]
    · rw [if_neg hstill, Function.update_of_ne hsame, hkept]

theorem destroyed_release (s s₁ : Host ι κ) {a : Nat} (h : ∀ a, s.allocators ≤ a → s.destroyed a = 0)
    (hdestroyed : s₁.destroyed = s.destroyed) (ha : a < s.allocators) :
    ∀ a', s.allocators ≤ a' → (s₁.release a).destroyed a' = 0 := by
  intro a' ha'
  show (if s₁.InUse a then s₁.destroyed else Function.update s₁.destroyed a _) a' = 0
  rw [hdestroyed]
  by_cases hstill : s₁.InUse a
  · rw [if_pos hstill, h a' ha']
  · rw [if_neg hstill, Function.update_of_ne (Nat.ne_of_gt (Nat.lt_of_lt_of_le ha ha')), h a' ha']

theorem mem_filter_ne {α : Type} [DecidableEq α] {l : List α} {x y : α} :
    x ∈ l.filter (· ≠ y) ↔ x ∈ l ∧ x ≠ y := by simp

/-! ## Steps that keep everything -/

variable {s : Host ι κ} {a : Nat}

theorem keeps_createAllocator (hw : WellFormed s) (h : Faithful s) :
    WellFormed { s with allocators := s.allocators + 1, held := s.allocators :: s.held } ∧
      Faithful { s with allocators := s.allocators + 1, held := s.allocators :: s.held } := by
  refine ⟨{ hw with
    allocator_lt := fun i hi => Nat.lt_succ_of_lt (hw.allocator_lt i hi)
    held_lt := fun a ha => ?_
    destroyed_new := fun a ha => hw.destroyed_new a (Nat.le_of_succ_le ha) }, { h with
    pools := fun a ha => ?_ }⟩
  · rcases List.mem_cons.mp ha with rfl | ha
    · exact Nat.lt_succ_self _
    · exact Nat.lt_succ_of_lt (hw.held_lt a ha)
  · rcases Nat.lt_succ_iff_lt_or_eq.mp ha with hlt | heq
    · refine (h.pools a hlt).trans (if_congr ?_ rfl rfl)
      have hne : a ≠ s.allocators := Nat.ne_of_lt hlt
      exact or_congr_left (by simp [hne])
    · refine (hw.destroyed_new a (Nat.le_of_eq heq.symm)).trans (if_pos (Or.inl ?_)).symm
      exact heq ▸ List.mem_cons_self

theorem keeps_dropAllocator (hw : WellFormed s) (h : Faithful s) (ha : a ∈ s.held) :
    WellFormed ({ s with held := s.held.filter (· ≠ a) }.release a) ∧
      Faithful ({ s with held := s.held.filter (· ≠ a) }.release a) := by
  have hlt := hw.held_lt a ha
  refine ⟨{ hw with
    held_lt := fun a' ha' => hw.held_lt a' (mem_filter_ne.mp ha').1
    destroyed_new := destroyed_release s _ hw.destroyed_new rfl hlt }, { h with
    pools := pools_release s _ h.pools rfl hlt (Or.inl ha) fun a' hne => ?_ }⟩
  exact or_congr_left (by simp [hne])

theorem frees_next (hw : WellFormed s) : s.frees s.next = 0 := hw.frees_new s.next (Nat.le_refl _)

theorem state_allocate (hw : WellFormed s) {state : BufferState} {j : ι} (hj : j ∈ s.alive) :
    (s.allocate state).state (s.slot j).buffer = s.state (s.slot j).buffer :=
  Function.update_of_ne (Nat.ne_of_lt (hw.buffer_lt j hj)) _ _

theorem keeps_leave (hw : WellFormed s) (h : Faithful s) : WellFormed s.leave ∧ Faithful s.leave := by
  refine ⟨{ hw with
    buffer_lt := fun j hj => Nat.lt_succ_of_lt (hw.buffer_lt j hj)
    unowned_lt := ?_
    unowned_ne := ?_
    frees_new := fun b hb => hw.frees_new b (Nat.le_of_succ_le hb) }, { h with
    mirrors := fun j hj => ?_
    freed := fun b hb => ?_ }⟩
  · exact List.forall_mem_cons.mpr ⟨Nat.lt_succ_self _, fun b hb =>
      Nat.lt_succ_of_lt (hw.unowned_lt b hb)⟩
  · exact List.forall_mem_cons.mpr ⟨fun j hj => Nat.ne_of_lt (hw.buffer_lt j hj), hw.unowned_ne⟩
  · show Mirrors _ _ ((s.allocate .initial).state (s.slot j).buffer)
    rw [state_allocate hw hj]
    exact h.mirrors j hj
  · rcases Nat.lt_succ_iff_lt_or_eq.mp hb with hlt | rfl
    · refine (h.freed b hlt).trans (if_congr (or_congr_left ?_) rfl rfl)
      exact (List.mem_cons.trans (or_iff_right (Nat.ne_of_lt hlt))).symm
    · exact (frees_next hw).trans (if_pos (Or.inl List.mem_cons_self)).symm

variable [DecidableEq ι]

theorem mirrors_new : Mirrors {} true .recording :=
  ⟨iff_of_true rfl rfl, by simp, rfl, rfl⟩

theorem exists_add (hi : i ∉ s.alive) (p : Slot → Prop) :
    (∃ j ∈ (s.add i a).alive, p ((s.add i a).slot j)) ↔
      p ⟨s.next, a⟩ ∨ ∃ j ∈ s.alive, p (s.slot j) := by
  have hself : (s.add i a).slot i = ⟨s.next, a⟩ := Function.update_self _ _ _
  have hslot : ∀ j ∈ s.alive, (s.add i a).slot j = s.slot j := fun j hj =>
    Function.update_of_ne (ne_of_mem_of_not_mem hj hi) _ _
  show (∃ j ∈ i :: s.alive, p ((s.add i a).slot j)) ↔ _
  rw [List.exists_mem_cons_iff, hself]
  refine or_congr_right (exists_congr fun j => and_congr_right fun hj => ?_)
  rw [hslot j hj]

theorem keeps_add (hw : WellFormed s) (h : Faithful s) (hi : i ∉ s.alive) (ha : a ∈ s.held) :
    WellFormed (s.add i a) ∧ Faithful (s.add i a) := by
  have hslot : ∀ j ∈ s.alive, (s.add i a).slot j = s.slot j := fun j hj =>
    Function.update_of_ne (ne_of_mem_of_not_mem hj hi) _ _
  have hself : (s.add i a).slot i = ⟨s.next, a⟩ := Function.update_self _ _ _
  have hlt : ∀ j ∈ s.alive, (s.slot j).buffer ≠ s.next := fun j hj => Nat.ne_of_lt (hw.buffer_lt j hj)
  constructor
  · refine { hw with
      buffer_lt := List.forall_mem_cons.mpr ⟨?_, fun j hj => ?_⟩
      buffer_inj := ?_
      unowned_lt := fun b hb => Nat.lt_succ_of_lt (hw.unowned_lt b hb)
      unowned_ne := fun b hb => List.forall_mem_cons.mpr ⟨?_, fun j hj => ?_⟩
      frees_new := fun b hb => hw.frees_new b (Nat.le_of_succ_le hb)
      allocator_lt := List.forall_mem_cons.mpr ⟨?_, fun j hj => ?_⟩ }
    · rw [hself]
      exact Nat.lt_succ_self _
    · rw [hslot j hj]
      exact Nat.lt_succ_of_lt (hw.buffer_lt j hj)
    · refine List.forall_mem_cons.mpr ⟨List.forall_mem_cons.mpr ⟨fun _ => rfl, ?_⟩, fun j hj =>
        List.forall_mem_cons.mpr ⟨?_, fun k hk => ?_⟩⟩
      · intro k hk heq
        rw [hself, hslot k hk] at heq
        exact absurd heq.symm (hlt k hk)
      · intro heq
        rw [hself, hslot j hj] at heq
        exact absurd heq (hlt j hj)
      · rw [hslot j hj, hslot k hk]
        exact hw.buffer_inj j hj k hk
    · rw [hself]
      exact Nat.ne_of_gt (hw.unowned_lt b hb)
    · rw [hslot j hj]
      exact hw.unowned_ne b hb j hj
    · rw [hself]
      exact hw.held_lt a ha
    · rw [hslot j hj]
      exact hw.allocator_lt j hj
  · refine { h with
      mirrors := List.forall_mem_cons.mpr ⟨?_, fun j hj => ?_⟩
      freed := fun b hb => ?_
      pools := fun a' ha' => ?_ }
    · have hlist : (s.add i a).world.lists i = {} := Function.update_self _ _ _
      have hstate : (s.add i a).state s.next = .recording := Function.update_self _ _ _
      have hopened : (s.add i a).opened i = true := Function.update_self _ _ _
      rw [hself, hlist, hstate, hopened]
      exact mirrors_new
    · have hlist : (s.add i a).world.lists j = s.world.lists j :=
        Function.update_of_ne (ne_of_mem_of_not_mem hj hi) _ _
      have hopened : (s.add i a).opened j = s.opened j :=
        Function.update_of_ne (ne_of_mem_of_not_mem hj hi) _ _
      rw [hslot j hj, hlist, hopened]
      show Mirrors _ _ ((s.allocate .recording).state _)
      rw [state_allocate hw hj]
      exact h.mirrors j hj
    · have hkept : (s.add i a).Kept b ↔ b = s.next ∨ s.Kept b := by
        refine (or_congr_right (exists_add hi fun slot => slot.buffer = b)).trans ?_
        unfold Host.Kept
        rw [eq_comm (a := b)]
        exact or_left_comm
      rcases Nat.lt_succ_iff_lt_or_eq.mp hb with hb | rfl
      · exact (h.freed b hb).trans (if_congr (hkept.trans (or_iff_right (Nat.ne_of_lt hb))).symm rfl rfl)
      · exact (frees_next hw).trans (if_pos (hkept.mpr (Or.inl rfl))).symm
    · refine (h.pools a' ha').trans (if_congr ?_ rfl rfl)
      refine Iff.trans ?_ (or_congr_right (exists_add hi fun slot => slot.allocator = a')).symm
      constructor
      · exact fun hused => hused.imp_right Or.inr
      · rintro (hheld | rfl | hused)
        · exact Or.inl hheld
        · exact Or.inl ha
        · exact Or.inr hused

theorem keeps_drop (hw : WellFormed s) (h : Faithful s) (hi : i ∈ s.alive) :
    WellFormed (s.drop i) ∧ Faithful (s.drop i) := by
  have hlt := hw.allocator_lt i hi
  have halive : ∀ j, j ∈ s.alive.filter (· ≠ i) → j ∈ s.alive := fun j hj => (mem_filter_ne.mp hj).1
  refine ⟨{
    buffer_lt := fun j hj => hw.buffer_lt j (halive j hj)
    buffer_inj := fun j hj k hk => hw.buffer_inj j (halive j hj) k (halive k hk)
    unowned_lt := hw.unowned_lt
    unowned_ne := fun b hb j hj => hw.unowned_ne b hb j (halive j hj)
    frees_new := fun b hb => ?_
    allocator_lt := fun j hj => hw.allocator_lt j (halive j hj)
    held_lt := hw.held_lt
    destroyed_new := destroyed_release s _ hw.destroyed_new rfl hlt }, {
    faultless := h.faultless
    mirrors := fun j hj => h.mirrors j (halive j hj)
    freed := fun b hb => ?_
    pools := pools_release s _ h.pools rfl hlt (Or.inr ⟨i, hi, rfl⟩) fun a' hne => ?_ }⟩
  · have hne : b ≠ (s.slot i).buffer := Nat.ne_of_gt (Nat.lt_of_lt_of_le (hw.buffer_lt i hi) hb)
    exact (Function.update_of_ne hne _ _).trans (hw.frees_new b hb)
  · show Function.update s.frees (s.slot i).buffer _ b = _
    by_cases hsame : b = (s.slot i).buffer
    · have hold : s.frees b = 0 := (h.freed b hb).trans (if_pos (Or.inr ⟨i, hi, hsame.symm⟩))
      have hgone : ¬(s.drop i).Kept b := by
        rintro (hunowned | ⟨j, hj, hbuffer⟩)
        · exact hw.unowned_ne b hunowned i hi hsame.symm
        · obtain ⟨hj, hne⟩ := mem_filter_ne.mp hj
          exact hne (hw.buffer_inj j hj i hi (hbuffer.trans hsame))
      rw [if_neg hgone, hsame, Function.update_self, ← hsame, hold]
    · rw [Function.update_of_ne hsame, h.freed b hb]
      refine if_congr (or_congr_right ⟨?_, ?_⟩) rfl rfl
      · rintro ⟨j, hj, hbuffer⟩
        exact ⟨j, mem_filter_ne.mpr ⟨hj, fun hji => hsame (hji ▸ hbuffer.symm)⟩, hbuffer⟩
      · rintro ⟨j, hj, hbuffer⟩
        exact ⟨j, halive j hj, hbuffer⟩
  · refine or_congr_right ⟨?_, ?_⟩
    · rintro ⟨j, hj, hallocator⟩
      exact ⟨j, halive j hj, hallocator⟩
    · rintro ⟨j, hj, hallocator⟩
      exact ⟨j, mem_filter_ne.mpr ⟨hj, fun hji => hne (hji ▸ hallocator.symm)⟩, hallocator⟩

omit [DecidableEq ι] in
theorem record_eq (h : Faithful s) (hi : i ∈ s.alive) : s.record i = s := by
  unfold Host.record GraphicsCommandList.requireRecording
  rw [bind_get]
  have hm := h.mirrors i hi
  cases hclosed : (s.world.lists i).closed with
  | true => rfl
  | false =>
    cases hrecording : (s.world.lists i).recording with
    | false => rfl
    | true =>
      simp only [Bool.false_eq_true, if_false, Bool.not_true]
      exact if_pos (hm.recording.mp hrecording)

theorem close_lists (i : ι) (finish : Outcome) (w : World ι κ) :
    (GraphicsCommandList.close i finish w).2 =
      if ((w.lists i).closed = false ∧ (w.lists i).recording = true) ∧ finish = none then
        w.setList i fun l => { l with recording := false, closed := true }
      else w := by
  unfold GraphicsCommandList.close
  rw [bind_get]
  cases (w.lists i).closed with
  | true => simp [pure_apply]
  | false =>
    cases (w.lists i).recording with
    | false => simp
    | true => cases finish <;> simp [vkErr]

theorem close_iff (hw : WellFormed s) (h : Faithful s) (hi : i ∈ s.alive) (finish : Outcome) :
    WellFormed (s.close i finish) ∧
      (Faithful (s.close i finish) ↔
        ((s.world.lists i).closed = false ∧ (s.world.lists i).recording = true → finish = none)) := by
  unfold Host.close
  rw [close_lists]
  by_cases hrecords : (s.world.lists i).closed = false ∧ (s.world.lists i).recording = true
  · rw [if_pos hrecords, imp_iff_right hrecords]
    cases finish with
    | none =>
      rw [if_pos ⟨hrecords, rfl⟩]
      refine ⟨{ hw with }, iff_of_true { h with mirrors := fun j hj => ?_ } rfl⟩
      show Mirrors (Function.update s.world.lists i _ j) (Function.update s.opened i false j)
        (Function.update s.state (s.slot i).buffer .executable (s.slot j).buffer)
      by_cases hji : j = i
      · subst hji
        rw [Function.update_self, Function.update_self, Function.update_self]
        exact ⟨by simp, by simp, rfl, rfl⟩
      · have hbuffer := mt (hw.buffer_inj j hj i hi) hji
        rw [Function.update_of_ne hji, Function.update_of_ne hji, Function.update_of_ne hbuffer]
        exact h.mirrors j hj
    | some e =>
      rw [if_neg fun hok => by cases hok.2]
      refine ⟨{ hw with }, iff_of_false (fun hfaithful => ?_) (Option.some_ne_none e)⟩
      have hstate : BufferState.invalid = .recording :=
        (Function.update_self _ _ s.state).symm.trans
          ((hfaithful.mirrors i hi).recording.mp hrecords.2)
      cases hstate
  · rw [if_neg hrecords, if_neg fun hok => hrecords hok.1]
    exact ⟨hw, iff_of_true h fun hyes => absurd hyes hrecords⟩

omit [DecidableEq ι] in
theorem execute_lists (lists : List ι) (o : Executing) (w : World ι κ) :
    (executeCommandLists lists o w).2.lists = w.lists := by
  unfold executeCommandLists
  rw [bind_get]
  by_cases hempty : lists = []
  · rw [if_pos hempty]
    rfl
  · rw [if_neg hempty]
    cases hany : lists.any fun i => !(w.lists i).closed with
    | true => rfl
    | false =>
      rcases o with ⟨_ | _, _ | _, _ | _⟩ <;> rfl

theorem execute_iff (hw : WellFormed s) (h : Faithful s) (lists : List ι) (o : Executing)
    (halive : ∀ i ∈ lists, i ∈ s.alive) :
    WellFormed (s.execute lists o) ∧
      (Faithful (s.execute lists o) ↔ (s.Submits lists o → s.Ready lists)) := by
  have hlists : ((executeCommandLists lists o : Device ι κ Unit) s.world).2.lists = s.world.lists :=
    execute_lists lists o s.world
  unfold Host.execute
  by_cases hsubmits : s.Submits lists o
  · rw [if_pos hsubmits, imp_iff_right hsubmits]
    refine ⟨{ hw with }, ?_⟩
    by_cases hready : s.Ready lists
    · rw [if_pos hready]
      refine iff_of_true { h with mirrors := fun j hj => ?_ } hready
      have hm := h.mirrors j hj
      simp only [hlists]
      by_cases hmine : ∃ i ∈ lists, (s.slot i).buffer = (s.slot j).buffer
      · rw [if_pos hmine]
        obtain ⟨i, hi, hbuffer⟩ := hmine
        obtain rfl := hw.buffer_inj i (halive i hi) j hj hbuffer
        have hclosed := hsubmits.2.1 i hi
        have hrecording : (s.world.lists i).recording = false := by
          simpa [hclosed] using hm.either
        refine ⟨?_, ?_, hm.either, hm.opened⟩
        · rw [hrecording]
          cases o.wait <;> simp
        · rw [hclosed]
          cases o.wait <;> simp
      · rw [if_neg hmine]
        exact hm
    · rw [if_neg hready]
      exact iff_of_false (fun hfaithful => by cases hfaithful.faultless) hready
  · rw [if_neg hsubmits]
    refine ⟨{ hw with }, iff_of_true { h with mirrors := fun j hj => ?_ } fun hyes =>
      absurd hyes hsubmits⟩
    simp only [hlists]
    exact h.mirrors j hj

/-! ## Resetting -/

theorem reset_lists (i : ι) (o : GraphicsCommandList.Resetting) (w : World ι κ) :
    (∀ j, j ≠ i → (GraphicsCommandList.reset i o w).2.lists j = w.lists j) ∧
      (if o.Allocated = true ∧ o.begin = none then
        ((GraphicsCommandList.reset i o w).2.lists i).recording = true ∧
          ((GraphicsCommandList.reset i o w).2.lists i).closed = false
      else
        ((GraphicsCommandList.reset i o w).2.lists i).recording = (w.lists i).recording ∧
          ((GraphicsCommandList.reset i o w).2.lists i).closed = (w.lists i).closed) := by
  obtain ⟨allocate, begin⟩ := o
  unfold GraphicsCommandList.reset GraphicsCommandList.Resetting.Allocated
  rcases allocate with text | n
  · exact ⟨fun j hj => Function.update_of_ne hj _ _, by simp [Fallible.throw, World.setList]⟩
  · cases n with
    | zero => exact ⟨fun j hj => Function.update_of_ne hj _ _, by simp [Fallible.throw, World.setList]⟩
    | succ n =>
      cases begin with
      | some text => exact ⟨fun j hj => Function.update_of_ne hj _ _, by simp [vkErr, World.setList]⟩
      | none =>
        refine ⟨fun j hj => ?_, by simp [vkErr, World.setList]⟩
        exact (Function.update_of_ne hj _ _).trans (Function.update_of_ne hj _ _)

theorem exists_update {x : Slot} (hi : i ∈ s.alive) (p : Slot → Prop) :
    (∃ j ∈ s.alive, p (Function.update s.slot i x j)) ↔
      p x ∨ ∃ j ∈ s.alive, j ≠ i ∧ p (s.slot j) := by
  constructor
  · rintro ⟨j, hj, hp⟩
    by_cases hji : j = i
    · subst hji
      rw [Function.update_self] at hp
      exact Or.inl hp
    · rw [Function.update_of_ne hji] at hp
      exact Or.inr ⟨j, hj, hji, hp⟩
  · rintro (hp | ⟨j, hj, hji, hp⟩)
    · exact ⟨i, hi, by rwa [Function.update_self]⟩
    · exact ⟨j, hj, by rwa [Function.update_of_ne hji]⟩

theorem buffer_detach (j : ι) : ((s.detach i a).slot j).buffer = (s.slot j).buffer := by
  show (Function.update s.slot i _ j).buffer = _
  by_cases hji : j = i
  · rw [hji, Function.update_self]
  · rw [Function.update_of_ne hji]

theorem wellFormed_detach (hw : WellFormed s) (hi : i ∈ s.alive) (ha : a ∈ s.held) :
    WellFormed (s.detach i a) where
  buffer_lt j hj := by
    rw [buffer_detach]
    exact hw.buffer_lt j hj
  buffer_inj j hj k hk h := hw.buffer_inj j hj k hk
    ((buffer_detach j).symm.trans (h.trans (buffer_detach k)))
  unowned_lt := hw.unowned_lt
  unowned_ne b hb j hj h := hw.unowned_ne b hb j hj ((buffer_detach j).symm.trans h)
  frees_new b hb := (Function.update_of_ne (Nat.ne_of_gt
    (Nat.lt_of_lt_of_le (hw.buffer_lt i hi) hb)) _ _).trans (hw.frees_new b hb)
  allocator_lt j hj := by
    show (Function.update s.slot i _ j).allocator < _
    by_cases hji : j = i
    · rw [hji, Function.update_self]
      exact hw.held_lt a ha
    · rw [Function.update_of_ne hji]
      exact hw.allocator_lt j hj
  held_lt := hw.held_lt
  destroyed_new := destroyed_release s _ hw.destroyed_new rfl (hw.allocator_lt i hi)

theorem wellFormed_allocate (hw : WellFormed s) (ha : a < s.allocators)
    (state : BufferState) : WellFormed ((s.allocate state).setSlot i ⟨s.next, a⟩) := by
  have hslot : ∀ j, j ≠ i → Function.update s.slot i ⟨s.next, a⟩ j = s.slot j := fun j hj =>
    Function.update_of_ne hj _ _
  have hself : Function.update s.slot i ⟨s.next, a⟩ i = ⟨s.next, a⟩ := Function.update_self _ _ _
  refine { hw with
    buffer_lt := fun j hj => ?_
    buffer_inj := fun j hj k hk heq => ?_
    unowned_lt := fun b hb => Nat.lt_succ_of_lt (hw.unowned_lt b hb)
    unowned_ne := fun b hb j hj => ?_
    frees_new := fun b hb => hw.frees_new b (Nat.le_of_succ_le hb)
    allocator_lt := fun j hj => ?_ }
  · show (Function.update s.slot i _ j).buffer < s.next + 1
    by_cases hji : j = i
    · rw [hji, hself]
      exact Nat.lt_succ_self _
    · rw [hslot j hji]
      exact Nat.lt_succ_of_lt (hw.buffer_lt j hj)
  · replace heq : (Function.update s.slot i ⟨s.next, a⟩ j).buffer =
      (Function.update s.slot i ⟨s.next, a⟩ k).buffer := heq
    by_cases hji : j = i
    · by_cases hki : k = i
      · exact hji.trans hki.symm
      · rw [hji, hself, hslot k hki] at heq
        exact absurd heq.symm (Nat.ne_of_lt (hw.buffer_lt k hk))
    · by_cases hki : k = i
      · rw [hki, hself, hslot j hji] at heq
        exact absurd heq (Nat.ne_of_lt (hw.buffer_lt j hj))
      · rw [hslot j hji, hslot k hki] at heq
        exact hw.buffer_inj j hj k hk heq
  · show (Function.update s.slot i _ j).buffer ≠ b
    by_cases hji : j = i
    · rw [hji, hself]
      exact Nat.ne_of_gt (hw.unowned_lt b hb)
    · rw [hslot j hji]
      exact hw.unowned_ne b hb j hj
  · show (Function.update s.slot i _ j).allocator < s.allocators
    by_cases hji : j = i
    · rw [hji, hself]
      exact ha
    · rw [hslot j hji]
      exact hw.allocator_lt j hj

theorem faithful_reset (hw : WellFormed s) (h : Faithful s) (hi : i ∈ s.alive) (ha : a ∈ s.held)
    {o : GraphicsCommandList.Resetting} (hok : o.Allocated = true ∧ o.begin = none) :
    Faithful (s.reset i a o) := by
  obtain ⟨hothers, hflags⟩ := reset_lists i o s.world
  rw [if_pos hok] at hflags
  have hdetached : ∀ p : Slot → Prop, (∃ j ∈ s.alive, p ((s.detach i a).slot j)) ↔
      p ⟨(s.slot i).buffer, a⟩ ∨ ∃ j ∈ s.alive, j ≠ i ∧ p (s.slot j) := exists_update hi
  have hupdated : ∀ p : Slot → Prop,
      (∃ j ∈ s.alive, p (Function.update (s.detach i a).slot i ⟨s.next, a⟩ j)) ↔
        p ⟨s.next, a⟩ ∨ ∃ j ∈ s.alive, j ≠ i ∧ p (s.slot j) := by
    intro p
    show (∃ j ∈ s.alive, p (Function.update (Function.update s.slot i _) i _ j)) ↔ _
    rw [Function.update_idem]
    exact exists_update hi p
  have hold : s.frees (s.slot i).buffer = 0 :=
    (h.freed _ (hw.buffer_lt i hi)).trans (if_pos (Or.inr ⟨i, hi, rfl⟩))
  unfold Host.reset
  rw [if_pos hok.1, if_pos hok.2]
  refine ⟨h.faultless, fun j hj => ?_, fun b hb => ?_, fun a' ha' => ?_⟩
  · show Mirrors (((GraphicsCommandList.reset i o : Device ι κ Unit) s.world).2.lists j)
      (Function.update s.opened i true j)
      (Function.update s.state s.next .recording
        (Function.update (s.detach i a).slot i ⟨s.next, a⟩ j).buffer)
    by_cases hji : j = i
    · subst hji
      rw [Function.update_self, Function.update_self, Function.update_self]
      obtain ⟨hrecording, hclosed⟩ := hflags
      exact ⟨iff_of_true hrecording rfl, by simp [hclosed], by rw [hclosed, hrecording]; rfl,
        hrecording.symm⟩
    · rw [Function.update_of_ne hji, Function.update_of_ne hji, buffer_detach,
        Function.update_of_ne (Nat.ne_of_lt (hw.buffer_lt j hj)), hothers j hji]
      exact h.mirrors j hj
  · refine Eq.trans ?_
      (if_congr (or_congr_right (hupdated fun slot => slot.buffer = b).symm) rfl rfl)
    show Function.update s.frees (s.slot i).buffer _ b = _
    by_cases hsame : b = (s.slot i).buffer
    · subst hsame
      rw [Function.update_self, hold, if_neg]
      rintro (hunowned | hnext | ⟨j, hj, hji, hbuffer⟩)
      · exact hw.unowned_ne _ hunowned i hi rfl
      · exact Nat.ne_of_gt (hw.buffer_lt i hi) hnext
      · exact hji (hw.buffer_inj j hj i hi hbuffer)
    · rw [Function.update_of_ne hsame]
      rcases Nat.lt_succ_iff_lt_or_eq.mp hb with hb | rfl
      · refine (h.freed b hb).trans (if_congr (or_congr_right ⟨?_, ?_⟩) rfl rfl)
        · rintro ⟨j, hj, hbuffer⟩
          exact Or.inr ⟨j, hj, fun hji => hsame (hji ▸ hbuffer.symm), hbuffer⟩
        · rintro (hnext | ⟨j, hj, -, hbuffer⟩)
          · exact absurd hnext (Nat.ne_of_gt hb)
          · exact ⟨j, hj, hbuffer⟩
      · exact (frees_next hw).trans (if_pos (Or.inr (Or.inl rfl))).symm
  · refine (pools_release s ((s.free (s.slot i).buffer).setSlot i { s.slot i with allocator := a })
      h.pools rfl (hw.allocator_lt i hi) (Or.inr ⟨i, hi, rfl⟩) (fun a'' hne => ?_) a' ha').trans
      (if_congr ?_ rfl rfl)
    · refine (or_congr_right (hdetached fun slot => slot.allocator = a'')).trans ⟨?_, ?_⟩
      · rintro (hheld | rfl | ⟨j, hj, -, hused⟩)
        · exact Or.inl hheld
        · exact Or.inl ha
        · exact Or.inr ⟨j, hj, hused⟩
      · rintro (hheld | ⟨j, hj, hused⟩)
        · exact Or.inl hheld
        · exact Or.inr (Or.inr ⟨j, hj, fun hji => hne (hji ▸ hused.symm), hused⟩)
    · exact or_congr_right ((hdetached fun slot => slot.allocator = a').trans
        (hupdated fun slot => slot.allocator = a').symm)

theorem not_faithful_reset (hw : WellFormed s) (h : Faithful s) (hi : i ∈ s.alive)
    {o : GraphicsCommandList.Resetting} (hfails : ¬(o.Allocated = true ∧ o.begin = none)) :
    ¬Faithful (s.reset i a o) := by
  intro hfaithful
  obtain ⟨-, hflags⟩ := reset_lists i o s.world
  rw [if_neg hfails] at hflags
  unfold Host.reset at hfaithful
  by_cases hallocated : o.Allocated = true
  · have hbegin : o.begin ≠ none := fun hb => hfails ⟨hallocated, hb⟩
    rw [if_pos hallocated, if_neg hbegin] at hfaithful
    have hm := hfaithful.mirrors i hi
    replace hm : Mirrors (((GraphicsCommandList.reset i o : Device ι κ Unit) s.world).2.lists i)
        (s.opened i)
        (Function.update s.state s.next .initial
          (Function.update (s.detach i a).slot i ⟨s.next, a⟩ i).buffer) := hm
    rw [Function.update_self, Function.update_self] at hm
    have hrecording := hm.recording
    have hclosed := hm.closed
    rw [hm.either] at hclosed
    simp at hrecording hclosed
    simp [hrecording] at hclosed
  · rw [if_neg hallocated] at hfaithful
    have hold : s.frees (s.slot i).buffer = 0 :=
      (h.freed _ (hw.buffer_lt i hi)).trans (if_pos (Or.inr ⟨i, hi, rfl⟩))
    have hfreed := (hfaithful.freed (s.slot i).buffer (hw.buffer_lt i hi)).trans
      (if_pos (Or.inr ⟨i, hi, buffer_detach i⟩))
    replace hfreed : Function.update s.frees (s.slot i).buffer _ (s.slot i).buffer = 0 := hfreed
    rw [Function.update_self] at hfreed
    cases hfreed

theorem reset_iff (hw : WellFormed s) (h : Faithful s) (hi : i ∈ s.alive) (ha : a ∈ s.held)
    (o : GraphicsCommandList.Resetting) :
    WellFormed (s.reset i a o) ∧
      (Faithful (s.reset i a o) ↔ o.Allocated = true ∧ o.begin = none) := by
  constructor
  · have hdetached := wellFormed_detach hw hi ha
    unfold Host.reset
    by_cases hallocated : o.Allocated = true
    · rw [if_pos hallocated]
      by_cases hbegin : o.begin = none
      · rw [if_pos hbegin]
        exact { wellFormed_allocate (i := i) hdetached (hw.held_lt a ha) .recording with }
      · rw [if_neg hbegin]
        exact { wellFormed_allocate (i := i) hdetached (hw.held_lt a ha) .initial with }
    · rw [if_neg hallocated]
      exact { hdetached with }
  · constructor
    · exact fun hfaithful => by_contra fun hfails => not_faithful_reset hw h hi hfails hfaithful
    · exact faithful_reset hw h hi ha

/-! ## Runs -/

/-- A device on which nothing has been created. -/
def Host.start (world : World ι κ) : Host ι κ where
  world := world
  slot _ := ⟨0, 0⟩
  opened _ := false

/-- In a run, lists and command buffers stay together in every state exactly if no step takes them
    apart. -/
theorem faithful_iff (world : World ι κ) (actions : List (Action ι)) :
    buffers.Throughout Faithful (Host.start world) actions ↔
      buffers.Steps (fun s a => a.Keeps s) (Host.start world) actions := by
  have hnone : ∀ {p : ι → Prop}, ∀ i ∈ (Host.start world).alive, p i := fun i hi =>
    absurd hi List.not_mem_nil
  refine Machine.throughout_iff_steps (I := WellFormed) ?_
    ⟨hnone, hnone, fun b hb => absurd hb List.not_mem_nil, fun b hb => absurd hb List.not_mem_nil,
      fun _ _ => rfl, hnone, fun a ha => absurd ha List.not_mem_nil, fun _ _ => rfl⟩
    ⟨rfl, hnone, fun b hb => absurd hb (Nat.not_lt_zero b), fun a ha => absurd ha (Nat.not_lt_zero a)⟩
  intro s action s' hw h hn
  have hkeeps : ∀ {s₁ : Host ι κ}, some s₁ = some s' → WellFormed s₁ ∧ Faithful s₁ →
      WellFormed s' ∧ (Faithful s' ↔ True) := by
    intro s₁ hn hboth
    obtain rfl := Option.some.inj hn
    exact ⟨hboth.1, iff_of_true hboth.2 trivial⟩
  cases action with
  | createAllocator => exact hkeeps hn (keeps_createAllocator hw h)
  | dropAllocator a =>
    obtain ⟨ha, hn⟩ := Option.ite_none_right_eq_some.mp hn
    exact hkeeps hn (keeps_dropAllocator hw h ha)
  | createCommandList i a o =>
    obtain ⟨⟨hi, ha⟩, hn⟩ := Option.ite_none_right_eq_some.mp hn
    refine hkeeps hn ?_
    unfold Host.createCommandList
    by_cases hallocated : o.Allocated = true
    · rw [if_pos hallocated]
      by_cases hbegin : o.begin = none
      · rw [if_pos hbegin]
        exact keeps_add hw h hi ha
      · rw [if_neg hbegin]
        exact keeps_leave hw h
    · rw [if_neg hallocated]
      exact ⟨hw, h⟩
  | record i =>
    obtain ⟨hi, hn⟩ := Option.ite_none_right_eq_some.mp hn
    exact hkeeps hn (by rw [record_eq h hi]; exact ⟨hw, h⟩)
  | close i finish =>
    obtain ⟨hi, hn⟩ := Option.ite_none_right_eq_some.mp hn
    obtain rfl := Option.some.inj hn
    exact close_iff hw h hi finish
  | reset i a o =>
    obtain ⟨⟨hi, ha⟩, hn⟩ := Option.ite_none_right_eq_some.mp hn
    obtain rfl := Option.some.inj hn
    exact reset_iff hw h hi ha o
  | execute lists o =>
    obtain ⟨halive, hn⟩ := Option.ite_none_right_eq_some.mp hn
    obtain rfl := Option.some.inj hn
    exact execute_iff hw h lists o halive
  | drop i =>
    obtain ⟨hi, hn⟩ := Option.ite_none_right_eq_some.mp hn
    exact hkeeps hn (keeps_drop hw h hi)

end Steps

/-- One list and no heap slots. -/
def oneList : World Unit Unit := ⟨fun _ => {}, fun _ => ⟨.rtv, []⟩, {}⟩

/-- A list that is executed again, without a reset. -/
def executedTwice : List (Action Unit) :=
  [.createAllocator, .createCommandList () 0 {}, .close () none, .execute [()] {}, .execute [()] {}]

theorem executedTwice_not_faithful :
    ¬buffers.Throughout Faithful (Host.start oneList) executedTwice := by
  intro h
  have hclosed := ((h.2 _ rfl).2 _ rfl).2 _ rfl
  have hfaults := ((hclosed.2 _ rfl).2 _ rfl).faultless
  cases hfaults

end WinCompat.Gpu.D3d12
