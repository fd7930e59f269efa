import WinCompat.Handle.Table

/-!
# The ids of threads

`create_thread`, `get_thread_id` and `get_current_thread_id` of `ntapi/src/thread.rs`, in any number
of threads. The id of a new thread lies in a cell that it shares with its maker. The thread stores it
before it runs the guest's routine, and nobody waits for that: what is read earlier is 0.
-/

namespace WinCompat.Thread.Identity

open Lib Handles

abbrev Id := BitVec 32

/-- What `gettid` answers in a thread of the host: a `pid_t` from 1 on. -/
structure Tid where
  value : BitVec 64
  bounds : 0 < value.toNat ∧ value.toNat < 2 ^ 31

/-- `get_current_thread_id` -/
def Tid.id (t : Tid) : Id := t.value.setWidth 32

theorem Tid.id_ne (t : Tid) : t.id ≠ 0 := by
  intro h
  have hbounds := t.bounds
  have hnat : t.value.toNat % 2 ^ 32 = 0 := by
    rw [← BitVec.toNat_setWidth]
    exact congrArg BitVec.toNat h
  omega

/-- Where a call of `create_thread` is, once the thread has been spawned. -/
inductive Maker
  | spawned
  /-- `*tid_out` has been written. -/
  | loaded
  | returned (h : Handle)
  deriving DecidableEq

/-- A thread that has been spawned. -/
structure Spawned where
  tid : Tid
  /-- `ThreadInner::tid` -/
  cell : Id
  maker : Maker
  /-- The thread has stored its id, and runs the guest's routine. -/
  running : Bool

/-- What is done with the id of thread number `i`. -/
inductive Event
  /-- The thread stores its id. -/
  | stored (i : Nat) (id : Id)
  /-- `CreateThread` writes it through `lpThreadId`. -/
  | wrote (i : Nat) (id : Id)
  /-- `GetThreadId` on a handle that names the thread returns it. -/
  | asked (i : Nat) (id : Id)
  /-- `GetCurrentThreadId` in the thread returns it. -/
  | current (i : Nat) (id : Id)
  deriving DecidableEq

structure State where
  table : Handles.State
  threads : Nat → Option Spawned
  /-- How many have been spawned. -/
  made : Nat
  /-- Newest first; no step looks at it. -/
  log : List Event

inductive Step
  /-- `create_thread` up to the spawn, which may fail. -/
  | spawn (start : Bool) (tid : Option Tid)
  /-- Thread `i` stores its id. -/
  | store (i : Nat)
  /-- Its maker reads the cell, if there is an out pointer. -/
  | load (i : Nat) (tidOut : Bool)
  /-- Its maker creates the handle and returns it. -/
  | create (i : Nat)
  | getThreadId (h : Handle)
  | getCurrentThreadId (i : Nat)
  /-- Anything else that is done with handles. -/
  | other (c : Call)

def next (s : State) : Step → Option State
  | .spawn start tid =>
      match start, tid with
      | true, some tid =>
          some { s with
            threads := Function.update s.threads s.made (some ⟨tid, 0, .spawned, false⟩)
            made := s.made + 1 }
      | _, _ => some s
  | .store i => do
      let t ← s.threads i
      if t.running then none
      else
        some { s with
          threads := Function.update s.threads i (some { t with cell := t.tid.id, running := true })
          log := .stored i t.tid.id :: s.log }
  | .load i tidOut => do
      let t ← s.threads i
      if t.maker = .spawned then
        some { s with
          threads := Function.update s.threads i (some { t with maker := .loaded })
          log := if tidOut then .wrote i t.cell :: s.log else s.log }
      else none
  | .create i => do
      let t ← s.threads i
      if t.maker = .loaded then
        some { s with
          table := s.table.insert (.create (.thread i)) (.thread i)
          threads := Function.update s.threads i (some { t with maker := .returned s.table.next }) }
      else none
  | .getThreadId h =>
      let table := s.table.inspect (.getThreadId h) h
      match s.table.objects h with
      | some (.thread i) => do
          let t ← s.threads i
          some { s with table, log := .asked i t.cell :: s.log }
      | _ => some { s with table }
  | .getCurrentThreadId i => do
      let t ← s.threads i
      if t.running then some { s with log := .current i t.tid.id :: s.log } else none
  | .other c =>
      match c with
      | .create (.thread _) => none
      | c => (s.table.run c).map fun table => { s with table }

def machine : Machine State Step where
  init s := handles.init s.table ∧ (∀ i, s.threads i = none) ∧ s.log = []
  next := next

/-! ## What is documented -/

/-- The id that thread `i` has stored. -/
def published (i : Nat) : List Event → Option Id
  | [] => none
  | .stored j id :: log => if j = i then some id else published i log
  | _ :: log => published i log

/-- The numbers about a thread: 0 until it stores its id, which is not 0, and then that id. The
    thread itself sees no other. -/
def Truthful : List Event → Prop
  | [] => True
  | .stored i id :: log => Truthful log ∧ id ≠ 0 ∧ published i log = none
  | .wrote i id :: log | .asked i id :: log => Truthful log ∧ id = (published i log).getD 0
  | .current i id :: log => Truthful log ∧ published i log = some id

/-- All the numbers about a thread are one, which is not 0. -/
def Same (log : List Event) : Prop :=
  ∀ i id id', (.wrote i id ∈ log ∨ .asked i id ∈ log ∨ .current i id ∈ log) →
    (.wrote i id' ∈ log ∨ .asked i id' ∈ log ∨ .current i id' ∈ log) → id = id' ∧ id ≠ 0

/-- What is kept: the cells are as the log says, and a handle that names a thread is the one that
    its `CreateThread` returned. -/
structure Inv (s : State) : Prop where
  truthful : Truthful s.log
  cells : ∀ i t, s.threads i = some t → t.cell = (published i s.log).getD 0 ∧
    published i s.log = if t.running then some t.tid.id else none
  fresh : ∀ i, s.made ≤ i → s.threads i = none ∧ published i s.log = none
  named : ∀ h i, s.table.objects h = some (.thread i) →
    ∃ t, s.threads i = some t ∧ t.maker = .returned h

/-! ## Handles -/

theorem inspect_objects (s : Handles.State) (c : Call) (h : Handle) :
    (s.inspect c h).objects = s.objects := by
  unfold State.inspect
  split
  · rfl
  · exact State.dropObject_objects

theorem pollAll_objects (s : Handles.State) (c : Call) (hs : List Handle) :
    (s.pollAll c hs).objects = s.objects := by
  induction hs generalizing s with
  | nil => rfl
  | cons h hs ih =>
    simp only [State.pollAll]
    split
    · exact inspect_objects s c h
    · rw [ih, inspect_objects]

theorem close_objects {s : Handles.State} {c : Call} {h k : Handle} {o : Object}
    (hk : (s.close c h).objects k = some o) : s.objects k = some o := by
  unfold State.close at hk
  split at hk
  · exact hk
  · split at hk
    · exact hk
    · rw [State.dropObject_objects] at hk
      dsimp only at hk
      by_cases hne : k = h
      · simp [hne] at hk
      · rwa [Function.update_of_ne hne] at hk

/-- No other call makes a handle that names a thread. -/
theorem run_thread {s s' : Handles.State} {c : Call} (hc : ∀ i, c ≠ .create (.thread i))
    (hn : s.run c = some s') {h : Handle} {i : Nat} (hi : s'.objects h = some (.thread i)) :
    s.objects h = some (.thread i) := by
  have hput : ∀ o : Object, (∀ i, o ≠ .thread i) →
      s'.objects = Function.update s.objects s.next (some o) → s.objects h = some (.thread i) := by
    intro o ho heq
    rw [heq] at hi
    by_cases hne : h = s.next
    · rw [hne, Function.update_self] at hi
      exact absurd (Option.some.inj hi) (ho i)
    · rwa [Function.update_of_ne hne] at hi
  cases c with
  | openFileHandle fd =>
    cases fd with
    | none => exact Option.some.inj hn ▸ hi
    | some fd => exact hput _ (fun _ => Object.noConfusion) (run_openFile hn).1
  | create o => exact hput o (fun i heq => hc i (heq ▸ rfl)) (run_create hn).1
  | waitForMultipleObjects handles polled =>
    simp only [State.run] at hn
    split at hn
    · cases hn
      rwa [pollAll_objects] at hi
    · cases hn
  | closeHandle | ntClose =>
    cases hn
    exact close_objects hi
  | readFile | writeFile =>
    cases hn
    exact hi
  | _ =>
    cases hn
    rwa [inspect_objects] at hi

/-! ## Every run -/

variable {s s' : State}

theorem Inv.put (hs : Inv s) {i made : Nat} {t : Spawned} {table : Handles.State}
    {log : List Event} (hlog : Truthful log) (hi : i < made) (hmade : s.made ≤ made)
    (hcell : t.cell = (published i log).getD 0 ∧
      published i log = if t.running then some t.tid.id else none)
    (hother : ∀ j, j ≠ i → published j log = published j s.log)
    (hnamed : ∀ h j, table.objects h = some (.thread j) →
      if j = i then t.maker = .returned h else s.table.objects h = some (.thread j)) :
    Inv ⟨table, Function.update s.threads i (some t), made, log⟩ := by
  refine ⟨hlog, fun j u hu => ?_, fun j hj => ?_, fun h j hj => ?_⟩ <;> dsimp only at *
  · by_cases hj : j = i
    · rw [hj, Function.update_self] at hu
      rw [hj, ← Option.some.inj hu]
      exact hcell
    · rw [Function.update_of_ne hj] at hu
      rw [hother j hj]
      exact hs.cells j u hu
  · have hne : j ≠ i := by omega
    rw [Function.update_of_ne hne, hother j hne]
    exact hs.fresh j (Nat.le_trans hmade hj)
  · have h' := hnamed h j hj
    by_cases hij : j = i
    · rw [if_pos hij] at h'
      exact ⟨t, by rw [hij, Function.update_self], h'⟩
    · rw [if_neg hij] at h'
      rw [Function.update_of_ne hij]
      exact hs.named h j h'

theorem Inv.made_lt (hs : Inv s) {i : Nat} {t : Spawned} (ht : s.threads i = some t) :
    i < s.made := by
  by_contra hle
  rw [(hs.fresh i (Nat.not_lt.mp hle)).1] at ht
  cases ht

theorem Inv.named_if (hs : Inv s) {i : Nat} {t t' : Spawned} (ht : s.threads i = some t)
    (hkeeps : ∀ h, t.maker = .returned h → t'.maker = .returned h) (h : Handle) (j : Nat)
    (hj : s.table.objects h = some (.thread j)) :
    if j = i then t'.maker = .returned h else s.table.objects h = some (.thread j) := by
  split
  · next hij =>
    obtain ⟨u, hu, hreturned⟩ := hs.named h j hj
    rw [hij, ht] at hu
    exact hkeeps h (Option.some.inj hu ▸ hreturned)
  · exact hj

theorem Inv.step (hs : Inv s) (a : Step) (hn : next s a = some s') : Inv s' := by
  cases a with
  | spawn start tid =>
    simp only [next] at hn
    split at hn
    · cases hn
      obtain ⟨hnone, hpub⟩ := hs.fresh s.made (Nat.le_refl _)
      refine hs.put hs.truthful (Nat.lt_succ_self _) (Nat.le_succ _) (by simp [hpub])
        (fun _ _ => rfl) fun h j hj => ?_
      obtain ⟨u, hu, -⟩ := hs.named h j hj
      have hne : j ≠ s.made := fun heq => by
        rw [heq, hnone] at hu
        cases hu
      rwa [if_neg hne]
    · cases hn
      exact hs
  | store i =>
    obtain ⟨t, ht, hn⟩ := Option.bind_eq_some_iff.mp hn
    split at hn
    · cases hn
    next hidle =>
    cases hn
    have hpub := (hs.cells i t ht).2
    rw [if_neg hidle] at hpub
    exact hs.put ⟨hs.truthful, t.tid.id_ne, hpub⟩ (hs.made_lt ht) (Nat.le_refl _)
      (by simp [published]) (fun j hj => if_neg (Ne.symm hj)) (hs.named_if ht fun _ h => h)
  | load i tidOut =>
    obtain ⟨t, ht, hn⟩ := Option.bind_eq_some_iff.mp hn
    split at hn
    · next hspawned =>
      cases hn
      have hpub : ∀ j, published j (if tidOut then .wrote i t.cell :: s.log else s.log) =
          published j s.log := fun j => by cases tidOut <;> rfl
      refine hs.put ?_ (hs.made_lt ht) (Nat.le_refl _) (by simpa only [hpub] using hs.cells i t ht)
        (fun j _ => hpub j) (hs.named_if ht fun h hreturned => ?_)
      · cases tidOut with
        | false => exact hs.truthful
        | true => exact ⟨hs.truthful, (hs.cells i t ht).1⟩
      · rw [hspawned] at hreturned
        cases hreturned
    · cases hn
  | create i =>
    obtain ⟨t, ht, hn⟩ := Option.bind_eq_some_iff.mp hn
    split at hn
    · next hloaded =>
      cases hn
      refine hs.put hs.truthful (hs.made_lt ht) (Nat.le_refl _) (hs.cells i t ht) (fun _ _ => rfl)
        fun h j hj => ?_
      rw [State.insert_objects] at hj
      by_cases hnew : h = s.table.next
      · rw [hnew, Function.update_self] at hj
        cases hj
        rw [if_pos rfl, hnew]
      · rw [Function.update_of_ne hnew] at hj
        refine hs.named_if ht (fun h' hreturned => ?_) h j hj
        rw [hloaded] at hreturned
        cases hreturned
    · cases hn
  | getThreadId h =>
    have hnamed : ∀ k i, (s.table.inspect (.getThreadId h) h).objects k = some (.thread i) →
        ∃ t, s.threads i = some t ∧ t.maker = .returned k := by
      rw [inspect_objects]
      exact hs.named
    simp only [next] at hn
    split at hn
    · obtain ⟨t, ht, hn⟩ := Option.bind_eq_some_iff.mp hn
      cases hn
      exact ⟨⟨hs.truthful, (hs.cells _ t ht).1⟩, hs.cells, hs.fresh, hnamed⟩
    · cases hn
      exact ⟨hs.truthful, hs.cells, hs.fresh, hnamed⟩
  | getCurrentThreadId i =>
    obtain ⟨t, ht, hn⟩ := Option.bind_eq_some_iff.mp hn
    split at hn
    · next hrunning =>
      cases hn
      have hpub := (hs.cells i t ht).2
      rw [if_pos hrunning] at hpub
      exact ⟨⟨hs.truthful, hpub⟩, hs.cells, hs.fresh, hs.named⟩
    · cases hn
  | other c =>
    simp only [next] at hn
    split at hn
    · cases hn
    · next hc =>
      obtain ⟨table, hrun, rfl⟩ := Option.map_eq_some_iff.mp hn
      exact ⟨hs.truthful, hs.cells, hs.fresh, fun h j hj => hs.named h j (run_thread hc hrun hj)⟩

theorem inv_of_reachable (h : machine.Reachable s) : Inv s := by
  refine h.invariant (fun s hinit => ?_) fun s a s' hs hn => hs.step a hn
  obtain ⟨⟨hobjects, -⟩, hthreads, hlog⟩ := hinit
  refine ⟨hlog ▸ trivial, fun i t ht => ?_, fun i _ => ⟨hthreads i, hlog ▸ rfl⟩, fun h i hi => ?_⟩
  · simp [hthreads] at ht
  · simp [hobjects] at hi

/-- **The ids of threads**: in every run what is reported of a thread is 0 until it has stored its
    id, and from then on that id, which is not 0 and is what the thread itself is told; and the
    handle that is asked about is the one that `CreateThread` returned. -/
theorem thread_identity (h : machine.Reachable s) :
    Truthful s.log ∧ ∀ k i, s.table.objects k = some (.thread i) →
      ∃ t, s.threads i = some t ∧ t.maker = .returned k :=
  ⟨(inv_of_reachable h).truthful, (inv_of_reachable h).named⟩

def start : State := ⟨fresh, fun _ => none, 0, []⟩

/-- The maker is ahead of the thread, with everything that it does. -/
def ahead : List Step :=
  [.spawn true (some ⟨7, by decide⟩), .load 0 true, .create 0, .getThreadId 0x10000, .store 0,
    .getCurrentThreadId 0]

theorem exec_ahead : ∃ s, machine.exec start ahead = some s ∧
    s.log = [.current 0 7, .stored 0 7, .asked 0 0, .wrote 0 0] := ⟨_, rfl, rfl⟩

theorem thread_identity_ahead : ∃ s, machine.exec start ahead = some s ∧ Truthful s.log := by
  obtain ⟨s, hexec, -⟩ := exec_ahead
  have hinit : machine.init start := ⟨fresh_init, fun _ => rfl, rfl⟩
  exact ⟨s, hexec, (thread_identity (Machine.reachable_of_exec hinit hexec)).1⟩

/-- `CreateThread` and `GetThreadId` have reported 0 for thread 7. -/
theorem thread_identity_differs : ∃ s, machine.Reachable s ∧ ¬ Same s.log := by
  obtain ⟨s, hexec, hlog⟩ := exec_ahead
  refine ⟨s, Machine.reachable_of_exec ⟨fresh_init, fun _ => rfl, rfl⟩ hexec, fun h => ?_⟩
  have hzero := h 0 0 0 (hlog ▸ Or.inl (by simp)) (hlog ▸ Or.inl (by simp))
  exact hzero.2 rfl

end WinCompat.Thread.Identity
