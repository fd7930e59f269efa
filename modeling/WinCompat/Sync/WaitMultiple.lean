import WinCompat.Sync.Semaphore

/-!
# `wait_for_multiple_objects` with `bWaitAll`

`ntapi/src/sync.rs`. The call polls its objects in order, and a poll is a real wait with timeout 0:
what it finds signalled it consumes. Nothing is given back when a later object of the same round
turns out not to be signalled, and the next round polls every object again.

One thread, `Call.me`, is inside the call; each of its atomic accesses is one step. The other
threads set events, release semaphores and release mutexes between any two of them (`release` of a
mutex is three writes, so it may itself be interrupted), and the clock advances when it likes. With
timeout 0 the deadline of a poll is the time the poll began, so the first look at the clock is at
or past it: a poll that finds nothing is over, and its `futex_wait` is never reached.

`State.taken` is bookkeeping. It lists the positions at which the call took a signal, a unit, or an
ownership, in order.
-/

namespace WinCompat.Sync.WaitMultiple

open Lib Semaphore

/-- A thread id: `gettid` never answers 0, which `MutexInner` keeps for "no owner". -/
abbrev Tid := { t : Nat // t ≠ 0 }

inductive Obj
  | event (manualReset signaled : Bool)
  | mutex (lock : Bool) (owner : Nat) (recursion : BitVec 32)
  | semaphore (count : BitVec 32)
  | thread
  -- a file, a section, a process, or no object at all
  | other
  deriving DecidableEq

/-- What never changes about an object. -/
inductive Kind
  | event (manualReset : Bool)
  | mutex
  | semaphore
  | thread
  | other
  deriving DecidableEq

def Obj.kind : Obj → Kind
  | .event manual _ => .event manual
  | .mutex _ _ _ => .mutex
  | .semaphore _ => .semaphore
  | .thread => .thread
  | .other => .other

/-- Whether a successful wait takes something from the object. -/
def Kind.consumes : Kind → Bool
  | .event manual => !manual
  | .mutex | .semaphore => true
  | .thread | .other => false

/-- Events, mutexes and semaphores. -/
def Kind.waitable : Kind → Bool
  | .event _ | .mutex | .semaphore => true
  | .thread | .other => false

/-- A mutex that no call is in the middle of: locked exactly when it has an owner. -/
def Obj.settled : Obj → Prop
  | .mutex lock owner _ => lock = true ↔ owner ≠ 0
  | _ => True

inductive Answer
  | object (i : Nat)
  | timeout
  | failed
  deriving DecidableEq

/-- The arguments, and the thread that makes the call. -/
structure Call where
  handles : List Nat
  waitAll : Bool
  ms : Nat
  me : Tid

/-- `INFINITE`. -/
def infinite : Nat := 0xFFFFFFFF

/-- Where the call is. `i` is the position being polled and `h` the handle there. -/
inductive Pc
  | start
  -- the head of the `for` loop: about to look at the object
  | poll (i : Nat)
  -- `EventInner::wait` saw 1: about to `compare_exchange(1, 0)`
  | eventCas (i h : Nat)
  -- `MutexInner::acquire` saw its own id: about to `recursion.fetch_add(1)`
  | mutexAgain (i h : Nat)
  -- about to `lock.compare_exchange(0, 1)`
  | mutexCas (i h : Nat)
  -- took the lock: about to store the owner, then the recursion
  | mutexOwner (i h : Nat)
  | mutexRecursion (i h : Nat)
  -- `SemaphoreInner::wait` loaded `c > 0`: about to `compare_exchange(c, c - 1)`
  | semaphoreCas (i h : Nat) (c : BitVec 32)
  -- about to compare the clock with the deadline
  | check
  | sleep
  | returned (r : Answer)
  deriving DecidableEq

/-- Where another thread is in `MutexInner::release`: about to decrement, to clear the owner, to
    clear the lock. -/
inductive Releasing
  | idle
  | recursion (h : Nat)
  | owner (h : Nat)
  | lock (h : Nat)
  deriving DecidableEq

structure State where
  objs : Nat → Obj
  clock : Nat
  deadline : Option Nat
  allSignaled : Bool
  pc : Pc
  others : Tid → Releasing
  taken : List Nat

inductive Action
  -- the next access of the call
  | access
  | tick (ns : Nat)
  -- the calls of other threads
  | setEvent (h : Nat)
  | releaseSemaphore (h : Nat) (release : BitVec 32)
  | releaseMutex (u : Tid) (h : Nat)
  -- the next write of a `ReleaseMutex` in progress
  | releaseStep (u : Tid)

/-- What one zero-timeout wait answered. -/
inductive Poll
  | signaled
  | timeout
  | failed
  deriving DecidableEq

namespace State

def setObj (s : State) (h : Nat) (o : Obj) : State :=
  { s with objs := Function.update s.objs h o }

def goto (s : State) (pc : Pc) : State := { s with pc := pc }

def setOther (s : State) (u : Tid) (r : Releasing) : State :=
  { s with others := Function.update s.others u r }

/-- A compare-exchange or fetch-add that consumes from the object at position `i`. -/
def take (s : State) (i h : Nat) (o : Obj) : State :=
  { s with objs := Function.update s.objs h o, taken := s.taken ++ [i] }

/-- The rest of the loop body, once the wait at position `i` has answered. -/
def polled (s : State) (c : Call) (i : Nat) : Poll → State
  | .signaled => s.goto (if c.waitAll then .poll (i + 1) else .returned (.object i))
  | .timeout => { s with allSignaled := false, pc := .poll (i + 1) }
  | .failed => s.goto (.returned .failed)

/-- The next access of the call. -/
def access (s : State) (c : Call) : Option State :=
  match s.pc with
  | .start =>
      if c.handles = [] then some (s.goto (.returned .failed))
      else some { s with
        deadline := if c.ms = infinite then none else some (s.clock + c.ms * 1000000),
        allSignaled := true, pc := .poll 0 }
  | .poll i =>
      match c.handles[i]? with
      | none =>
          some (s.goto (if c.waitAll && s.allSignaled then .returned (.object 0) else .check))
      | some h =>
          match s.objs h with
          | .event manual signaled =>
              if signaled then
                if manual then some (s.polled c i .signaled) else some (s.goto (.eventCas i h))
              else some (s.polled c i .timeout)
          | .mutex _ owner _ =>
              some (s.goto (if owner = c.me.val then .mutexAgain i h else .mutexCas i h))
          | .semaphore count =>
              if count = 0 then some (s.polled c i .timeout)
              else some (s.goto (.semaphoreCas i h count))
          | .thread => some (s.polled c i .signaled)
          | .other => some (s.polled c i .failed)
  | .eventCas i h =>
      match s.objs h with
      | .event manual signaled =>
          if signaled then some ((s.take i h (.event manual false)).polled c i .signaled)
          else some (s.goto (.poll i))
      | _ => none
  | .mutexAgain i h =>
      match s.objs h with
      | .mutex lock owner r =>
          some ((s.take i h (.mutex lock owner (r + 1))).polled c i .signaled)
      | _ => none
  | .mutexCas i h =>
      match s.objs h with
      | .mutex lock owner r =>
          if lock then some (s.polled c i .timeout)
          else some ((s.take i h (.mutex true owner r)).goto (.mutexOwner i h))
      | _ => none
  | .mutexOwner i h =>
      match s.objs h with
      | .mutex lock _ r =>
          some ((s.setObj h (.mutex lock c.me.val r)).goto (.mutexRecursion i h))
      | _ => none
  | .mutexRecursion i h =>
      match s.objs h with
      | .mutex lock owner _ => some ((s.setObj h (.mutex lock owner 1)).polled c i .signaled)
      | _ => none
  | .semaphoreCas i h k =>
      match s.objs h with
      | .semaphore count =>
          if count = k then some ((s.take i h (.semaphore (k - 1))).polled c i .signaled)
          else some (s.goto (.poll i))
      | _ => none
  | .check =>
      match s.deadline with
      | some d => some (s.goto (if d ≤ s.clock then .returned .timeout else .sleep))
      | none => some (s.goto .sleep)
  | .sleep => some { s with allSignaled := true, pc := .poll 0 }
  | .returned _ => none

/-- The next write of `MutexInner::release` by thread `u`. -/
def releaseStep (s : State) (u : Tid) : Option State :=
  match s.others u with
  | .idle => none
  | .recursion h =>
      match s.objs h with
      | .mutex lock owner r =>
          some ((s.setObj h (.mutex lock owner (r - 1))).setOther u
            (if r - 1 = 0 then .owner h else .idle))
      | _ => none
  | .owner h =>
      match s.objs h with
      | .mutex lock _ r => some ((s.setObj h (.mutex lock 0 r)).setOther u (.lock h))
      | _ => none
  | .lock h =>
      match s.objs h with
      | .mutex _ owner r => some ((s.setObj h (.mutex false owner r)).setOther u .idle)
      | _ => none

def next (c : Call) (s : State) : Action → Option State
  | .access => s.access c
  | .tick ns => some { s with clock := s.clock + ns }
  | .setEvent h =>
      match s.objs h with
      | .event manual _ => some (s.setObj h (.event manual true))
      | _ => none
  | .releaseSemaphore h release =>
      match s.objs h with
      | .semaphore count => some (s.setObj h (.semaphore (count + clampCount release.toInt)))
      | _ => none
  | .releaseMutex u h =>
      if u = c.me ∨ s.others u ≠ .idle then none
      else
        match s.objs h with
        -- the owner is loaded first: anyone else is answered `FALSE`
        | .mutex _ owner _ => some (if owner = u.val then s.setOther u (.recursion h) else s)
        | _ => none
  | .releaseStep u => if u = c.me then none else s.releaseStep u

end State

/-- The call on the objects `objs`. -/
def waitMultiple (c : Call) (objs : Nat → Obj) : Machine State Action where
  init s := s.objs = objs ∧ s.pc = .start ∧ (∀ u, s.others u = .idle) ∧ s.taken = []
  next := State.next c

/-- What the call owes its caller: nothing is kept when it fails or times out, and a success took
    exactly one unit at each position it can take one from. -/
def AllOrNothing (c : Call) (objs : Nat → Obj) : Prop :=
  ∀ s, (waitMultiple c objs).Reachable s →
    (s.pc = .returned .timeout ∨ s.pc = .returned .failed → s.taken = []) ∧
    (∀ r, s.pc = .returned (.object r) → ∀ (i h : Nat), c.handles[i]? = some h →
      s.taken.count i = if (objs h).kind.consumes then 1 else 0)

/-- A successful poll of position `i` takes something. -/
def ConsumesAt (c : Call) (objs : Nat → Obj) (i : Nat) : Prop :=
  ∃ h, c.handles[i]? = some h ∧ (objs h).kind.consumes = true

/-- Some schedule lets the call find position `i` not signalled: an event that is not set to begin
    with, or an auto-reset event that an earlier position consumes; a mutex another thread owns; and
    any semaphore, whose count the releases of others can wrap to 0. -/
def MayFailAt (c : Call) (objs : Nat → Obj) (i : Nat) : Prop :=
  ∃ h, c.handles[i]? = some h ∧
    match objs h with
    | .event manual signaled =>
        signaled = false ∨ (manual = false ∧ ∃ j < i, c.handles[j]? = some h)
    | .mutex _ owner _ => owner ≠ 0 ∧ owner ≠ c.me.val
    | .semaphore _ => True
    | .thread | .other => False

/-! ## What the other threads can change -/

variable {c : Call} {objs : Nat → Obj}

/-- The positions below `i` that a successful poll takes something at. -/
def consumedBelow (c : Call) (objs : Nat → Obj) (i : Nat) : List Nat :=
  (List.range i).filter fun j =>
    match c.handles[j]? with
    | some h => (objs h).kind.consumes
    | none => false

/-- No `ReleaseMutex` of `h` is in progress. -/
def State.quiet (s : State) (h : Nat) : Prop :=
  ∀ u, s.others u ≠ .recursion h ∧ s.others u ≠ .owner h ∧ s.others u ≠ .lock h

/-- A mutex that was free, or owned by the caller, when the call began. It stays one that the call
    can take. -/
def OwnMutex (c : Call) (s : State) (h : Nat) : Prop :=
  s.quiet h ∧ ∃ lock owner r, s.objs h = .mutex lock owner r ∧
    ((lock = false ∧ owner = 0) ∨ owner = c.me.val ∨ (owner = 0 ∧ ∃ i, s.pc = .mutexOwner i h))

/-- The objects during the call, compared with those at its start. -/
structure ObjsOk (c : Call) (objs : Nat → Obj) (s : State) : Prop where
  kind : ∀ h, (s.objs h).kind = (objs h).kind
  manual : ∀ h, objs h = .event true true → s.objs h = .event true true
  auto : ∀ h, objs h = .event false true →
    s.objs h = .event false true ∨ ∃ j ∈ s.taken, c.handles[j]? = some h
  mutex : ∀ h lock owner r, objs h = .mutex lock owner r → owner = 0 ∨ owner = c.me.val →
    OwnMutex c s h

/-- A mutex the call found owned by someone else does not become the caller's. -/
def NotMine (c : Call) (s : State) (h : Nat) : Prop :=
  ∀ lock owner r, s.objs h = .mutex lock owner r → owner ≠ c.me.val

/-- Where a round stands once the positions below `i` are polled: either all of them were signalled,
    and each was consumed; or one was not, and nothing is held. -/
def Round (c : Call) (objs : Nat → Obj) (s : State) (i : Nat) : Prop :=
  (s.allSignaled = true ∧ s.taken = consumedBelow c objs i) ∨
  (s.allSignaled = false ∧ s.taken = [] ∧ ∃ k < i, MayFailAt c objs k)

/-- The progress of the call, by where it is. -/
def Progress (c : Call) (objs : Nat → Obj) (s : State) : Pc → Prop
  | .start => s.taken = []
  | .poll i => i ≤ c.handles.length ∧ Round c objs s i
  | .eventCas i h => c.handles[i]? = some h ∧ (objs h).kind = .event false ∧ Round c objs s i
  | .mutexAgain i h => c.handles[i]? = some h ∧ (objs h).kind = .mutex ∧ Round c objs s i
  | .mutexCas i h =>
      c.handles[i]? = some h ∧ (objs h).kind = .mutex ∧ NotMine c s h ∧ Round c objs s i
  | .mutexOwner i h | .mutexRecursion i h =>
      c.handles[i]? = some h ∧ (objs h).kind = .mutex ∧ Round c objs s (i + 1)
  | .semaphoreCas i h _ =>
      c.handles[i]? = some h ∧ (objs h).kind = .semaphore ∧ Round c objs s i
  | .check | .sleep => s.taken = []
  | .returned (.object _) => s.taken = consumedBelow c objs c.handles.length
  | .returned _ => s.taken = []

/-- The objects and the call's own progress, kept apart: other threads move the first, and only the
    call moves the second. -/
structure Inv (c : Call) (objs : Nat → Obj) (s : State) : Prop where
  objsOk : ObjsOk c objs s
  progress : Progress c objs s s.pc

/-! ## One round -/

/-- The condition: what one position consumes and what may fail at another never meet. -/
def Compatible (c : Call) (objs : Nat → Obj) : Prop :=
  ∀ j k, ConsumesAt c objs j → MayFailAt c objs k → j = k

theorem consumedBelow_succ {i h : Nat} (hi : c.handles[i]? = some h) :
    consumedBelow c objs (i + 1) =
      consumedBelow c objs i ++ if (objs h).kind.consumes then [i] else [] := by
  unfold consumedBelow
  rw [List.range_succ, List.filter_append]
  congr 1
  simp only [List.filter_cons, hi, List.filter_nil]

theorem mem_consumedBelow {i j : Nat} (h : j ∈ consumedBelow c objs i) :
    j < i ∧ ConsumesAt c objs j := by
  obtain ⟨hlt, hc⟩ := List.mem_filter.mp h
  refine ⟨List.mem_range.mp hlt, ?_⟩
  cases hj : c.handles[j]? with
  | none => rw [hj] at hc; cases hc
  | some h => rw [hj] at hc; exact ⟨h, hj, hc⟩

theorem count_consumedBelow {i j h : Nat} (hj : j < i) (hh : c.handles[j]? = some h) :
    (consumedBelow c objs i).count j = if (objs h).kind.consumes then 1 else 0 := by
  have hnodup : (consumedBelow c objs i).Nodup := List.nodup_range.filter _
  rw [hnodup.count]
  have hiff : j ∈ consumedBelow c objs i ↔ (objs h).kind.consumes = true := by
    unfold consumedBelow
    rw [List.mem_filter, hh]
    exact and_iff_right (List.mem_range.mpr hj)
  simp only [hiff]

/-- A position that answers without giving anything. -/
theorem Round.signaled {s s' : State} {i h : Nat} (hr : Round c objs s i)
    (hi : c.handles[i]? = some h) (hfree : (objs h).kind.consumes = false)
    (ha : s'.allSignaled = s.allSignaled) (ht : s'.taken = s.taken) :
    Round c objs s' (i + 1) := by
  rcases hr with ⟨h₁, h₂⟩ | ⟨h₁, h₂, k, hk, hf⟩
  · refine Or.inl ⟨ha ▸ h₁, ?_⟩
    rw [ht, h₂, consumedBelow_succ hi, hfree, if_neg Bool.false_ne_true, List.append_nil]
  · exact Or.inr ⟨ha ▸ h₁, ht ▸ h₂, k, Nat.lt_succ_of_lt hk, hf⟩

theorem Round.take {s s' : State} {i h : Nat} (hcompat : Compatible c objs)
    (hr : Round c objs s i) (hi : c.handles[i]? = some h) (hc : (objs h).kind.consumes = true)
    (ha : s'.allSignaled = s.allSignaled) (ht : s'.taken = s.taken ++ [i]) :
    Round c objs s' (i + 1) := by
  rcases hr with ⟨h₁, h₂⟩ | ⟨-, -, k, hk, hf⟩
  · refine Or.inl ⟨ha ▸ h₁, ?_⟩
    rw [ht, h₂, consumedBelow_succ hi, hc, if_pos rfl]
  · exact absurd (hcompat i k ⟨h, hi, hc⟩ hf) (Nat.ne_of_gt hk)

theorem Round.timeout {s s' : State} {i : Nat} (hcompat : Compatible c objs)
    (hr : Round c objs s i) (hf : MayFailAt c objs i) (ha : s'.allSignaled = false)
    (ht : s'.taken = s.taken) : Round c objs s' (i + 1) := by
  refine Or.inr ⟨ha, ?_, i, Nat.lt_succ_self i, hf⟩
  rw [ht]
  rcases hr with ⟨-, h₂⟩ | ⟨-, h₂, -⟩
  · rw [h₂]
    refine List.eq_nil_iff_forall_not_mem.mpr ?_
    intro j hj
    obtain ⟨hlt, hc⟩ := mem_consumedBelow hj
    exact absurd (hcompat j i hc hf) (Nat.ne_of_lt hlt)
  · exact h₂

theorem Round.mem_lt {s : State} {i j : Nat} (hr : Round c objs s i) (hj : j ∈ s.taken) :
    j < i := by
  rcases hr with ⟨-, h₂⟩ | ⟨-, h₂, -⟩
  · rw [h₂] at hj
    exact (mem_consumedBelow hj).1
  · rw [h₂] at hj
    exact absurd hj List.not_mem_nil

/-! ## The objects -/

theorem OwnMutex.of_eq {s s' : State} {h : Nat} (hm : OwnMutex c s h)
    (ho : s'.objs h = s.objs h) (hr : s'.others = s.others)
    (hpc : ∀ i, s.pc = .mutexOwner i h → s'.pc = .mutexOwner i h) : OwnMutex c s' h := by
  obtain ⟨hq, lock, owner, r, hs, hcases⟩ := hm
  refine ⟨?_, lock, owner, r, ho.trans hs, ?_⟩
  · intro u
    rw [hr]
    exact hq u
  · rcases hcases with h₁ | h₁ | ⟨h₁, i, h₂⟩
    · exact Or.inl h₁
    · exact Or.inr (Or.inl h₁)
    · exact Or.inr (Or.inr ⟨h₁, i, hpc i h₂⟩)

theorem ObjsOk.of_eq {s s' : State} (hok : ObjsOk c objs s) (ho : s'.objs = s.objs)
    (hr : s'.others = s.others) (ht : s'.taken = s.taken)
    (hpc : ∀ i h, s.pc = .mutexOwner i h → s'.pc = .mutexOwner i h) : ObjsOk c objs s' := by
  refine ⟨?_, ?_, ?_, ?_⟩
  · rw [ho]; exact hok.kind
  · rw [ho]; exact hok.manual
  · rw [ho, ht]; exact hok.auto
  · intro h lock owner r hh hown
    exact (hok.mutex h lock owner r hh hown).of_eq (by rw [ho]) hr fun i => hpc i h

theorem ObjsOk.write {s s' : State} {h : Nat} {o : Obj} (hok : ObjsOk c objs s)
    (ho : s'.objs = Function.update s.objs h o) (ht : ∀ j ∈ s.taken, j ∈ s'.taken)
    (hk : o.kind = (s.objs h).kind)
    (hmanual : s.objs h = .event true true → o = .event true true)
    (hauto : s.objs h = .event false true →
      o = .event false true ∨ ∃ j ∈ s'.taken, c.handles[j]? = some h)
    (hmutex : ∀ h', OwnMutex c s h' → OwnMutex c s' h') : ObjsOk c objs s' := by
  refine ⟨?_, ?_, ?_, ?_⟩
  · intro h'
    rw [ho, Function.update_apply]
    split
    · next e => rw [hk, e]; exact hok.kind h
    · exact hok.kind h'
  · intro h' hh
    rw [ho, Function.update_apply]
    split
    · next e => subst e; exact hmanual (hok.manual h' hh)
    · exact hok.manual h' hh
  · intro h' hh
    have hold : s.objs h' = .event false true ∨ ∃ j ∈ s'.taken, c.handles[j]? = some h' := by
      rcases hok.auto h' hh with h₁ | ⟨j, hj, h₂⟩
      · exact Or.inl h₁
      · exact Or.inr ⟨j, ht j hj, h₂⟩
    rw [ho, Function.update_apply]
    rcases hold with h₁ | h₁
    · split
      · next e => subst e; exact hauto h₁
      · exact Or.inl h₁
    · exact Or.inr h₁
  · intro h' lock owner r hh hown
    exact hmutex h' (hok.mutex h' lock owner r hh hown)

theorem ObjsOk.write_other {s s' : State} {h : Nat} {x o : Obj} (hok : ObjsOk c objs s)
    (hx : s.objs h = x) (ho : s'.objs = Function.update s.objs h o) (hr : s'.others = s.others)
    (ht : ∀ j ∈ s.taken, j ∈ s'.taken) (hpc : s'.pc = s.pc)
    (hk : o.kind = x.kind) (hm : x.kind ≠ .mutex)
    (hmanual : x = .event true true → o = .event true true)
    (hauto : x = .event false true →
      o = .event false true ∨ ∃ j ∈ s'.taken, c.handles[j]? = some h) : ObjsOk c objs s' := by
  subst hx
  refine hok.write ho ht hk hmanual hauto ?_
  intro h' hown
  have hne : h' ≠ h := by
    intro e
    subst e
    obtain ⟨-, _, _, _, e, -⟩ := hown
    exact hm (by rw [e]; rfl)
  refine hown.of_eq ?_ hr fun i e => hpc.trans e
  rw [ho]
  exact Function.update_of_ne hne _ _

theorem ObjsOk.write_mutex {s s' : State} {h : Nat} {lock lock' : Bool} {owner owner' : Nat}
    {r r' : BitVec 32} (hok : ObjsOk c objs s) (hs : s.objs h = .mutex lock owner r)
    (ho : s'.objs = Function.update s.objs h (.mutex lock' owner' r'))
    (hr : ∀ h' ≠ h, s.quiet h' → s'.quiet h') (ht : ∀ j ∈ s.taken, j ∈ s'.taken)
    (hpc : ∀ i, ∀ h' ≠ h, s.pc = .mutexOwner i h' → s'.pc = .mutexOwner i h')
    (hown : OwnMutex c s h → OwnMutex c s' h) : ObjsOk c objs s' := by
  refine hok.write ho ht ?_ ?_ ?_ ?_
  · rw [hs]; rfl
  · intro e; rw [hs] at e; cases e
  · intro e; rw [hs] at e; cases e
  · intro h' hm
    by_cases hne : h' = h
    · exact hne ▸ hown (hne ▸ hm)
    · obtain ⟨hq, lock₁, owner₁, r₁, h₁, hcases⟩ := hm
      refine ⟨hr h' hne hq, lock₁, owner₁, r₁, ?_, ?_⟩
      · rw [ho, Function.update_of_ne hne]
        exact h₁
      · rcases hcases with h₂ | h₂ | ⟨h₂, i, h₃⟩
        · exact Or.inl h₂
        · exact Or.inr (Or.inl h₂)
        · exact Or.inr (Or.inr ⟨h₂, i, hpc i h' hne h₃⟩)

/-! ## What is missed may be missed -/

theorem mayFailAt_event {s : State} {i h : Nat} {manual : Bool} (hok : ObjsOk c objs s)
    (hr : Round c objs s i) (hi : c.handles[i]? = some h)
    (hs : s.objs h = .event manual false) : MayFailAt c objs i := by
  have hk := hok.kind h
  rw [hs] at hk
  cases ho : objs h with
  | event manual' signaled =>
    rw [ho] at hk
    simp only [Obj.kind, Kind.event.injEq] at hk
    subst hk
    refine ⟨h, hi, ?_⟩
    rw [ho]
    cases signaled with
    | false => exact Or.inl rfl
    | true =>
      cases manual with
      | true =>
        have := hok.manual h ho
        rw [hs] at this
        cases this
      | false =>
        rcases hok.auto h ho with h₁ | ⟨j, hj, h₁⟩
        · rw [hs] at h₁; cases h₁
        · exact Or.inr ⟨rfl, j, hr.mem_lt hj, h₁⟩
  | _ => rw [ho] at hk; cases hk

theorem mayFailAt_semaphore {i h : Nat} (hi : c.handles[i]? = some h)
    (hk : (objs h).kind = .semaphore) : MayFailAt c objs i := by
  refine ⟨h, hi, ?_⟩
  cases ho : objs h with
  | semaphore count => trivial
  | _ => rw [ho] at hk; cases hk

theorem mayFailAt_mutex {s : State} {i h : Nat} {owner : Nat} {r : BitVec 32}
    (hok : ObjsOk c objs s) (hi : c.handles[i]? = some h) (hk : (objs h).kind = .mutex)
    (hs : s.objs h = .mutex true owner r) (hnot : NotMine c s h)
    (hpc : ∀ j, s.pc ≠ .mutexOwner j h) : MayFailAt c objs i := by
  refine ⟨h, hi, ?_⟩
  cases ho : objs h with
  | mutex lock₀ owner₀ r₀ =>
    show owner₀ ≠ 0 ∧ owner₀ ≠ c.me.val
    have hno : ¬ (owner₀ = 0 ∨ owner₀ = c.me.val) := by
      intro hown
      obtain ⟨-, lock, owner', r', hs', hcases⟩ := hok.mutex h lock₀ owner₀ r₀ ho hown
      rw [hs] at hs'
      cases hs'
      rcases hcases with ⟨h₁, -⟩ | h₁ | ⟨-, j, h₁⟩
      · cases h₁
      · exact hnot _ _ _ hs h₁
      · exact hpc j h₁
    exact not_or.mp hno
  | _ => rw [ho] at hk; cases hk

/-! ## The steps of the call -/

theorem Inv.polled {s : State} {i : Nat} {p : Poll} (hall : c.waitAll = true)
    (hlt : i < c.handles.length) (hok : ObjsOk c objs s)
    (hpc : ∀ j h, s.pc ≠ .mutexOwner j h) (hp : p ≠ .failed)
    (hr : Round c objs (s.polled c i p) (i + 1)) : Inv c objs (s.polled c i p) := by
  have hpoll : (s.polled c i p).pc = .poll (i + 1) := by
    cases p with
    | signaled => simp only [State.polled, State.goto, hall, if_true]
    | timeout => rfl
    | failed => exact absurd rfl hp
  refine ⟨?_, ?_⟩
  · refine hok.of_eq ?_ ?_ ?_ fun j h e => absurd e (hpc j h)
    · cases p <;> rfl
    · cases p <;> rfl
    · cases p <;> rfl
  · rw [hpoll]
    exact ⟨hlt, hr⟩

/-- Where the call is not about to write the owner of a mutex, a step that leaves the objects alone
    leaves them in order. -/
theorem ObjsOk.same {s s' : State} (hok : ObjsOk c objs s) (hne : ∀ j h, s.pc ≠ .mutexOwner j h)
    (ho : s'.objs = s.objs) (hr : s'.others = s.others) (ht : s'.taken = s.taken) :
    ObjsOk c objs s' :=
  hok.of_eq ho hr ht fun j h e => absurd e (hne j h)

theorem ObjsOk.write_recursion {s s' : State} {hd : Nat} {lock : Bool} {owner : Nat}
    {r r' : BitVec 32} (hok : ObjsOk c objs s) (ho : s.objs hd = .mutex lock owner r)
    (hobjs : s'.objs = Function.update s.objs hd (.mutex lock owner r'))
    (hquiet : s'.quiet = s.quiet) (htaken : ∀ j ∈ s.taken, j ∈ s'.taken)
    (hne : ∀ j h, s.pc ≠ .mutexOwner j h) : ObjsOk c objs s' := by
  refine hok.write_mutex ho hobjs (fun h' _ hq => hquiet ▸ hq) htaken
    (fun j h' _ e => absurd e (hne j h')) ?_
  intro hm
  obtain ⟨hq, lock₁, owner₁, r₁, h₁, hcases⟩ := hm
  rw [ho] at h₁
  cases h₁
  refine ⟨hquiet ▸ hq, lock, owner, r', by rw [hobjs, Function.update_self], ?_⟩
  rcases hcases with h₂ | h₂ | ⟨-, j, h₂⟩
  · exact Or.inl h₂
  · exact Or.inr (Or.inl h₂)
  · exact absurd h₂ (hne j hd)

section

variable {s s' : State} {i hd : Nat} (hok : ObjsOk c objs s) (h : s.access c = some s')

include hok h

theorem Inv.access_start (hpc : s.pc = .start) (hprog : Progress c objs s .start) :
    Inv c objs s' := by
  have hne : ∀ j h, s.pc ≠ .mutexOwner j h := hpc ▸ nofun
  simp only [State.access, hpc] at h
  split at h
  · cases h
    exact ⟨hok.same hne rfl rfl rfl, hprog⟩
  · cases h
    exact ⟨hok.same hne rfl rfl rfl, Nat.zero_le _, Or.inl ⟨rfl, hprog⟩⟩

theorem Inv.access_mutexOwner (hpc : s.pc = .mutexOwner i hd)
    (hprog : Progress c objs s (.mutexOwner i hd)) : Inv c objs s' := by
  obtain ⟨hi, hk, hr⟩ := hprog
  simp only [State.access, hpc] at h
  cases ho : s.objs hd with
  | mutex lock owner r =>
    simp only [ho] at h
    cases h
    refine ⟨?_, hi, hk, hr⟩
    refine hok.write_mutex ho rfl (fun h' _ hq => hq) (fun j hj => hj) ?_ ?_
    · intro j h' hne e
      rw [hpc] at e
      cases e
      exact absurd rfl hne
    · intro hm
      exact ⟨hm.1, lock, c.me.val, r, Function.update_self _ _ _, Or.inr (Or.inl rfl)⟩
  | _ => simp only [ho] at h; cases h

theorem Inv.access_mutexRecursion (hall : c.waitAll = true) (hpc : s.pc = .mutexRecursion i hd)
    (hprog : Progress c objs s (.mutexRecursion i hd)) : Inv c objs s' := by
  have hne : ∀ j h, s.pc ≠ .mutexOwner j h := hpc ▸ nofun
  obtain ⟨hi, hk, hr⟩ := hprog
  have hlt : i < c.handles.length := (List.getElem?_eq_some_iff.mp hi).1
  simp only [State.access, hpc] at h
  cases ho : s.objs hd with
  | mutex lock owner r =>
    simp only [ho] at h
    cases h
    have hok' : ObjsOk c objs (s.setObj hd (.mutex lock owner 1)) :=
      hok.write_recursion ho rfl rfl (fun j hj => hj) hne
    exact Inv.polled hall hlt hok' hne (by simp) hr
  | _ => simp only [ho] at h; cases h

variable (hcompat : Compatible c objs) (hall : c.waitAll = true)

include hcompat hall

theorem Inv.access_poll (hkinds : ∀ h ∈ c.handles, (objs h).kind.waitable = true)
    (hpc : s.pc = .poll i) (hprog : Progress c objs s (.poll i)) : Inv c objs s' := by
  have hne : ∀ j h, s.pc ≠ .mutexOwner j h := hpc ▸ nofun
  obtain ⟨hle, hr⟩ := hprog
  simp only [State.access, hpc] at h
  cases hi : c.handles[i]? with
  | none =>
    have hlen : i = c.handles.length := Nat.le_antisymm hle (List.getElem?_eq_none_iff.mp hi)
    simp only [hi, hall, Bool.true_and] at h
    cases h
    refine ⟨hok.same hne rfl rfl rfl, ?_⟩
    rcases hr with ⟨h₁, h₂⟩ | ⟨h₁, h₂, -⟩
    · rw [hlen] at h₂
      rw [h₁]
      exact h₂
    · rw [h₁]
      exact h₂
  | some hd =>
    have hlt : i < c.handles.length := (List.getElem?_eq_some_iff.mp hi).1
    have hwait := hkinds hd (List.mem_of_getElem? hi)
    have hkind := hok.kind hd
    simp only [hi] at h
    cases ho : s.objs hd with
    | event manual signaled =>
      simp only [ho] at h
      rw [ho] at hkind
      cases signaled with
      | true =>
        cases manual with
        | true =>
          cases h
          exact Inv.polled hall hlt hok hne (by simp)
            (hr.signaled hi (by rw [← hkind]; rfl) rfl rfl)
        | false =>
          cases h
          exact ⟨hok.same hne rfl rfl rfl, hi, hkind.symm, hr⟩
      | false =>
        cases h
        exact Inv.polled hall hlt hok hne (by simp)
          (hr.timeout hcompat (mayFailAt_event hok hr hi ho) rfl rfl)
    | mutex lock owner r =>
      simp only [ho, Option.some.injEq] at h
      rw [ho] at hkind
      subst h
      refine ⟨hok.same hne rfl rfl rfl, ?_⟩
      by_cases hown : owner = c.me.val
      · simp only [State.goto, hown, if_true]
        exact ⟨hi, hkind.symm, hr⟩
      · simp only [State.goto, hown, if_false]
        refine ⟨hi, hkind.symm, ?_, hr⟩
        intro lock' owner' r' e
        rw [show s.objs hd = _ from e] at ho
        cases ho
        exact hown
    | semaphore count =>
      simp only [ho] at h
      rw [ho] at hkind
      by_cases hz : count = 0
      · rw [if_pos hz] at h
        cases h
        exact Inv.polled hall hlt hok hne (by simp)
          (hr.timeout hcompat (mayFailAt_semaphore hi hkind.symm) rfl rfl)
      · rw [if_neg hz] at h
        cases h
        exact ⟨hok.same hne rfl rfl rfl, hi, hkind.symm, hr⟩
    | thread => rw [ho] at hkind; rw [← hkind] at hwait; cases hwait
    | other => rw [ho] at hkind; rw [← hkind] at hwait; cases hwait

theorem Inv.access_event (hpc : s.pc = .eventCas i hd)
    (hprog : Progress c objs s (.eventCas i hd)) : Inv c objs s' := by
  have hne : ∀ j h, s.pc ≠ .mutexOwner j h := hpc ▸ nofun
  obtain ⟨hi, hk, hr⟩ := hprog
  have hlt : i < c.handles.length := (List.getElem?_eq_some_iff.mp hi).1
  have hkind := hok.kind hd
  rw [hk] at hkind
  simp only [State.access, hpc] at h
  cases ho : s.objs hd with
  | event manual signaled =>
    rw [ho] at hkind
    simp only [Obj.kind, Kind.event.injEq] at hkind
    subst hkind
    simp only [ho] at h
    cases signaled with
    | true =>
      cases h
      have hok' : ObjsOk c objs (s.take i hd (.event false false)) := by
        refine hok.write_other ho rfl rfl ?_ rfl rfl nofun nofun ?_
        · intro j hj
          exact List.mem_append_left _ hj
        · intro _
          exact Or.inr ⟨i, List.mem_append_right _ (List.mem_singleton.mpr rfl), hi⟩
      exact Inv.polled hall hlt hok' hne (by simp)
        (hr.take hcompat hi (by rw [hk]; rfl) rfl rfl)
    | false =>
      cases h
      exact ⟨hok.same hne rfl rfl rfl, Nat.le_of_lt hlt, hr⟩
  | _ => simp only [ho] at h; cases h

theorem Inv.access_semaphore {k : BitVec 32} (hpc : s.pc = .semaphoreCas i hd k)
    (hprog : Progress c objs s (.semaphoreCas i hd k)) : Inv c objs s' := by
  have hne : ∀ j h, s.pc ≠ .mutexOwner j h := hpc ▸ nofun
  obtain ⟨hi, hk, hr⟩ := hprog
  have hlt : i < c.handles.length := (List.getElem?_eq_some_iff.mp hi).1
  simp only [State.access, hpc] at h
  cases ho : s.objs hd with
  | semaphore count =>
    simp only [ho] at h
    split at h
    · cases h
      have hok' : ObjsOk c objs (s.take i hd (.semaphore (k - 1))) := by
        refine hok.write_other ho rfl rfl ?_ rfl rfl nofun nofun nofun
        intro j hj
        exact List.mem_append_left _ hj
      exact Inv.polled hall hlt hok' hne (by simp)
        (hr.take hcompat hi (by rw [hk]; rfl) rfl rfl)
    · cases h
      exact ⟨hok.same hne rfl rfl rfl, Nat.le_of_lt hlt, hr⟩
  | _ => simp only [ho] at h; cases h

theorem Inv.access_mutexAgain (hpc : s.pc = .mutexAgain i hd)
    (hprog : Progress c objs s (.mutexAgain i hd)) : Inv c objs s' := by
  have hne : ∀ j h, s.pc ≠ .mutexOwner j h := hpc ▸ nofun
  obtain ⟨hi, hk, hr⟩ := hprog
  have hlt : i < c.handles.length := (List.getElem?_eq_some_iff.mp hi).1
  simp only [State.access, hpc] at h
  cases ho : s.objs hd with
  | mutex lock owner r =>
    simp only [ho] at h
    cases h
    have hok' : ObjsOk c objs (s.take i hd (.mutex lock owner (r + 1))) :=
      hok.write_recursion ho rfl rfl (fun j hj => List.mem_append_left _ hj) hne
    exact Inv.polled hall hlt hok' hne (by simp)
      (hr.take hcompat hi (by rw [hk]; rfl) rfl rfl)
  | _ => simp only [ho] at h; cases h

theorem Inv.access_mutexCas (hpc : s.pc = .mutexCas i hd)
    (hprog : Progress c objs s (.mutexCas i hd)) : Inv c objs s' := by
  have hne : ∀ j h, s.pc ≠ .mutexOwner j h := hpc ▸ nofun
  obtain ⟨hi, hk, hnot, hr⟩ := hprog
  have hlt : i < c.handles.length := (List.getElem?_eq_some_iff.mp hi).1
  simp only [State.access, hpc] at h
  cases ho : s.objs hd with
  | mutex lock owner r =>
    simp only [ho] at h
    cases lock with
    | true =>
      cases h
      exact Inv.polled hall hlt hok hne (by simp)
        (hr.timeout hcompat (mayFailAt_mutex hok hi hk ho hnot fun j => hne j hd) rfl rfl)
    | false =>
      cases h
      refine ⟨?_, hi, hk, hr.take hcompat hi (by rw [hk]; rfl) rfl rfl⟩
      refine hok.write_mutex ho rfl (fun h' _ hq => hq) ?_ (fun j h' _ e => absurd e (hne j h')) ?_
      · intro j hj
        exact List.mem_append_left _ hj
      · intro hm
        obtain ⟨hq, lock₁, owner₁, r₁, h₁, hcases⟩ := hm
        rw [ho] at h₁
        cases h₁
        refine ⟨hq, true, owner, r, Function.update_self _ _ _, ?_⟩
        rcases hcases with ⟨-, h₂⟩ | h₂ | ⟨-, j, h₂⟩
        · exact Or.inr (Or.inr ⟨h₂, i, rfl⟩)
        · exact absurd h₂ (hnot _ _ _ ho)
        · exact absurd h₂ (hne j hd)
  | _ => simp only [ho] at h; cases h

end

theorem Inv.access {s s' : State} (hcompat : Compatible c objs) (hall : c.waitAll = true)
    (hkinds : ∀ h ∈ c.handles, (objs h).kind.waitable = true) (hinv : Inv c objs s)
    (h : s.access c = some s') : Inv c objs s' := by
  obtain ⟨hok, hprog⟩ := hinv
  cases hpc : s.pc with
  | start => exact Inv.access_start hok h hpc (hpc ▸ hprog)
  | poll i => exact Inv.access_poll hok h hcompat hall hkinds hpc (hpc ▸ hprog)
  | eventCas i hd => exact Inv.access_event hok h hcompat hall hpc (hpc ▸ hprog)
  | mutexAgain i hd => exact Inv.access_mutexAgain hok h hcompat hall hpc (hpc ▸ hprog)
  | mutexCas i hd => exact Inv.access_mutexCas hok h hcompat hall hpc (hpc ▸ hprog)
  | mutexOwner i hd => exact Inv.access_mutexOwner hok h hpc (hpc ▸ hprog)
  | mutexRecursion i hd => exact Inv.access_mutexRecursion hok h hall hpc (hpc ▸ hprog)
  | semaphoreCas i hd k => exact Inv.access_semaphore hok h hcompat hall hpc (hpc ▸ hprog)
  | check =>
    rw [hpc] at hprog
    have hne : ∀ j h, s.pc ≠ .mutexOwner j h := hpc ▸ nofun
    simp only [State.access, hpc] at h
    cases hd : s.deadline with
    | none =>
      simp only [hd] at h
      cases h
      exact ⟨hok.same hne rfl rfl rfl, hprog⟩
    | some d =>
      simp only [hd] at h
      cases h
      refine ⟨hok.same hne rfl rfl rfl, ?_⟩
      by_cases hlate : d ≤ s.clock
      · rw [if_pos hlate]; exact hprog
      · rw [if_neg hlate]; exact hprog
  | sleep =>
    rw [hpc] at hprog
    have hne : ∀ j h, s.pc ≠ .mutexOwner j h := hpc ▸ nofun
    simp only [State.access, hpc] at h
    cases h
    exact ⟨hok.same hne rfl rfl rfl, Nat.zero_le _, Or.inl ⟨rfl, hprog⟩⟩
  | returned r => simp only [State.access, hpc] at h; cases h

/-! ## The steps of the others -/

theorem Round.of_eq {s s' : State} {i : Nat} (hr : Round c objs s i)
    (ha : s'.allSignaled = s.allSignaled) (ht : s'.taken = s.taken) : Round c objs s' i := by
  unfold Round
  rw [ha, ht]
  exact hr

theorem Progress.others {s s' : State} (hp : Progress c objs s s.pc) (hpc : s'.pc = s.pc)
    (ha : s'.allSignaled = s.allSignaled) (ht : s'.taken = s.taken)
    (hn : ∀ h, NotMine c s h → NotMine c s' h) : Progress c objs s' s'.pc := by
  rw [hpc]
  cases h : s.pc with
  | start | check | sleep => rw [h] at hp; exact ht.trans hp
  | poll i => rw [h] at hp; exact ⟨hp.1, hp.2.of_eq ha ht⟩
  | eventCas i hd | mutexAgain i hd | mutexOwner i hd | mutexRecursion i hd
  | semaphoreCas i hd k =>
    rw [h] at hp
    exact ⟨hp.1, hp.2.1, hp.2.2.of_eq ha ht⟩
  | mutexCas i hd =>
    rw [h] at hp
    exact ⟨hp.1, hp.2.1, hn hd hp.2.2.1, hp.2.2.2.of_eq ha ht⟩
  | returned r =>
    rw [h] at hp
    cases r <;> exact ht.trans hp

theorem notMine_update {s s' : State} {h h' : Nat} {o : Obj} (hn : NotMine c s h')
    (ho : s'.objs = Function.update s.objs h o)
    (hnew : ∀ lock owner r, o = .mutex lock owner r → owner = 0 ∨
      ∃ lock₀ r₀, s.objs h = .mutex lock₀ owner r₀) : NotMine c s' h' := by
  intro lock owner r e
  rw [ho, Function.update_apply] at e
  split at e
  · next hh =>
    subst hh
    rcases hnew _ _ _ e with h₁ | ⟨lock₀, r₀, h₁⟩
    · exact h₁ ▸ c.me.2.symm
    · exact hn _ _ _ h₁
  · exact hn _ _ _ e

theorem quiet_setOther {s : State} {u : Tid} {r : Releasing} {h : Nat} (hq : s.quiet h)
    (hr : r ≠ .recursion h ∧ r ≠ .owner h ∧ r ≠ .lock h) : (s.setOther u r).quiet h := by
  intro u'
  simp only [State.setOther, Function.update_apply]
  split
  · exact hr
  · exact hq u'

theorem Inv.releaseWrite {s : State} {u : Tid} {h owner owner' : Nat} {lock lock' : Bool}
    {r r' : BitVec 32} {next : Releasing} (hinv : Inv c objs s) (hnot : ¬ s.quiet h)
    (hs : s.objs h = .mutex lock owner r) (hown : owner' = owner ∨ owner' = 0)
    (hnext : ∀ h' ≠ h, next ≠ .recursion h' ∧ next ≠ .owner h' ∧ next ≠ .lock h') :
    Inv c objs ((s.setObj h (.mutex lock' owner' r')).setOther u next) := by
  refine ⟨?_, hinv.progress.others rfl rfl rfl ?_⟩
  · refine hinv.objsOk.write_mutex hs rfl ?_ (fun j hj => hj) (fun i h' _ e => e) ?_
    · intro h' hne hq
      exact quiet_setOther hq (hnext h' hne)
    · intro hm
      exact absurd hm.1 hnot
  · intro h' hn
    refine notMine_update (h := h) hn rfl ?_
    intro lock₁ owner₁ r₁ e
    cases e
    rcases hown with e | e
    · exact Or.inr ⟨lock, r, e ▸ hs⟩
    · exact Or.inl e

theorem Inv.releaseStep {s s' : State} {u : Tid} (hinv : Inv c objs s)
    (h : s.releaseStep u = some s') : Inv c objs s' := by
  unfold State.releaseStep at h
  cases hu : s.others u with
  | idle => rw [hu] at h; cases h
  | recursion hd =>
    simp only [hu] at h
    cases ho : s.objs hd with
    | mutex lock owner r =>
      simp only [ho] at h
      cases h
      refine hinv.releaseWrite (fun hq => (hq u).1 hu) ho (Or.inl rfl) ?_
      intro h' hne
      by_cases hz : r - 1 = 0
      · rw [if_pos hz]
        exact ⟨by simp, by simpa using hne.symm, by simp⟩
      · rw [if_neg hz]
        exact ⟨by simp, by simp, by simp⟩
    | _ => simp only [ho] at h; cases h
  | owner hd =>
    simp only [hu] at h
    cases ho : s.objs hd with
    | mutex lock owner r =>
      simp only [ho] at h
      cases h
      refine hinv.releaseWrite (fun hq => (hq u).2.1 hu) ho (Or.inr rfl) ?_
      intro h' hne
      exact ⟨by simp, by simp, by simpa using hne.symm⟩
    | _ => simp only [ho] at h; cases h
  | lock hd =>
    simp only [hu] at h
    cases ho : s.objs hd with
    | mutex lock owner r =>
      simp only [ho] at h
      cases h
      refine hinv.releaseWrite (fun hq => (hq u).2.2 hu) ho (Or.inl rfl) ?_
      intro h' hne
      exact ⟨by simp, by simp, by simp⟩
    | _ => simp only [ho] at h; cases h

theorem Inv.releaseMutex {s : State} {u : Tid} {h : Nat} {lock : Bool} {r : BitVec 32}
    (hinv : Inv c objs s) (hu : u ≠ c.me) (hs : s.objs h = .mutex lock u.val r) :
    Inv c objs (s.setOther u (.recursion h)) := by
  refine ⟨⟨hinv.objsOk.kind, hinv.objsOk.manual, hinv.objsOk.auto, ?_⟩,
    hinv.progress.others rfl rfl rfl fun h' hn => hn⟩
  intro h' lock₀ owner₀ r₀ hh hown
  obtain ⟨hq, lock₁, owner₁, r₁, h₁, hcases⟩ := hinv.objsOk.mutex h' lock₀ owner₀ r₀ hh hown
  have hne : h' ≠ h := by
    intro e
    subst e
    rw [hs] at h₁
    cases h₁
    rcases hcases with ⟨-, h₂⟩ | h₂ | ⟨h₂, -⟩
    · exact u.2 h₂
    · exact hu (Subtype.ext h₂)
    · exact u.2 h₂
  refine ⟨quiet_setOther hq ?_, lock₁, owner₁, r₁, h₁, hcases⟩
  exact ⟨by simpa using hne.symm, by simp, by simp⟩

theorem Inv.step {s s' : State} {a : Action} (hcompat : Compatible c objs)
    (hall : c.waitAll = true) (hkinds : ∀ h ∈ c.handles, (objs h).kind.waitable = true)
    (hinv : Inv c objs s) (h : s.next c a = some s') : Inv c objs s' := by
  cases a with
  | access => exact hinv.access hcompat hall hkinds h
  | tick ns =>
    cases h
    exact ⟨hinv.objsOk.of_eq rfl rfl rfl fun i h e => e,
      hinv.progress.others rfl rfl rfl fun h' hn => hn⟩
  | setEvent hd =>
    simp only [State.next] at h
    cases ho : s.objs hd with
    | event manual signaled =>
      simp only [ho] at h
      cases h
      refine ⟨?_, hinv.progress.others rfl rfl rfl ?_⟩
      · refine hinv.objsOk.write_other ho rfl rfl (fun j hj => hj) rfl rfl nofun ?_ ?_
        · intro e; cases e; rfl
        · intro e; cases e; exact Or.inl rfl
      · intro h' hn
        exact notMine_update (h := hd) hn rfl (fun _ _ _ e => by cases e)
    | _ => simp only [ho] at h; cases h
  | releaseSemaphore hd k =>
    simp only [State.next] at h
    cases ho : s.objs hd with
    | semaphore count =>
      simp only [ho] at h
      cases h
      refine ⟨?_, hinv.progress.others rfl rfl rfl ?_⟩
      · exact hinv.objsOk.write_other ho rfl rfl (fun j hj => hj) rfl rfl nofun nofun nofun
      · intro h' hn
        exact notMine_update (h := hd) hn rfl (fun _ _ _ e => by cases e)
    | _ => simp only [ho] at h; cases h
  | releaseMutex u hd =>
    simp only [State.next] at h
    by_cases hu : u = c.me ∨ s.others u ≠ .idle
    · rw [if_pos hu] at h; cases h
    · rw [if_neg hu] at h
      cases ho : s.objs hd with
      | mutex lock owner r =>
        simp only [ho] at h
        cases h
        by_cases hown : owner = u.val
        · rw [if_pos hown]
          exact hinv.releaseMutex (fun e => hu (Or.inl e)) (hown ▸ ho)
        · rw [if_neg hown]
          exact hinv
      | _ => simp only [ho] at h; cases h
  | releaseStep u =>
    simp only [State.next] at h
    split at h
    · cases h
    · exact hinv.releaseStep h

theorem inv_start {s : State} (hsettled : ∀ h, (objs h).settled)
    (h : (waitMultiple c objs).init s) : Inv c objs s := by
  obtain ⟨hobjs, hpc, hidle, htaken⟩ := h
  refine ⟨⟨?_, ?_, ?_, ?_⟩, ?_⟩
  · rw [hobjs]; exact fun _ => rfl
  · rw [hobjs]; exact fun _ e => e
  · rw [hobjs]; exact fun _ e => Or.inl e
  · intro h lock owner r hh hown
    refine ⟨?_, lock, owner, r, hobjs ▸ hh, ?_⟩
    · intro u
      rw [hidle u]
      exact ⟨by simp, by simp, by simp⟩
    · have hset : lock = true ↔ owner ≠ 0 := by
        have := hsettled h
        rw [hh] at this
        exact this
      rcases hown with e | e
      · refine Or.inl ⟨?_, e⟩
        cases lock with
        | false => rfl
        | true => exact absurd e (hset.mp rfl)
      · exact Or.inr (Or.inl e)
  · rw [hpc]
    exact htaken

theorem allOrNothing_of_compatible (hcompat : Compatible c objs) (hall : c.waitAll = true)
    (hkinds : ∀ h ∈ c.handles, (objs h).kind.waitable = true)
    (hsettled : ∀ h, (objs h).settled) : AllOrNothing c objs := by
  intro s hs
  have hinv : Inv c objs s :=
    hs.invariant (fun _ => inv_start hsettled) fun _ _ _ hi hn => hi.step hcompat hall hkinds hn
  have hp := hinv.progress
  refine ⟨?_, ?_⟩
  · intro hpc
    rcases hpc with hpc | hpc <;> rw [hpc] at hp <;> exact hp
  · intro r hpc i h hi
    rw [hpc] at hp
    rw [show s.taken = _ from hp]
    exact count_consumedBelow (List.getElem?_eq_some_iff.mp hi).1 hi

end WinCompat.Sync.WaitMultiple
