import WinCompat.Lib.Bytes
import WinCompat.Lib.Machine

/-!
# Thread-local storage: `TlsAlloc`, `TlsFree`, `TlsGetValue`, `TlsSetValue`

The 64 slots of the process, each a flag under one mutex and a map from thread ids to pointers
under another. A step of the machine is one critical section: `TlsAlloc` looks at the flags one
slot at a time, and `TlsFree` holds the flag's mutex while it clears the map.

The machine also keeps the trace of what was done, newest first. What a slot should hold is read
off the trace alone (`stored`), and so is when a step keeps it that way (`Step.Clean`): a thread
that starts must not inherit a pointer left under its id, and nothing is stored in a slot that is
not allocated.
-/

namespace WinCompat.Thread

open WinCompat.Lib WinCompat.Lib.Bytes

/-- `TLS_MINIMUM_AVAILABLE`. -/
def tlsMinimumAvailable : Nat := 64

/-- `TLS_OUT_OF_INDEXES`. -/
def tlsOutOfIndexes : Nat := 0xFFFFFFFF

/-- What `gettid` answers. -/
abbrev Tid := Word

/-! ## The slots -/

structure TlsSlot where
  inUse : Bool
  /-- The thread that holds the mutex of `inUse` between two steps. -/
  inUseHolder : Option Tid
  values : Tid → Option Word

abbrev Slots := Nat → TlsSlot

/-- `tls_get_value(index)` on thread `tid`. -/
def tlsGetValue (slots : Slots) (tid : Tid) (index : Nat) : Word :=
  if tlsMinimumAvailable ≤ index then 0
  else ((slots index).values tid).getD 0

/-- `tls_set_value(index, value)` on thread `tid`. -/
def tlsSetValue (slots : Slots) (tid : Tid) (index : Nat) (value : Word) : Nat × Slots :=
  if tlsMinimumAvailable ≤ index then (0, slots)
  else
    (1, Function.update slots index
      { slots index with values := Function.update (slots index).values tid (some value) })

/-! ## What was done -/

inductive Event
  /-- `TlsAlloc` returned the slot. -/
  | allocated (index : Nat)
  /-- `TlsFree` of the slot returned TRUE. -/
  | freed (index : Nat)
  /-- `TlsSetValue` on the thread returned TRUE. -/
  | stored (tid : Tid) (index : Nat) (value : Word)
  | started (tid : Tid)
  | exited (tid : Tid)

/-- The slot was returned by a `TlsAlloc` and has not been freed since. -/
def allocated : List Event → Nat → Bool
  | [], _ => false
  | .allocated j :: tr, i => j == i || allocated tr i
  | .freed j :: tr, i => j != i && allocated tr i
  | _ :: tr, i => allocated tr i

/-- The last value stored under the id since the slot's current allocation, NULL if there is none,
    whichever thread of that id stored it. -/
def lastUnder : List Event → Tid → Nat → Word
  | [], _, _ => 0
  | .allocated j :: tr, t, i => if j = i then 0 else lastUnder tr t i
  | .freed j :: tr, t, i => if j = i then 0 else lastUnder tr t i
  | .stored u j v :: tr, t, i =>
    if u = t ∧ j = i ∧ allocated tr i then v else lastUnder tr t i
  | _ :: tr, t, i => lastUnder tr t i

/-- **What `TlsGetValue` is for**: the last value the thread itself stored since the slot's current
    allocation and since it started, NULL if there is none. -/
def stored : List Event → Tid → Nat → Word
  | [], _, _ => 0
  | .allocated j :: tr, t, i => if j = i then 0 else stored tr t i
  | .freed j :: tr, t, i => if j = i then 0 else stored tr t i
  | .stored u j v :: tr, t, i => if u = t ∧ j = i ∧ allocated tr i then v else stored tr t i
  | .started u :: tr, t, i => if u = t then 0 else stored tr t i
  | _ :: tr, t, i => stored tr t i

/-- Every slot that `TlsAlloc` returned was not allocated at the time. -/
def NoSlotTwice : List Event → Prop
  | [] => True
  | .allocated i :: tr => allocated tr i = false ∧ NoSlotTwice tr
  | _ :: tr => NoSlotTwice tr

/-! ## The machine -/

/-- Where a thread is. -/
inductive Pc
  /-- Outside, with what the last call returned. -/
  | idle (result : Nat)
  /-- `TlsAlloc`, before the mutex of this slot. -/
  | scanning (index : Nat)
  /-- `TlsFree`, holding the mutex of the slot's flag, before it clears the map. -/
  | clearing (index : Nat)

structure State where
  slots : Slots
  live : Tid → Bool
  pc : Tid → Pc
  /-- Newest first; no step looks at it. -/
  trace : List Event

inductive Step
  | start (tid : Tid)
  | exit (tid : Tid)
  | tlsAlloc (tid : Tid)
  | tlsFree (tid : Tid) (index : Nat)
  | tlsGetValue (tid : Tid) (index : Nat)
  | tlsSetValue (tid : Tid) (index : Nat) (value : Word)
  /-- The thread goes on with the call it is in. -/
  | run (tid : Tid)

namespace State

def goto (s : State) (tid : Tid) (pc : Pc) : State :=
  { s with pc := Function.update s.pc tid pc }

def setSlot (s : State) (index : Nat) (slot : TlsSlot) : State :=
  { s with slots := Function.update s.slots index slot }

def did (s : State) (e : Event) : State := { s with trace := e :: s.trace }

/-- The thread runs guest code, so it may make a call or exit. -/
def outside (s : State) (tid : Tid) : Bool :=
  s.live tid && match s.pc tid with
    | .idle _ => true
    | _ => false

end State

/-- The next turn of the loop in `tls_alloc`. -/
def scan (s : State) (tid : Tid) (i : Nat) : Option State :=
  if i < tlsMinimumAvailable then
    if (s.slots i).inUseHolder.isSome then none
    else if (s.slots i).inUse then some (s.goto tid (.scanning (i + 1)))
    else some (((s.setSlot i { s.slots i with inUse := true }).goto tid (.idle i)).did
      (.allocated i))
  else some (s.goto tid (.idle tlsOutOfIndexes))

/-- `tls_free` up to where it waits for the map's mutex. -/
def beginFree (s : State) (tid : Tid) (i : Nat) : Option State :=
  if tlsMinimumAvailable ≤ i then some (s.goto tid (.idle 0))
  else if (s.slots i).inUseHolder.isSome then none
  else if (s.slots i).inUse then
    some ((s.setSlot i { s.slots i with inUse := false, inUseHolder := some tid }).goto tid
      (.clearing i))
  else some (s.goto tid (.idle 0))

/-- The rest of `tls_free`: the map is cleared, then both mutexes are released. -/
def endFree (s : State) (tid : Tid) (i : Nat) : State :=
  ((s.setSlot i { s.slots i with inUseHolder := none, values := fun _ => none }).goto tid
    (.idle 1)).did (.freed i)

def store (s : State) (tid : Tid) (i : Nat) (v : Word) : State :=
  if tlsMinimumAvailable ≤ i then s.goto tid (.idle 0)
  else ({ s with slots := (tlsSetValue s.slots tid i v).2 }.goto tid
    (.idle (tlsSetValue s.slots tid i v).1)).did (.stored tid i v)

def next (s : State) : Step → Option State
  | .start t =>
    if s.live t then none
    else some (({ s with live := Function.update s.live t true }.goto t (.idle 0)).did (.started t))
  | .exit t =>
    if s.outside t then some ({ s with live := Function.update s.live t false }.did (.exited t))
    else none
  | .tlsAlloc t => if s.outside t then some (s.goto t (.scanning 0)) else none
  | .tlsFree t i => if s.outside t then beginFree s t i else none
  | .tlsGetValue t i =>
    if s.outside t then some (s.goto t (.idle (tlsGetValue s.slots t i).toNat)) else none
  | .tlsSetValue t i v => if s.outside t then some (store s t i v) else none
  | .run t =>
    if s.live t then
      match s.pc t with
      | .idle _ => none
      | .scanning i => scan s t i
      | .clearing i => some (endFree s t i)
    else none

/-- `tls_slots()` as first made, before any thread. -/
def machine : Machine State Step where
  init s := s = ⟨fun _ => ⟨false, none, fun _ => none⟩, fun _ => false, fun _ => .idle 0, []⟩
  next := next

/-! ## The law, and the steps that keep it -/

/-- **Slots are private and start empty.** -/
structure Truthful (s : State) : Prop where
  values : ∀ t i, s.live t = true → tlsGetValue s.slots t i = stored s.trace t i
  fresh : NoSlotTwice s.trace

/-- The step leaves no pointer where a thread that did not store it would find it: no pointer is left
    under the id of a thread that starts, and none is stored in a slot that is not allocated. -/
def Step.Clean (tr : List Event) : Step → Prop
  | .start t => ∀ i, lastUnder tr t i = 0
  | .tlsSetValue _ i v => i < tlsMinimumAvailable → v ≠ 0 → allocated tr i = true
  | _ => True

/-! ## Reading the trace -/

attribute [local simp] lastUnder allocated stored

theorem lastUnder_of_not_allocated {t : Tid} {i : Nat} :
    ∀ {tr : List Event}, allocated tr i = false → lastUnder tr t i = 0 := by
  intro tr
  induction tr with
  | nil => intro _; rfl
  | cons e tr ih =>
    intro h
    cases e with
    | allocated j =>
      simp only [allocated, Bool.or_eq_false_iff] at h
      simp [ih h.2]
    | freed j =>
      by_cases hj : j = i
      · simp [hj]
      · simp only [allocated, bne_iff_ne.mpr hj, Bool.true_and] at h
        simp [hj, ih h]
    | stored u j v =>
      simp only [allocated] at h
      simp [h, ih h]
    | started u => exact ih h
    | exited u => exact ih h

variable {tr : List Event} {e : Event}

theorem stored_eq_lastUnder {t : Tid} {i : Nat} (h : stored tr t i = lastUnder tr t i)
    (he : e = .started t → lastUnder tr t i = 0) :
    stored (e :: tr) t i = lastUnder (e :: tr) t i := by
  cases e with
  | allocated j => simp only [stored, lastUnder, h]
  | freed j => simp only [stored, lastUnder, h]
  | stored u j v => simp only [stored, lastUnder, h]
  | exited u => exact h
  | started u =>
    by_cases hu : u = t
    · subst hu
      simp [he rfl]
    · simp [hu, h]

/-! ## The invariant -/

namespace State

variable {s : State} {t : Tid} {i : Nat}

@[simp] theorem goto_slots {pc : Pc} : (s.goto t pc).slots = s.slots := rfl
@[simp] theorem goto_live {pc : Pc} : (s.goto t pc).live = s.live := rfl
@[simp] theorem goto_trace {pc : Pc} : (s.goto t pc).trace = s.trace := rfl
@[simp] theorem did_slots : (s.did e).slots = s.slots := rfl
@[simp] theorem did_live : (s.did e).live = s.live := rfl
@[simp] theorem did_pc : (s.did e).pc = s.pc := rfl
@[simp] theorem did_trace : (s.did e).trace = e :: s.trace := rfl
@[simp] theorem setSlot_live {slot : TlsSlot} : (s.setSlot i slot).live = s.live := rfl
@[simp] theorem setSlot_pc {slot : TlsSlot} : (s.setSlot i slot).pc = s.pc := rfl
@[simp] theorem setSlot_trace {slot : TlsSlot} : (s.setSlot i slot).trace = s.trace := rfl

theorem goto_pc {pc : Pc} : (s.goto t pc).pc = Function.update s.pc t pc := rfl

theorem setSlot_slots {slot : TlsSlot} :
    (s.setSlot i slot).slots = Function.update s.slots i slot := rfl

theorem live_of_outside (h : s.outside t = true) : s.live t = true := by
  simp only [outside, Bool.and_eq_true] at h
  exact h.1

theorem not_clearing_of_outside (h : s.outside t = true) : s.pc t ≠ .clearing i := by
  intro hpc
  simp [outside, hpc] at h

end State

/-- A flag's mutex is held by the thread that is clearing the slot. -/
structure Locks (s : State) : Prop where
  holder : ∀ i t, (s.slots i).inUseHolder = some t ↔ s.pc t = .clearing i
  busy : ∀ t i, s.pc t = .clearing i → s.live t = true ∧ i < tlsMinimumAvailable

/-- The slots say what the trace says. A slot that is being cleared is still allocated. -/
structure Matches (slots : Slots) (tr : List Event) : Prop where
  flag : ∀ i, allocated tr i = ((slots i).inUse || (slots i).inUseHolder.isSome)
  down : ∀ i, (slots i).inUseHolder.isSome = true → (slots i).inUse = false
  bound : ∀ i, allocated tr i = true → i < tlsMinimumAvailable
  value : ∀ t i, ((slots i).values t).getD 0 = lastUnder tr t i

/-- The slots are as the trace says, under the ids that the threads have had. -/
structure Inv (s : State) : Prop where
  locks : Locks s
  matched : Matches s.slots s.trace
  own : ∀ t i, s.live t = true → stored s.trace t i = lastUnder s.trace t i
  fresh : NoSlotTwice s.trace

variable {s s' : State} {t : Tid} {i : Nat}

theorem Matches.tlsGetValue_eq {slots : Slots} (h : Matches slots tr) (t : Tid) (i : Nat) :
    tlsGetValue slots t i = lastUnder tr t i := by
  by_cases hi : tlsMinimumAvailable ≤ i
  · have hfree : allocated tr i = false := by
      cases ha : allocated tr i with
      | false => rfl
      | true => exact absurd (h.bound i ha) (Nat.not_lt_of_le hi)
    rw [tlsGetValue, if_pos hi, lastUnder_of_not_allocated hfree]
  · rw [tlsGetValue, if_neg hi, h.value]

theorem Inv.truthful (h : Inv s) : Truthful s where
  values t i ht := by rw [h.matched.tlsGetValue_eq, h.own t i ht]
  fresh := h.fresh

/-! ## The mutexes -/

attribute [local simp] State.setSlot_slots State.goto_pc

/-- A thread moves on without holding a mutex. -/
theorem Locks.goto (h : Locks s) (pc : Pc) (hfrom : ∀ i, s.pc t ≠ .clearing i)
    (hto : ∀ i, pc ≠ .clearing i) : Locks (s.goto t pc) := by
  have heq : ∀ u i, (s.goto t pc).pc u = .clearing i ↔ s.pc u = .clearing i := by
    intro u i
    by_cases hu : u = t
    · subst hu
      simp [hfrom, hto]
    · simp [hu]
  constructor
  · intro i u
    rw [heq]
    exact h.holder i u
  · intro u i hu
    exact h.busy u i ((heq u i).mp hu)

theorem Locks.setSlot (h : Locks s) {slot : TlsSlot}
    (hslot : slot.inUseHolder = (s.slots i).inUseHolder) : Locks (s.setSlot i slot) := by
  refine ⟨?_, h.busy⟩
  intro j u
  rw [State.setSlot_pc, ← h.holder j u, State.setSlot_slots]
  by_cases hj : j = i
  · subst hj
    rw [Function.update_self, hslot]
  · rw [Function.update_of_ne hj]

theorem Locks.acquire (h : Locks s) {slot : TlsSlot} (hlive : s.live t = true)
    (hi : i < tlsMinimumAvailable) (hfrom : ∀ j, s.pc t ≠ .clearing j)
    (hfree : (s.slots i).inUseHolder = none) (hslot : slot.inUseHolder = some t) :
    Locks ((s.setSlot i slot).goto t (.clearing i)) := by
  constructor
  · intro j u
    have hold := h.holder j u
    by_cases hj : j = i
    · subst hj
      have hother : s.pc u ≠ .clearing j := by
        rw [Ne, ← hold, hfree]
        simp
      by_cases hu : u = t
      · subst hu
        simp [hslot]
      · simp [hslot, hu, hother, Ne.symm hu]
    · by_cases hu : u = t
      · subst hu
        simp [hj, hold, hfrom j, Ne.symm hj]
      · simp [hj, hu, hold]
  · intro u j hu
    by_cases hut : u = t
    · subst hut
      simp only [State.goto_pc, Function.update_self, Pc.clearing.injEq] at hu
      exact ⟨hlive, hu ▸ hi⟩
    · simp only [State.goto_pc, Function.update_of_ne hut] at hu
      exact h.busy u j hu

theorem Locks.release (h : Locks s) {slot : TlsSlot} {r : Nat} (hpc : s.pc t = .clearing i)
    (hslot : slot.inUseHolder = none) : Locks ((s.setSlot i slot).goto t (.idle r)) := by
  have hmine := (h.holder i t).mpr hpc
  constructor
  · intro j u
    have hold := h.holder j u
    by_cases hu : u = t
    · subst hu
      by_cases hj : j = i
      · subst hj
        simp [hslot]
      · simp [hj, hold, hpc, Ne.symm hj]
    · by_cases hj : j = i
      · subst hj
        have hother : s.pc u ≠ .clearing j := by
          rw [Ne, ← hold, hmine, Option.some.injEq]
          exact Ne.symm hu
        simp [hslot, hu, hother]
      · simp [hj, hu, hold]
  · intro u j hu
    by_cases hut : u = t
    · subst hut
      simp at hu
    · simp only [State.goto_pc, Function.update_of_ne hut] at hu
      exact h.busy u j hu

/-! ## The slots and the trace -/

theorem Matches.update {slots : Slots} {tr tr' : List Event} {slot : TlsSlot}
    (h : Matches slots tr) (hi : i < tlsMinimumAvailable)
    (hother : ∀ j, j ≠ i → allocated tr' j = allocated tr j)
    (hlast : ∀ u j, j ≠ i → lastUnder tr' u j = lastUnder tr u j)
    (hflag : allocated tr' i = (slot.inUse || slot.inUseHolder.isSome))
    (hdown : slot.inUseHolder.isSome = true → slot.inUse = false)
    (hvalue : ∀ u, (slot.values u).getD 0 = lastUnder tr' u i) :
    Matches (Function.update slots i slot) tr' := by
  constructor
  · intro j
    by_cases hj : j = i
    · subst hj
      rw [Function.update_self, hflag]
    · rw [Function.update_of_ne hj, hother j hj, h.flag]
  · intro j
    by_cases hj : j = i
    · subst hj
      rw [Function.update_self]
      exact hdown
    · rw [Function.update_of_ne hj]
      exact h.down j
  · intro j hj
    by_cases hji : j = i
    · exact hji ▸ hi
    · exact h.bound j (hother j hji ▸ hj)
  · intro u j
    by_cases hj : j = i
    · subst hj
      rw [Function.update_self, hvalue]
    · rw [Function.update_of_ne hj, hlast u j hj, h.value]

theorem Matches.alloc {slots : Slots} (h : Matches slots tr) (hi : i < tlsMinimumAvailable)
    (hfree : allocated tr i = false) (hheld : (slots i).inUseHolder = none) :
    Matches (Function.update slots i { slots i with inUse := true }) (.allocated i :: tr) := by
  apply h.update hi
  · intro j hj
    simp [Ne.symm hj]
  · intro u j hj
    simp [Ne.symm hj]
  · simp
  · simp [hheld]
  · intro u
    rw [h.value, lastUnder_of_not_allocated hfree]
    simp

theorem Matches.hold {slots : Slots} (h : Matches slots tr) (hi : i < tlsMinimumAvailable)
    (huse : (slots i).inUse = true) :
    Matches (Function.update slots i { slots i with inUse := false, inUseHolder := some t })
      tr := by
  apply h.update hi
  · exact fun j _ => rfl
  · exact fun u j _ => rfl
  · rw [h.flag, huse]
    rfl
  · exact fun _ => rfl
  · exact fun u => h.value u i

theorem Matches.free {slots : Slots} (h : Matches slots tr) (hi : i < tlsMinimumAvailable)
    (huse : (slots i).inUse = false) :
    Matches (Function.update slots i
      { slots i with inUseHolder := none, values := fun _ => none }) (.freed i :: tr) := by
  apply h.update hi
  · intro j hj
    simp [Ne.symm hj]
  · intro u j hj
    simp [Ne.symm hj]
  · simp [huse]
  · exact fun _ => huse
  · intro u
    simp

variable {v : Word}

theorem Matches.store {slots : Slots} (h : Matches slots tr) (hi : i < tlsMinimumAvailable)
    (hv : v ≠ 0 → allocated tr i = true) :
    Matches (Function.update slots i
      { slots i with values := Function.update (slots i).values t (some v) })
      (.stored t i v :: tr) := by
  apply h.update hi
  · exact fun j _ => rfl
  · intro u j hj
    simp [Ne.symm hj]
  · exact h.flag i
  · exact h.down i
  · intro u
    by_cases hu : u = t
    · subst hu
      simp only [Function.update_self, Option.getD_some]
      cases ha : allocated tr i with
      | true => simp [ha]
      | false =>
        -- NULL in a slot that is not allocated is what the slot holds anyway.
        have hnull : v = 0 := by
          by_contra hne
          rw [hv hne] at ha
          exact Bool.noConfusion ha
        simp [ha, hnull, lastUnder_of_not_allocated ha]
    · simp only [Function.update_of_ne hu, h.value]
      simp [Ne.symm hu]

theorem Matches.thread {slots : Slots} (h : Matches slots tr) (he : e = .started t ∨ e = .exited t) :
    Matches slots (e :: tr) := by
  rcases he with rfl | rfl
  · exact ⟨h.flag, h.down, h.bound, h.value⟩
  · exact ⟨h.flag, h.down, h.bound, h.value⟩

/-! ## One lemma for each critical section -/

theorem Inv.goto (h : Inv s) {pc : Pc} (hfrom : ∀ i, s.pc t ≠ .clearing i)
    (hto : ∀ i, pc ≠ .clearing i) : Inv (s.goto t pc) :=
  ⟨h.locks.goto pc hfrom hto, h.matched, h.own, h.fresh⟩

theorem Inv.scan (h : Inv s) (hpc : s.pc t = .scanning i) (hn : scan s t i = some s') :
    Inv s' := by
  have hfrom : ∀ j, s.pc t ≠ .clearing j := by
    intro j
    simp [hpc]
  unfold Thread.scan at hn
  by_cases hi : i < tlsMinimumAvailable
  · rw [if_pos hi] at hn
    by_cases hheld : (s.slots i).inUseHolder.isSome = true
    · simp [hheld] at hn
    by_cases huse : (s.slots i).inUse = true
    · simp only [hheld, huse, if_true] at hn
      cases hn
      apply h.goto hfrom
      intro j
      simp
    · simp only [hheld, huse] at hn
      cases hn
      have hfree : allocated s.trace i = false := by
        rw [h.matched.flag]
        simp [hheld, huse]
      have hnone : (s.slots i).inUseHolder = none := by simpa using hheld
      refine ⟨?_, h.matched.alloc hi hfree hnone, ?_, hfree, h.fresh⟩
      · have hlocks : Locks (s.setSlot i { s.slots i with inUse := true }) := h.locks.setSlot rfl
        have hidle := hlocks.goto (.idle i) hfrom fun j => by simp
        exact ⟨hidle.holder, hidle.busy⟩
      · intro u j hu
        exact stored_eq_lastUnder (h.own u j hu) (by simp)
  · rw [if_neg hi] at hn
    cases hn
    apply h.goto hfrom
    intro j
    simp

theorem Inv.beginFree (h : Inv s) (hout : s.outside t = true)
    (hn : beginFree s t i = some s') : Inv s' := by
  have hfrom : ∀ j, s.pc t ≠ .clearing j := fun j => State.not_clearing_of_outside hout
  have hidle : Inv (s.goto t (.idle 0)) := h.goto hfrom fun j => by simp
  unfold Thread.beginFree at hn
  by_cases hi : tlsMinimumAvailable ≤ i
  · rw [if_pos hi] at hn
    cases hn
    exact hidle
  rw [if_neg hi] at hn
  by_cases hheld : (s.slots i).inUseHolder.isSome = true
  · simp [hheld] at hn
  by_cases huse : (s.slots i).inUse = true
  · simp only [hheld, huse, if_true] at hn
    cases hn
    have hlt := Nat.lt_of_not_le hi
    have hnone : (s.slots i).inUseHolder = none := by simpa using hheld
    exact ⟨h.locks.acquire (State.live_of_outside hout) hlt hfrom hnone rfl,
      h.matched.hold hlt huse, h.own, h.fresh⟩
  · simp only [hheld, huse] at hn
    cases hn
    exact hidle

theorem Inv.endFree (h : Inv s) (hpc : s.pc t = .clearing i) : Inv (endFree s t i) := by
  have huse : (s.slots i).inUse = false := by
    apply h.matched.down
    rw [(h.locks.holder i t).mpr hpc]
    rfl
  have hlocks : Locks ((s.setSlot i
      { s.slots i with inUseHolder := none, values := fun _ => none }).goto t (.idle 1)) :=
    h.locks.release hpc rfl
  refine ⟨⟨hlocks.holder, hlocks.busy⟩, h.matched.free (h.locks.busy t i hpc).2 huse, ?_,
    h.fresh⟩
  intro u j hu
  exact stored_eq_lastUnder (h.own u j hu) (by simp)

theorem store_of_le (hi : tlsMinimumAvailable ≤ i) : store s t i v = s.goto t (.idle 0) := if_pos hi

theorem store_of_lt (hi : i < tlsMinimumAvailable) :
    store s t i v = ((s.setSlot i
        { s.slots i with values := Function.update (s.slots i).values t (some v) }).goto t
      (.idle 1)).did (.stored t i v) := by
  unfold store tlsSetValue
  rw [if_neg (Nat.not_le_of_lt hi), if_neg (Nat.not_le_of_lt hi)]
  rfl

theorem Inv.store (h : Inv s) (hout : s.outside t = true)
    (hv : i < tlsMinimumAvailable → v ≠ 0 → allocated s.trace i = true) : Inv (store s t i v) := by
  have hfrom : ∀ j, s.pc t ≠ .clearing j := fun j => State.not_clearing_of_outside hout
  by_cases hi : tlsMinimumAvailable ≤ i
  · rw [store_of_le hi]
    exact h.goto hfrom fun j => by simp
  · have hlt := Nat.lt_of_not_le hi
    have hlocks : Locks (s.setSlot i
        { s.slots i with values := Function.update (s.slots i).values t (some v) }) :=
      h.locks.setSlot rfl
    have hidle := hlocks.goto (.idle 1) hfrom fun j => by simp
    rw [store_of_lt hlt]
    refine ⟨⟨hidle.holder, hidle.busy⟩, h.matched.store hlt (hv hlt), ?_, h.fresh⟩
    intro u j hu
    exact stored_eq_lastUnder (h.own u j hu) (by simp)

theorem Inv.start (h : Inv s) (hdead : s.live t = false) (hclean : ∀ i, lastUnder s.trace t i = 0)
    (hn : next s (.start t) = some s') : Inv s' := by
  simp only [next, hdead] at hn
  cases hn
  have hfrom : ∀ j, s.pc t ≠ .clearing j := by
    intro j hj
    rw [(h.locks.busy t j hj).1] at hdead
    exact Bool.noConfusion hdead
  have hidle := h.locks.goto (.idle 0) hfrom fun j => by simp
  refine ⟨⟨hidle.holder, ?_⟩, h.matched.thread (Or.inl rfl), ?_, h.fresh⟩
  · intro u j hu
    refine ⟨?_, (hidle.busy u j hu).2⟩
    have hold : s.live u = true := (hidle.busy u j hu).1
    by_cases hut : u = t
    · subst hut
      simp
    · simpa [hut] using hold
  · intro u j hu
    by_cases hut : u = t
    · subst hut
      simp [hclean j]
    · apply stored_eq_lastUnder (h.own u j (by simpa [hut] using hu))
      intro he
      cases he
      exact hclean j

theorem Inv.exit (h : Inv s) (hout : s.outside t = true) :
    Inv ({ s with live := Function.update s.live t false }.did (.exited t)) := by
  refine ⟨⟨h.locks.holder, ?_⟩, h.matched.thread (Or.inr rfl), ?_, h.fresh⟩
  · intro u j hu
    have hut : u ≠ t := by
      intro heq
      subst heq
      exact State.not_clearing_of_outside hout hu
    simp [hut, h.locks.busy u j hu]
  · intro u j hu
    by_cases hut : u = t
    · subst hut
      simp at hu
    · exact stored_eq_lastUnder (h.own u j (by simpa [hut] using hu)) (by simp)

/-! ## Every run -/

theorem inv_init (h : machine.init s) : Inv s := by
  cases h
  refine ⟨⟨?_, ?_⟩, ⟨?_, ?_, ?_, ?_⟩, ?_, trivial⟩
  · simp
  · simp
  · simp
  · simp
  · simp
  · simp
  · simp

theorem Inv.step (h : Inv s) {a : Step} (hclean : a.Clean s.trace)
    (hn : machine.next s a = some s') : Inv s' := by
  cases a with
  | start t =>
    cases hlive : s.live t with
    | true => simp [machine, next, hlive] at hn
    | false => exact h.start hlive hclean hn
  | exit t =>
    simp only [machine, next, Option.ite_none_right_eq_some, Option.some.injEq] at hn
    obtain ⟨hout, rfl⟩ := hn
    exact h.exit hout
  | tlsAlloc t =>
    simp only [machine, next, Option.ite_none_right_eq_some, Option.some.injEq] at hn
    obtain ⟨hout, rfl⟩ := hn
    exact h.goto (fun j => State.not_clearing_of_outside hout) fun j => by simp
  | tlsFree t i =>
    simp only [machine, next, Option.ite_none_right_eq_some] at hn
    exact h.beginFree hn.1 hn.2
  | tlsGetValue t i =>
    simp only [machine, next, Option.ite_none_right_eq_some, Option.some.injEq] at hn
    obtain ⟨hout, rfl⟩ := hn
    exact h.goto (fun j => State.not_clearing_of_outside hout) fun j => by simp
  | tlsSetValue t i v =>
    simp only [machine, next, Option.ite_none_right_eq_some, Option.some.injEq] at hn
    obtain ⟨hout, rfl⟩ := hn
    exact h.store hout hclean
  | run t =>
    simp only [machine, next, Option.ite_none_right_eq_some] at hn
    obtain ⟨-, hn⟩ := hn
    cases hpc : s.pc t with
    | idle r => simp [hpc] at hn
    | scanning i =>
      rw [hpc] at hn
      exact h.scan hpc hn
    | clearing i =>
      rw [hpc] at hn
      cases hn
      exact h.endFree hpc

theorem Inv.step_not_clean (h : Inv s) {a : Step} (hclean : ¬ a.Clean s.trace)
    (hn : machine.next s a = some s') : ¬ Truthful s' := by
  intro htrue
  cases a with
  | start t =>
    cases hlive : s.live t with
    | true => simp [machine, next, hlive] at hn
    | false =>
      simp only [machine, next, hlive] at hn
      cases hn
      apply hclean
      intro i
      have hnull := htrue.values t i (by simp)
      rw [← h.matched.tlsGetValue_eq t i]
      simpa using hnull
  | tlsSetValue t i v =>
    simp only [machine, next, Option.ite_none_right_eq_some, Option.some.injEq] at hn
    obtain ⟨hout, rfl⟩ := hn
    simp only [Step.Clean, not_forall] at hclean
    obtain ⟨hi, hv, ha⟩ := hclean
    have hlive := State.live_of_outside hout
    have hfree : allocated s.trace i = false := by simpa using ha
    rw [store_of_lt hi] at htrue
    have hnull := htrue.values t i hlive
    have hown := h.own t i hlive
    rw [lastUnder_of_not_allocated hfree] at hown
    apply hv
    simpa [tlsGetValue, Nat.not_le_of_lt hi, hfree, hown] using hnull
  | exit t => exact hclean trivial
  | tlsAlloc t => exact hclean trivial
  | tlsFree t i => exact hclean trivial
  | tlsGetValue t i => exact hclean trivial
  | run t => exact hclean trivial

theorem inv_of_clean (h : machine.ReachableIf (fun s a => a.Clean s.trace) s) : Inv s :=
  h.invariant (fun _ => inv_init) fun _ _ _ hinv hclean hn => hinv.step hclean hn

/-- **TLS is private exactly while every step is clean.** On every run of clean steps the law holds,
    and it goes on to hold after the next step if and only if that step is clean. -/
theorem tls_private_iff_clean (hs : machine.ReachableIf (fun s a => a.Clean s.trace) s) :
    Truthful s ∧ ∀ a s', machine.next s a = some s' → (Truthful s' ↔ a.Clean s.trace) := by
  have hinv := inv_of_clean hs
  refine ⟨hinv.truthful, ?_⟩
  intro a s' hn
  constructor
  · intro htrue
    by_contra hnot
    exact hinv.step_not_clean hnot hn htrue
  · intro hclean
    exact (hinv.step hclean hn).truthful

/-! ## An id is used again -/

def startState : State := ⟨fun _ => ⟨false, none, fun _ => none⟩, fun _ => false, fun _ => .idle 0, []⟩

/-- Thread 7 allocates a slot, stores a pointer and exits. -/
def storeAndExit : List Step :=
  [.start 7, .tlsAlloc 7, .run 7, .tlsSetValue 7 0 0x1000, .exit 7]

/-- The state `storeAndExit` leads to. -/
def leftBehind : State := (machine.exec startState storeAndExit).getD startState

theorem leftBehind_clean : machine.ReachableIf (fun s a => a.Clean s.trace) leftBehind := by
  have h₀ : machine.ReachableIf (fun s a => a.Clean s.trace) startState := .start rfl
  have h₁ := h₀.step (show (Step.start 7).Clean _ from fun _ => rfl) rfl
  have h₂ := h₁.step (show (Step.tlsAlloc 7).Clean _ from trivial) rfl
  have h₃ := h₂.step (show (Step.run 7).Clean _ from trivial) rfl
  have h₄ := h₃.step (show (Step.tlsSetValue 7 0 0x1000).Clean _ from fun _ _ => rfl) rfl
  exact h₄.step (show (Step.exit 7).Clean _ from trivial) rfl

theorem tls_private_iff_clean_leftBehind :
    Truthful leftBehind ∧ ∀ a s', machine.next leftBehind a = some s' →
      (Truthful s' ↔ a.Clean leftBehind.trace) :=
  tls_private_iff_clean leftBehind_clean

/-- A new thread 7 finds the pointer of the old one. -/
theorem reusedId_not_private :
    ∃ s, machine.exec startState (storeAndExit ++ [.start 7]) = some s ∧
      s.live 7 = true ∧ tlsGetValue s.slots 7 0 = 0x1000 ∧ ¬ Truthful s := by
  refine ⟨_, rfl, rfl, rfl, ?_⟩
  intro htrue
  exact absurd (htrue.values 7 0 rfl) (by decide)

end WinCompat.Thread
