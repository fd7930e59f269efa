import WinCompat.Lib.Bytes
import WinCompat.Lib.Count
import WinCompat.Lib.Machine

/-!
# `WaitOnAddress`

`wait_on_address`, `wake_by_address_single` and `wake_by_address_all` of `ntapi/src/sync.rs`, on
`futex_wait` and `futex_wake` of `futex.rs`. A location of four bytes is waited for in the kernel,
one of 1, 2 or 8 bytes by looking at it every millisecond. Every load of the location, every store,
every `futex_wait` and every `futex_wake` is one step of one thread; `futex_wait` and `nanosleep`
return whenever the label says.

A thread that leaves `futex_wait` looks at the location again, and waits again while the value is
the one it compares with. So a call that wakes is a reason to look, and none to return.
-/

namespace WinCompat.Sync.OnAddress

open Lib Lib.Bytes

/-- The kernel has no more threads than this. -/
def pidMaxLimit : Nat := 2 ^ 22

/-- `INFINITE` -/
def infinite : BitVec 32 := 0xFFFFFFFF

/-- The arguments of `wait_on_address`; `compare` are the bytes at the pointer, `none` for a null
    pointer. They are the caller's own and do not change during the call. -/
structure Wait where
  addr : Word
  compare : Option (Nat → Byte)
  size : Nat
  timeout : BitVec 32

namespace Wait

/-- Neither pointer is null, and the size is one that there is a strategy for. -/
def Supported (w : Wait) : Prop :=
  w.addr ≠ 0 ∧ w.compare.isSome = true ∧ (w.size = 4 ∨ w.size = 8 ∨ w.size = 1 ∨ w.size = 2)

instance (w : Wait) : Decidable w.Supported := by
  unfold Supported
  infer_instance

/-- The bytes at the location. -/
def location (m : Mem) (w : Wait) : List Byte :=
  (List.range w.size).map fun i => m (w.addr + BitVec.ofNat 64 i)

def expected (w : Wait) : List Byte := (List.range w.size).map (w.compare.getD fun _ => 0)

/-- `deadline_ns` -/
def deadline (w : Wait) (now : Nat) : Option Nat :=
  if w.timeout = infinite then none else some (now + w.timeout.toNat * 1000000)

end Wait

/-! ## Threads -/

inductive Pc
  | idle
  -- The load at the top of the loop.
  | load
  -- Has loaded the compare value; the comparison of the clock with the deadline.
  | clock
  -- `futex_wait`, with a time limit or without.
  | futex (limited : Bool)
  | asleep (limited : Bool)
  -- In `nanosleep`.
  | nap
  -- The `futex_wake` of one of the calls that wake.
  | wake (addr : Word) (all : Bool)
  deriving DecidableEq

namespace Pc

def isAsleep : Pc → Bool
  | asleep _ => true
  | _ => false

/-- In `futex_wait` or `nanosleep`. -/
def blocked : Pc → Bool
  | asleep _ | nap => true
  | _ => false

/-- Inside `wait_on_address`. -/
def inCall : Pc → Bool
  | load | clock | futex _ | asleep _ | nap => true
  | idle | wake _ _ => false

/-- Past a load, on the way into `futex_wait` or in it. -/
def past : Pc → Bool
  | clock | futex _ | asleep _ => true
  | _ => false

/-- Where a thread blocks, by the size of its location. -/
def blocking (size : Nat) (limited : Bool) : Pc := if size = 4 then futex limited else nap

end Pc

/-- What has happened in a call so far. No step depends on it. -/
structure Log where
  /-- The location has differed from the compare value. -/
  differed : Bool
  /-- `WakeByAddressAll` has been called for the location since the thread fell asleep. -/
  struck : Bool
  /-- `WakeByAddressAll` has been called for the location while the thread was blocked. -/
  called : Bool
  /-- The thread has loaded the location, and the compare value, since that call. -/
  looked : Bool

structure Thread where
  pc : Pc
  wait : Wait
  deadline : Option Nat
  result : Option Bool
  log : Log

namespace Thread

def goto (th : Thread) (pc : Pc) : Thread := { th with pc }

/-- The call returns TRUE or FALSE. -/
def returns (th : Thread) (result : Bool) : Thread := { th with pc := .idle, result := some result }

def start (th : Thread) (now : Nat) (w : Wait) : Thread :=
  if w.Supported then ⟨.load, w, w.deadline now, none, ⟨false, false, false, false⟩⟩
  else { th with wait := w, result := some false }

/-- The next step of a thread in the call. -/
def access (m : Mem) (now : Nat) (th : Thread) : Option Thread :=
  match th.pc with
  | .load =>
      if th.wait.location m = th.wait.expected then
        let th := { th with log := { th.log with looked := true } }
        some (th.goto (if th.deadline.isSome then .clock else .blocking th.wait.size false))
      else some (th.returns true)
  | .clock =>
      match th.deadline with
      | some d =>
          some (if d ≤ now then th.returns false else th.goto (.blocking th.wait.size true))
      | none => none
  | .futex limited =>
      -- An address that is not a multiple of 4 is refused, and the call returns at once.
      if th.wait.addr.toNat % 4 = 0 ∧ th.wait.location m = th.wait.expected then
        some { th with pc := .asleep limited, log := { th.log with struck := false } }
      else some (th.goto .load)
  | _ => none

def blockedAt (th : Thread) (addr : Word) : Bool := th.pc.blocked && th.wait.addr = addr

def asleepAt (th : Thread) (addr : Word) : Bool := th.pc.isAsleep && th.wait.addr = addr

/-- `WakeByAddressAll` is called for the address. -/
def mark (th : Thread) (addr : Word) : Thread :=
  if th.blockedAt addr then
    { th with log := { th.log with struck := true, called := true, looked := false } }
  else th

/-- A `futex_wake` on the address, which wakes the thread or does not. -/
def hit (th : Thread) (addr : Word) (all woken : Bool) : Thread :=
  let th := if all then th.mark addr else th
  if woken then th.goto .load else th

/-- What there is to see at this moment. -/
def observe (m : Mem) (th : Thread) : Thread :=
  { th with log := { th.log with
    differed := th.log.differed ||
      (th.pc.inCall && decide (th.wait.location m ≠ th.wait.expected)) } }

end Thread

/-! ## The machine -/

structure State (n : Nat) where
  mem : Mem
  now : Nat
  threads : Fin n → Thread

inductive Action (n : Nat)
  | call (w : Wait)
  | access
  -- `futex_wait` or `nanosleep` returns.
  | resume
  | store (addr : Word) (bytes : List Byte)
  | wakeCall (addr : Word) (all : Bool)
  -- The `futex_wake`, which wakes these.
  | wake (who : Fin n → Bool)

inductive Label (n : Nat)
  | tick (ns : Nat)
  | thread (t : Fin n) (a : Action n)

/-- `bytes` stored from `addr` on. -/
def storeBytes (m : Mem) (addr : Word) (bytes : List Byte) : Mem := fun x =>
  (bytes[(x - addr).toNat]?).getD (m x)

/-- The argument of `futex_wake`. -/
def wakeCount (all : Bool) : Nat := if all then 2 ^ 31 - 1 else 1

variable {n : Nat}

namespace State

def set (s : State n) (t : Fin n) (th : Thread) : State n :=
  { s with threads := Function.update s.threads t th }

/-- What `futex_wake` may wake. -/
def Wakeable (s : State n) (addr : Word) (all : Bool) (who : Fin n → Bool) : Prop :=
  (∀ u, who u = true → (s.threads u).asleepAt addr = true) ∧
    countWhere id who =
      min (countWhere (fun th : Thread => th.asleepAt addr) s.threads) (wakeCount all)

instance (s : State n) (addr : Word) (all : Bool) (who : Fin n → Bool) :
    Decidable (s.Wakeable addr all who) :=
  inferInstanceAs (Decidable (_ ∧ _))

def step (s : State n) : Label n → Option (State n)
  | .tick ns => some { s with now := s.now + ns }
  | .thread t (.call w) =>
      if (s.threads t).pc = .idle then some (s.set t ((s.threads t).start s.now w)) else none
  | .thread t .access => ((s.threads t).access s.mem s.now).map (s.set t)
  | .thread t .resume =>
      if (s.threads t).pc.blocked then some (s.set t ((s.threads t).goto .load)) else none
  | .thread t (.store addr bytes) =>
      if (s.threads t).pc = .idle then some { s with mem := storeBytes s.mem addr bytes } else none
  | .thread t (.wakeCall addr all) =>
      if (s.threads t).pc = .idle then
        some (if addr = 0 then s else s.set t ((s.threads t).goto (.wake addr all)))
      else none
  | .thread t (.wake who) =>
      match (s.threads t).pc with
      | .wake addr all =>
          if s.Wakeable addr all who then
            let s' := { s with threads := fun u => (s.threads u).hit addr all (who u) }
            some (s'.set t ((s.threads t).goto .idle))
          else none
      | _ => none

def observed (s : State n) : State n :=
  { s with threads := fun u => (s.threads u).observe s.mem }

end State

/-- Any number of threads that the kernel can have, each in no call. -/
def machine (n : Nat) : Machine (State n) (Label n) where
  init s := n ≤ pidMaxLimit ∧ ∀ t, (s.threads t).pc = .idle ∧ (s.threads t).result = none
  next s l := (s.step l).map State.observed

/-! ## What holds of a thread -/

/-- What is promised of a thread's call, in every state. -/
structure Thread.Ok (now : Nat) (th : Thread) : Prop where
  /-- TRUE is returned after the location has differed from the compare value. -/
  returnsTrue : th.result = some true → th.log.differed = true
  /-- FALSE is returned after the deadline. -/
  returnsFalse : th.result = some false → th.wait.Supported →
    ∃ d, th.deadline = some d ∧ d ≤ now
  /-- A call of `WakeByAddressAll` leaves no thread asleep that was. -/
  notStruck : th.pc.isAsleep = true → th.log.struck = false
  /-- A thread that was blocked when it was called loads the location before it sleeps again. -/
  looks : th.pc.past = true → th.log.called = true → th.log.looked = true

/-- A location that differs has been seen to. -/
def Thread.Seen (m : Mem) (th : Thread) : Prop :=
  th.pc.inCall = true → th.wait.location m ≠ th.wait.expected → th.log.differed = true

namespace Thread

variable {m : Mem} {now : Nat} {th th' : Thread}

theorem seen_observe (m : Mem) (th : Thread) : (th.observe m).Seen m := by
  intro hcall hne
  have hcall : th.pc.inCall = true := hcall
  have hne : th.wait.location m ≠ th.wait.expected := hne
  simp [observe, hcall, hne]

namespace Ok

theorem observe (h : th.Ok now) (m : Mem) : (th.observe m).Ok now where
  returnsTrue hr := by simp [Thread.observe, h.returnsTrue hr]
  returnsFalse := h.returnsFalse
  notStruck := h.notStruck
  looks := h.looks

theorem later (h : th.Ok now) (ns : Nat) : th.Ok (now + ns) where
  returnsTrue := h.returnsTrue
  returnsFalse hr hw := by
    obtain ⟨d, hd, hle⟩ := h.returnsFalse hr hw
    exact ⟨d, hd, Nat.le_add_right_of_le hle⟩
  notStruck := h.notStruck
  looks := h.looks

theorem goto (h : th.Ok now) {pc : Pc} (hpc : pc.past = false) : (th.goto pc).Ok now where
  returnsTrue := h.returnsTrue
  returnsFalse := h.returnsFalse
  notStruck hasleep := by
    cases pc <;> simp_all [Thread.goto, Pc.isAsleep, Pc.past]
  looks hpast := by
    have hpast : pc.past = true := hpast
    rw [hpc] at hpast
    cases hpast

theorem start (h : th.Ok now) (w : Wait) : (th.start now w).Ok now := by
  unfold Thread.start
  split_ifs with hw
  · exact ⟨nofun, nofun, nofun, nofun⟩
  · exact ⟨nofun, fun _ hw' => absurd hw' hw, h.notStruck, h.looks⟩

theorem blocking_asleep (size : Nat) (limited : Bool) :
    (Pc.blocking size limited).isAsleep = false := by
  unfold Pc.blocking
  split_ifs <;> rfl

theorem access (h : th.Ok now) (hseen : th.Seen m) (hn : th.access m now = some th') :
    th'.Ok now := by
  unfold Thread.access at hn
  split at hn
  · next hpc =>
    split_ifs at hn with heq
    · cases hn
      refine ⟨h.returnsTrue, h.returnsFalse, ?_, fun _ _ => rfl⟩
      intro hasleep
      have hnot := blocking_asleep th.wait.size false
      simp only [Thread.goto] at hasleep
      split_ifs at hasleep
      · cases hasleep
      · rw [hnot] at hasleep
        cases hasleep
    · cases hn
      exact ⟨fun _ => hseen (by rw [hpc]; rfl) heq, nofun, nofun, nofun⟩
  · next hpc =>
    have hlooked := h.looks (by rw [hpc]; rfl)
    split at hn
    · next d hd =>
      cases hn
      split_ifs with hle
      · exact ⟨nofun, fun _ _ => ⟨d, hd, hle⟩, nofun, nofun⟩
      · refine ⟨h.returnsTrue, h.returnsFalse, fun hasleep => ?_, fun _ => hlooked⟩
        exact absurd hasleep (by simp [Thread.goto, blocking_asleep])
    · cases hn
  · next limited hpc =>
    have hlooked := h.looks (by rw [hpc]; rfl)
    split_ifs at hn
    · cases hn
      exact ⟨h.returnsTrue, h.returnsFalse, fun _ => rfl, fun _ => hlooked⟩
    · cases hn
      exact h.goto rfl
  · cases hn

theorem hit (h : th.Ok now) {addr : Word} {all woken : Bool}
    (hall : all = true → th.asleepAt addr = true → woken = true) :
    (th.hit addr all woken).Ok now := by
  cases woken with
  | true =>
    cases all with
    | true =>
      unfold Thread.hit Thread.mark
      by_cases hblocked : th.blockedAt addr = true
      · simp only [hblocked, if_true]
        exact ⟨h.returnsTrue, h.returnsFalse, nofun, nofun⟩
      · simp only [hblocked, if_true]
        exact h.goto rfl
    | false => exact h.goto rfl
  | false =>
    cases all with
    | true =>
      have hawake : th.asleepAt addr ≠ true := fun hasleep => by cases hall rfl hasleep
      unfold Thread.hit Thread.mark
      by_cases hblocked : th.blockedAt addr = true
      · obtain ⟨hpc, haddr⟩ := Bool.and_eq_true_iff.mp hblocked
        have hnap : th.pc = .nap := by
          cases hth : th.pc with
          | nap => rfl
          | asleep limited =>
            exact absurd (by simp [asleepAt, hth, Pc.isAsleep, of_decide_eq_true haddr]) hawake
          | _ =>
            rw [hth] at hpc
            cases hpc
        simp only [hblocked, if_true]
        refine ⟨h.returnsTrue, h.returnsFalse, ?_, ?_⟩
        · intro hasleep
          simp [hnap, Pc.isAsleep] at hasleep
        · intro hpast
          simp [hnap, Pc.past] at hpast
      · simpa [hblocked] using h
    | false => exact h

end Ok

end Thread

/-! ## What holds of every run -/

variable {s s' : State n}

theorem woken_of_wakeable {addr : Word} {who : Fin n → Bool} (hroom : n ≤ pidMaxLimit)
    (h : s.Wakeable addr true who) {u : Fin n} (hu : (s.threads u).asleepAt addr = true) :
    who u = true := by
  obtain ⟨hasleep, hcount⟩ := h
  have hcard := countWhere_le_card (fun th : Thread => th.asleepAt addr) s.threads
  have hfew : countWhere (fun th : Thread => th.asleepAt addr) s.threads ≤ wakeCount true := by
    rw [Fintype.card_fin] at hcard
    exact (hcard.trans hroom).trans (by decide)
  rw [min_eq_left hfew] at hcount
  exact of_countWhere_eq (p := id) (q := fun th : Thread => th.asleepAt addr) (f := who)
    (g := s.threads) hasleep hcount hu

/-- The invariant. -/
structure State.Ok (s : State n) : Prop where
  room : n ≤ pidMaxLimit
  threads : ∀ t, (s.threads t).Ok s.now
  seen : ∀ t, (s.threads t).Seen s.mem

theorem State.Ok.set (h : s.Ok) (t : Fin n) {th : Thread} (hth : th.Ok s.now) (u : Fin n) :
    ((s.set t th).threads u).Ok s.now := by
  by_cases hut : u = t
  · rw [hut]
    simpa [State.set] using hth
  · simpa [State.set, hut] using h.threads u

theorem State.Ok.step {l : Label n} (h : s.Ok) (hn : s.step l = some s') :
    ∀ u, (s'.threads u).Ok s'.now := by
  cases l with
  | tick ns =>
    cases hn
    exact fun u => (h.threads u).later ns
  | thread t a =>
    cases a with
    | call w =>
      simp only [State.step] at hn
      split_ifs at hn
      cases hn
      exact h.set t ((h.threads t).start w)
    | access =>
      obtain ⟨th, hth, rfl⟩ := Option.map_eq_some_iff.mp hn
      exact h.set t ((h.threads t).access (h.seen t) hth)
    | resume =>
      simp only [State.step] at hn
      split_ifs at hn
      cases hn
      exact h.set t ((h.threads t).goto rfl)
    | store addr bytes =>
      simp only [State.step] at hn
      split_ifs at hn
      cases hn
      exact h.threads
    | wakeCall addr all =>
      simp only [State.step] at hn
      split_ifs at hn with _ haddr
      · cases hn
        exact h.threads
      · cases hn
        exact h.set t ((h.threads t).goto rfl)
    | wake who =>
      simp only [State.step] at hn
      split at hn
      · next addr all _ =>
        split_ifs at hn with hwho
        cases hn
        intro u
        by_cases hut : u = t
        · rw [hut]
          have hidle : ((s.threads t).goto .idle).Ok s.now := (h.threads t).goto rfl
          simpa [State.set] using hidle
        · have hhit : ((s.threads u).hit addr all (who u)).Ok s.now := by
            refine (h.threads u).hit ?_
            rintro rfl hasleep
            exact woken_of_wakeable h.room hwho hasleep
          simpa [State.set, hut] using hhit
      · cases hn

theorem ok_of_reachable (h : (machine n).Reachable s) : s.Ok := by
  refine h.invariant ?_ ?_
  · rintro s ⟨hroom, hidle⟩
    refine ⟨hroom, fun t => ?_, fun t hcall => ?_⟩
    · obtain ⟨hpc, hresult⟩ := hidle t
      constructor <;> simp [hpc, hresult, Pc.isAsleep, Pc.past]
    · rw [(hidle t).1] at hcall
      cases hcall
  · intro s l s' hok hn
    obtain ⟨s₁, hstep, rfl⟩ := Option.map_eq_some_iff.mp hn
    exact ⟨hok.room, fun t => (hok.step hstep t).observe _, fun t => Thread.seen_observe _ _⟩

/-- In every state that a run reaches, every thread's call has done what is promised. A sleeper
    compares again on every wake-up, and so a change that was undone before it looked is never
    seen. -/
theorem waitOnAddress_ok {n : Nat} {s : State n} (h : (machine n).Reachable s) (t : Fin n) :
    (s.threads t).Ok s.now := (ok_of_reachable h).threads t

/-! ## A change that is undone -/

/-- Four bytes at 0x1000, waited for without a time limit. -/
def wordWait : Wait := ⟨0x1000, some fun _ => 0, 4, infinite⟩

def allIdle (n : Nat) : State n where
  mem := fun _ => 0
  now := 0
  threads := fun _ => ⟨.idle, wordWait, none, none, ⟨false, false, false, false⟩⟩

/-- The first thread falls asleep; the second changes the location, changes it back and wakes all;
    the first looks and falls asleep again. -/
def undone : List (Label 2) :=
  [.thread 0 (.call wordWait), .thread 0 .access, .thread 0 .access,
    .thread 1 (.store 0x1000 [1]), .thread 1 (.store 0x1000 [0]), .thread 1 (.wakeCall 0x1000 true),
    .thread 1 (.wake fun u => u = 0), .thread 0 .access, .thread 0 .access]

theorem undone_runs : (((machine 2).exec (allIdle 2) undone).map fun s =>
    ((s.threads 0).pc, (s.threads 0).log.called)) = some (.asleep false, true) := by
  decide

theorem reachable_undone : ∃ s, (machine 2).Reachable s ∧ (s.threads 0).pc = .asleep false ∧
    (s.threads 0).log.called = true := by
  obtain ⟨s, hrun, hfacts⟩ := Option.map_eq_some_iff.mp undone_runs
  obtain ⟨hpc, hcalled⟩ := Prod.mk.inj hfacts
  exact ⟨s, Machine.reachable_of_exec ⟨by decide, fun _ => ⟨rfl, rfl⟩⟩ hrun, hpc, hcalled⟩

/-- It blocks again in the call in which it was blocked when all were woken. -/
theorem undone_blocked_again : ∃ s, (machine 2).Reachable s ∧ (s.threads 0).pc.blocked = true ∧
    (s.threads 0).log.called = true := by
  obtain ⟨s, hs, hpc, hcalled⟩ := reachable_undone
  exact ⟨s, hs, by rw [hpc]; rfl, hcalled⟩

theorem waitOnAddress_ok_undone :
    ∃ s : State 2, (s.threads 0).pc = .asleep false ∧ (s.threads 0).Ok s.now := by
  obtain ⟨s, hs, hpc, -⟩ := reachable_undone
  exact ⟨s, hpc, waitOnAddress_ok hs 0⟩

end WinCompat.Sync.OnAddress
