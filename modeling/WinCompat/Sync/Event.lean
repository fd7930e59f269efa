import WinCompat.Lib.Count
import WinCompat.Lib.Machine

/-!
# `EventInner` — events on one futex word

`ntapi/src/sync.rs`, `EventInner`. The word is 1 while the event is signaled. Every atomic access of
`set`, `reset`, `pulse` and `wait` is one step of one thread, as is each `futex_wait` and each
`futex_wake`, and a `Pc` says what a thread has ahead of it.

`futex_wait` sleeps only when the word is 0, and it may return for any reason; the clock of a wait
with a deadline may show anything. `futex_wake(nr)` wakes `nr` of the sleepers, or all if there are
no more, and which ones is in the label.

A waiter that has been woken looks at the word again, and `pulse` resets it as soon as it has made
the call that wakes. `pulse_releases` says what is left of a pulse.
-/

namespace WinCompat.Sync.Event

open Lib

/-- What a thread has ahead of it. A `timed` wait is one with a deadline. -/
inductive Pc
  | idle
  -- `wait`: the load at the top of the loop.
  | load (timed : Bool)
  -- `wait`: has loaded 1 of an auto-reset event; `compare_exchange(1, 0)`.
  | cas (timed : Bool)
  -- `wait`: has loaded 0; the comparison of the clock with the deadline.
  | clock
  -- `wait`: `futex_wait(0)`.
  | sleep (timed : Bool)
  -- `wait`: asleep in `futex_wait`.
  | asleep (timed : Bool)
  | setStore
  | setWake
  | resetStore
  -- `pulse`: the store of 1, the `futex_wake` and the store of 0.
  | pulseStore
  | pulseWake
  | pulseReset
  deriving DecidableEq

namespace Pc

def isAsleep : Pc → Bool
  | asleep _ => true
  | _ => false

/-- Inside `wait`. -/
def waiting : Pc → Bool
  | load _ | cas _ | clock | sleep _ | asleep _ => true
  | _ => false

/-- Inside `pulse`. -/
def pulsing : Pc → Bool
  | pulseStore | pulseWake | pulseReset => true
  | _ => false

/-- In no call, or inside `wait`. -/
def passive : Pc → Bool
  | idle => true
  | pc => pc.waiting

/-- About to signal the event. -/
def storing : Pc → Bool
  | setStore | pulseStore => true
  | _ => false

/-- `futex_wait` returning. -/
def wakeUp : Pc → Pc
  | asleep timed => load timed
  | pc => pc

end Pc

inductive EventFn
  | wait (timed : Bool)
  | set
  | reset
  | pulse
  deriving DecidableEq

/-- What has happened so far. No step depends on it. -/
structure Log (n : Nat) where
  /-- The calls of `set` and `pulse`. -/
  signals : Nat
  pulses : Nat
  /-- The waits that have returned `WAIT_OBJECT_0`. -/
  satisfied : Nat
  /-- How many threads were asleep, and how many waits had been satisfied, when the last pulse
      began. -/
  sleepers : Nat
  before : Nat
  /-- The thread is still in the wait in which it was asleep when the last pulse began. -/
  slept : Fin n → Bool
  /-- The thread is still in the wait in which a pulse has woken it. -/
  woken : Fin n → Bool

structure State (n : Nat) where
  word : BitVec 32
  pc : Fin n → Pc
  log : Log n

/-- What the next step is. -/
inductive Action (n : Nat)
  | call (fn : EventFn)
  -- The thread performs its next atomic access, or finds in `futex_wait` whether it is to sleep.
  | access
  -- The clock has reached the deadline, or not.
  | clock (expired : Bool)
  -- The thread performs its `futex_wake`, which wakes these.
  | wake (who : Fin n → Bool)
  -- The sleeping thread's `futex_wait` returns: a signal, its timeout, or nothing at all.
  | resume
  deriving DecidableEq

variable {n : Nat}

namespace State

def goto (s : State n) (t : Fin n) (pc : Pc) : State n :=
  { s with pc := Function.update s.pc t pc }

def setWord (s : State n) (w : BitVec 32) : State n := { s with word := w }

/-- A call begins. -/
def start (s : State n) (t : Fin n) : EventFn → State n
  | .wait timed => s.goto t (.load timed)
  | .set => { s.goto t .setStore with log := { s.log with signals := s.log.signals + 1 } }
  | .reset => s.goto t .resetStore
  | .pulse =>
    let log := { s.log with
      signals := s.log.signals + 1
      pulses := s.log.pulses + 1
      sleepers := countWhere Pc.isAsleep s.pc
      before := s.log.satisfied
      slept := fun u => (s.pc u).isAsleep
      woken := fun _ => false }
    { s.goto t .pulseStore with log := log }

/-- A wait returns, `WAIT_OBJECT_0` or `WAIT_TIMEOUT`. -/
def returns (s : State n) (t : Fin n) (satisfied : Bool) : State n :=
  let log := { s.log with
    satisfied := s.log.satisfied + satisfied.toNat
    slept := Function.update s.log.slept t false
    woken := Function.update s.log.woken t false }
  { s.goto t .idle with log := log }

/-- These wake up. -/
def wakes (s : State n) (who : Fin n → Bool) : State n :=
  { s with pc := fun u => if who u then (s.pc u).wakeUp else s.pc u }

/-- A pulse has woken these. -/
def marks (s : State n) (who : Fin n → Bool) : State n :=
  { s with log := { s.log with woken := who } }

@[simp] theorem goto_word (s : State n) (t : Fin n) (pc : Pc) : (s.goto t pc).word = s.word := rfl
@[simp] theorem goto_log (s : State n) (t : Fin n) (pc : Pc) : (s.goto t pc).log = s.log := rfl
@[simp] theorem goto_pc (s : State n) (t : Fin n) (pc : Pc) :
    (s.goto t pc).pc = Function.update s.pc t pc := rfl
@[simp] theorem setWord_word (s : State n) (w : BitVec 32) : (s.setWord w).word = w := rfl
@[simp] theorem setWord_log (s : State n) (w : BitVec 32) : (s.setWord w).log = s.log := rfl
@[simp] theorem setWord_pc (s : State n) (w : BitVec 32) : (s.setWord w).pc = s.pc := rfl
@[simp] theorem returns_word (s : State n) (t : Fin n) (b : Bool) :
    (s.returns t b).word = s.word := rfl
@[simp] theorem returns_pc (s : State n) (t : Fin n) (b : Bool) :
    (s.returns t b).pc = Function.update s.pc t .idle := rfl
@[simp] theorem wakes_word (s : State n) (who : Fin n → Bool) : (s.wakes who).word = s.word := rfl
@[simp] theorem wakes_log (s : State n) (who : Fin n → Bool) : (s.wakes who).log = s.log := rfl
@[simp] theorem marks_word (s : State n) (who : Fin n → Bool) : (s.marks who).word = s.word := rfl
@[simp] theorem marks_pc (s : State n) (who : Fin n → Bool) : (s.marks who).pc = s.pc := rfl

/-- The next atomic access of a thread. -/
def accessed (manual : Bool) (s : State n) (t : Fin n) : Option (State n) :=
  match s.pc t with
  | .load timed =>
    if s.word = 1 then
      some (if manual then s.returns t true else s.goto t (.cas timed))
    else
      some (s.goto t (if timed then .clock else .sleep false))
  | .cas timed =>
    if s.word = 1 then some ((s.setWord 0).returns t true) else some (s.goto t (.load timed))
  | .sleep timed => some (s.goto t (if s.word = 0 then .asleep timed else .load timed))
  | .setStore => some ((s.setWord 1).goto t .setWake)
  | .resetStore => some ((s.setWord 0).goto t .idle)
  | .pulseStore => some ((s.setWord 1).goto t .pulseWake)
  | .pulseReset => some ((s.setWord 0).goto t .idle)
  | _ => none

/-- The argument of `futex_wake`. -/
def wakeCount (manual : Bool) : Nat := if manual then 2 ^ 31 - 1 else 1

/-- What `futex_wake` may wake. -/
def Wakeable (manual : Bool) (s : State n) (who : Fin n → Bool) : Prop :=
  (∀ u, who u = true → (s.pc u).isAsleep = true) ∧
    countWhere id who = min (countWhere Pc.isAsleep s.pc) (wakeCount manual)

instance (manual : Bool) (s : State n) (who : Fin n → Bool) : Decidable (s.Wakeable manual who) :=
  inferInstanceAs (Decidable (_ ∧ _))

def next (manual : Bool) (s : State n) : Fin n × Action n → Option (State n)
  | (t, .call fn) => if s.pc t = .idle then some (s.start t fn) else none
  | (t, .access) => s.accessed manual t
  | (t, .clock expired) =>
    if s.pc t = .clock then some (if expired then s.returns t false else s.goto t (.sleep true))
    else none
  | (t, .wake who) =>
    if s.Wakeable manual who then
      match s.pc t with
      | .setWake => some ((s.wakes who).goto t .idle)
      | .pulseWake => some (((s.wakes who).marks who).goto t .pulseReset)
      | _ => none
    else
      none
  | (t, .resume) => if (s.pc t).isAsleep then some (s.goto t (s.pc t).wakeUp) else none

end State

def Log.empty (n : Nat) : Log n := ⟨0, 0, 0, 0, 0, fun _ => false, fun _ => false⟩

/-- Any number of threads and an event made by `EventInner::new`. -/
def event (manual initial : Bool) (n : Nat) : Machine (State n) (Fin n × Action n) where
  init s := s = ⟨if initial then 1 else 0, fun _ => .idle, .empty n⟩
  next := State.next manual

/-! ## What a step can do -/

/-- What becomes of the state when a thread moves. -/
inductive Moves (manual : Bool) (s : State n) (t : Fin n) (a : Action n) : State n → Prop
  | call (fn : EventFn) (ha : a = .call fn) (ht : s.pc t = .idle) :
      Moves manual s t a (s.start t fn)
  -- Inside `wait`: only where the word is 0 does a thread fall asleep, and a waiter for a
  -- manual-reset event that loads 1 does not stay.
  | goes (pc : Pc) (ht : (s.pc t).waiting) (hpc : pc.waiting)
      (hasleep : pc.isAsleep → s.word = 0) (hcas : ∀ timed, pc = .cas timed → manual = false)
      (hload : ∀ timed, s.pc t = .load timed → manual = true → s.word ≠ 1) :
      Moves manual s t a (s.goto t pc)
  | seen (timed : Bool) (ht : s.pc t = .load timed) (hm : manual = true) (hw : s.word = 1) :
      Moves manual s t a (s.returns t true)
  | consumed (timed : Bool) (ht : s.pc t = .cas timed) (hw : s.word = 1) :
      Moves manual s t a ((s.setWord 0).returns t true)
  | timedOut (ht : s.pc t = .clock) : Moves manual s t a (s.returns t false)
  | setStore (ht : s.pc t = .setStore) : Moves manual s t a ((s.setWord 1).goto t .setWake)
  | resetStore (ht : s.pc t = .resetStore) : Moves manual s t a ((s.setWord 0).goto t .idle)
  | pulseStore (ht : s.pc t = .pulseStore) : Moves manual s t a ((s.setWord 1).goto t .pulseWake)
  | pulseReset (ht : s.pc t = .pulseReset) : Moves manual s t a ((s.setWord 0).goto t .idle)
  | setWake (who : Fin n → Bool) (ht : s.pc t = .setWake)
      (hwho : ∀ u, who u = true → (s.pc u).isAsleep = true) :
      Moves manual s t a ((s.wakes who).goto t .idle)
  | pulseWake (who : Fin n → Bool) (ht : s.pc t = .pulseWake)
      (hwho : ∀ u, who u = true → (s.pc u).isAsleep = true) :
      Moves manual s t a (((s.wakes who).marks who).goto t .pulseReset)

variable {manual initial : Bool} {s s' : State n} {t : Fin n} {a : Action n}

theorem accessed_moves (h : s.accessed manual t = some s') : Moves manual s t a s' := by
  unfold State.accessed at h
  split at h
  · rename_i timed ht
    split_ifs at h with hw hm
    · cases h
      exact .seen timed ht hm hw
    · cases h
      refine .goes _ (by rw [ht]; rfl) rfl nofun (fun _ _ => by simpa using hm) ?_
      exact fun _ _ hm' => absurd hm' hm
    · cases h
      refine .goes _ (by rw [ht]; rfl) rfl nofun (fun _ h => nomatch h) fun _ _ _ => hw
    · cases h
      refine .goes _ (by rw [ht]; rfl) rfl nofun (fun _ h => nomatch h) fun _ _ _ => hw
  · rename_i timed ht
    split_ifs at h with hw
    · cases h
      exact .consumed timed ht hw
    · cases h
      refine .goes _ (by rw [ht]; rfl) rfl nofun (fun _ h => nomatch h) ?_
      exact fun _ _ _ => hw
  · rename_i timed ht
    cases h
    have hload : ∀ timed', s.pc t ≠ .load timed' := by
      rw [ht]
      exact nofun
    split_ifs with hw
    · exact .goes _ (by rw [ht]; rfl) rfl (fun _ => hw) (fun _ h => nomatch h)
        fun timed' h => absurd h (hload timed')
    · exact .goes _ (by rw [ht]; rfl) rfl nofun (fun _ h => nomatch h)
        fun timed' h => absurd h (hload timed')
  · rename_i ht
    cases h
    exact .setStore ht
  · rename_i ht
    cases h
    exact .resetStore ht
  · rename_i ht
    cases h
    exact .pulseStore ht
  · rename_i ht
    cases h
    exact .pulseReset ht
  · cases h

theorem next_moves (h : s.next manual (t, a) = some s') : Moves manual s t a s' := by
  cases a with
  | call fn =>
    simp only [State.next] at h
    split_ifs at h with ht
    cases h
    exact .call fn rfl ht
  | access => exact accessed_moves h
  | clock expired =>
    simp only [State.next] at h
    split_ifs at h with ht hexpired
    · cases h
      exact .timedOut ht
    · cases h
      refine .goes _ (by rw [ht]; rfl) rfl nofun (fun _ h => nomatch h) fun timed h => ?_
      rw [ht] at h
      cases h
  | wake who =>
    simp only [State.next] at h
    split_ifs at h with hwho
    split at h
    · rename_i ht
      cases h
      exact .setWake who ht hwho.1
    · rename_i ht
      cases h
      exact .pulseWake who ht hwho.1
    · cases h
  | resume =>
    simp only [State.next] at h
    split_ifs at h with ht
    cases h
    cases hpc : s.pc t with
    | asleep timed =>
      refine .goes _ (by rw [hpc]; rfl) rfl nofun (fun _ h => nomatch h) fun timed' h => ?_
      rw [hpc] at h
      cases h
    | _ =>
      rw [hpc] at ht
      cases ht

/-! ## Signals and satisfied waits -/

/-- A signal that no wait has consumed. -/
def lit (w : BitVec 32) : Nat := if w = 1 then 1 else 0

theorem lit_zero : lit 0 = 0 := rfl

theorem lit_one : lit 1 = 1 := rfl

theorem storing_of_waiting {pc : Pc} (h : pc.waiting) : pc.storing = false := by
  cases pc with
  | load | cas | clock | sleep | asleep => rfl
  | _ => cases h

theorem storing_wakeUp (pc : Pc) : pc.wakeUp.storing = pc.storing := by cases pc <;> rfl

/-- The waits that were satisfied, the signal that is there and those on their way. -/
def State.spent (s : State n) : Nat :=
  s.log.satisfied + lit s.word + countWhere Pc.storing s.pc

def Covered (initial : Bool) (s : State n) : Prop := s.spent ≤ initial.toNat + s.log.signals

theorem spent_goto (s : State n) (t : Fin n) (pc : Pc) :
    (s.goto t pc).spent + (s.pc t).storing.toNat = s.spent + pc.storing.toNat := by
  have hcount := countWhere_update Pc.storing s.pc t pc
  simp only [State.spent, State.goto_word, State.goto_log, State.goto_pc]
  omega

theorem spent_setWord (s : State n) (w : BitVec 32) :
    (s.setWord w).spent + lit s.word = s.spent + lit w := by
  simp only [State.spent, State.setWord_word, State.setWord_log, State.setWord_pc]
  omega

theorem spent_returns (s : State n) (t : Fin n) (satisfied : Bool) :
    (s.returns t satisfied).spent + (s.pc t).storing.toNat = s.spent + satisfied.toNat := by
  have hcount := countWhere_update Pc.storing s.pc t .idle
  have hidle : Pc.idle.storing.toNat = 0 := rfl
  simp only [State.spent, State.returns, State.goto_word, State.goto_pc]
  omega

theorem spent_wakes (s : State n) (who : Fin n → Bool) : (s.wakes who).spent = s.spent := by
  have hcount : countWhere Pc.storing (s.wakes who).pc = countWhere Pc.storing s.pc := by
    refine countWhere_congr fun u => ?_
    unfold State.wakes
    dsimp only
    split
    · exact storing_wakeUp _
    · rfl
  unfold State.spent
  rw [hcount, State.wakes_word, State.wakes_log]

/-- Nobody is woken in a call that is about to signal. -/
theorem wakes_pc {who : Fin n → Bool} (hwho : ∀ u, who u = true → (s.pc u).isAsleep = true)
    (ht : (s.pc t).isAsleep = false) : (s.wakes who).pc t = s.pc t := by
  unfold State.wakes
  dsimp only
  split
  · rename_i hw
    rw [hwho t hw] at ht
    cases ht
  · rfl

theorem covered_store {pc : Pc} (hs : Covered initial s) (ht : (s.pc t).storing = true)
    (hpc : pc.storing = false) : Covered initial ((s.setWord 1).goto t pc) := by
  have hword := spent_setWord s 1
  have hgoto := spent_goto (s.setWord 1) t pc
  rw [lit_one] at hword
  simp only [State.setWord_pc, ht, hpc, Bool.toNat_false, Bool.toNat_true] at hgoto
  unfold Covered at *
  show _ ≤ initial.toNat + s.log.signals
  omega

theorem covered_clear {pc : Pc} (hs : Covered initial s) (hpc : pc.storing = false) :
    Covered initial ((s.setWord 0).goto t pc) := by
  have hword := spent_setWord s 0
  have hgoto := spent_goto (s.setWord 0) t pc
  rw [lit_zero] at hword
  simp only [hpc, Bool.toNat_false] at hgoto
  unfold Covered at *
  show _ ≤ initial.toNat + s.log.signals
  omega

theorem covered_moves (h : Moves false s t a s') (hs : Covered initial s) : Covered initial s' := by
  unfold Covered at *
  cases h with
  | call fn ha ht =>
    cases fn with
    | wait timed =>
      have hgoto := spent_goto s t (.load timed)
      rw [ht] at hgoto
      exact Nat.le_trans (Nat.le_of_eq hgoto) hs
    | set =>
      have hgoto := spent_goto s t .setStore
      rw [ht] at hgoto
      exact Nat.le_trans (Nat.le_of_eq hgoto) (Nat.succ_le_succ hs)
    | reset =>
      have hgoto := spent_goto s t .resetStore
      rw [ht] at hgoto
      exact Nat.le_trans (Nat.le_of_eq hgoto) hs
    | pulse =>
      have hgoto := spent_goto s t .pulseStore
      rw [ht] at hgoto
      exact Nat.le_trans (Nat.le_of_eq hgoto) (Nat.succ_le_succ hs)
  | goes pc ht hpc =>
    have hgoto := spent_goto s t pc
    rw [storing_of_waiting ht, storing_of_waiting hpc] at hgoto
    exact Nat.le_trans (Nat.le_of_eq hgoto) hs
  | seen timed ht hm => cases hm
  | consumed timed ht hw =>
    have hword := spent_setWord s 0
    have hreturns := spent_returns (s.setWord 0) t true
    rw [hw, lit_one, lit_zero] at hword
    simp only [State.setWord_pc, ht, Pc.storing, Bool.toNat_false, Bool.toNat_true] at hreturns
    show _ ≤ initial.toNat + s.log.signals
    omega
  | timedOut ht =>
    have hreturns := spent_returns s t false
    rw [ht] at hreturns
    exact Nat.le_trans (Nat.le_of_eq hreturns) hs
  | setStore ht => exact covered_store hs (congrArg Pc.storing ht) rfl
  | resetStore ht => exact covered_clear hs rfl
  | pulseStore ht => exact covered_store hs (congrArg Pc.storing ht) rfl
  | pulseReset ht => exact covered_clear hs rfl
  | setWake who ht hwho =>
    have hwakes := spent_wakes s who
    have hgoto := spent_goto (s.wakes who) t .idle
    rw [wakes_pc hwho (by rw [ht]; rfl), ht, hwakes] at hgoto
    exact Nat.le_trans (Nat.le_of_eq hgoto) hs
  | pulseWake who ht hwho =>
    have hwakes := spent_wakes s who
    have hgoto := spent_goto ((s.wakes who).marks who) t .pulseReset
    rw [State.marks_pc, wakes_pc hwho (by rw [ht]; rfl), ht] at hgoto
    exact Nat.le_trans (Nat.le_of_eq (hgoto.trans hwakes)) hs

theorem satisfied_le (h : (event false initial n).Reachable s) :
    s.log.satisfied ≤ initial.toNat + s.log.signals := by
  have hcovered : Covered initial s := by
    refine h.invariant ?_ fun s ta s' hs hn => covered_moves (@next_moves _ _ _ _ ta.1 ta.2 hn) hs
    rintro s rfl
    unfold Covered State.spent
    cases initial with
    | true => exact Nat.le_of_eq (congrArg (1 + ·) (countWhere_eq_zero_of fun _ => rfl))
    | false => exact Nat.le_of_eq (congrArg (0 + ·) (countWhere_eq_zero_of fun _ => rfl))
  unfold Covered State.spent at hcovered
  omega

/-! ## One pulse -/

/-- Nothing is called but `wait`, and `pulse` once. -/
def OnePulse (s : State n) (a : Fin n × Action n) : Prop :=
  match a.2 with
  | .call (.wait _) => True
  | .call .pulse => s.log.pulses = 0
  | .call _ => False
  | _ => True

instance (s : State n) : ∀ a : Fin n × Action n, Decidable (OnePulse s a)
  | (_, .call (.wait _)) => .isTrue trivial
  | (_, .call .pulse) => inferInstanceAs (Decidable (s.log.pulses = 0))
  | (_, .call .set) => .isFalse id
  | (_, .call .reset) => .isFalse id
  | (_, .access) => .isTrue trivial
  | (_, .clock _) => .isTrue trivial
  | (_, .wake _) => .isTrue trivial
  | (_, .resume) => .isTrue trivial

/-- A step inside `wait`, or the call of it. -/
structure Waits (manual : Bool) (s : State n) (t : Fin n) (s' : State n) : Prop where
  others : ∀ u, u ≠ t → s'.pc u = s.pc u
  passive : (s.pc t).passive
  passive' : (s'.pc t).passive
  pulses : s'.log.pulses = s.log.pulses
  sleepers : s'.log.sleepers = s.log.sleepers
  before : s'.log.before = s.log.before
  slept : ∀ u, s'.log.slept u = true → s.log.slept u = true
  woken : ∀ u, s'.log.woken u = true → s.log.woken u = true
  asleep : (s'.pc t).isAsleep → s'.word = 0
  cas : ∀ timed, s'.pc t = .cas timed → manual = false
  /-- Who has been woken and finds a manual-reset event signaled has returned. -/
  load : manual = true → s.word = 1 → ∀ timed, s.pc t = .load timed → s'.log.woken t = false
  zero : s.word = 0 → s'.word = 0 ∧ s'.log.satisfied = s.log.satisfied
  keeps : manual = true → s'.word = s.word
  sum : manual = false → s'.log.satisfied + lit s'.word = s.log.satisfied + lit s.word

theorem passive_of_waiting {pc : Pc} (h : pc.waiting) : pc.passive := by
  cases pc with
  | load | cas | clock | sleep | asleep => rfl
  | _ => cases h

theorem waits_goto {pc : Pc} (ht : (s.pc t).passive) (hpc : pc.waiting)
    (hasleep : pc.isAsleep → s.word = 0) (hcas : ∀ timed, pc = .cas timed → manual = false)
    (hload : ∀ timed, s.pc t = .load timed → manual = true → s.word ≠ 1) :
    Waits manual s t (s.goto t pc) where
  others u hu := Function.update_of_ne hu _ _
  passive := ht
  passive' := by
    rw [State.goto_pc, Function.update_self]
    exact passive_of_waiting hpc
  pulses := rfl
  sleepers := rfl
  before := rfl
  slept _ h := h
  woken _ h := h
  asleep h := by
    rw [State.goto_pc, Function.update_self] at h
    exact hasleep h
  cas timed h := by
    rw [State.goto_pc, Function.update_self] at h
    exact hcas timed h
  load hm hw timed h := absurd hw (hload timed h hm)
  zero h := ⟨h, rfl⟩
  keeps _ := rfl
  sum _ := rfl

theorem waits_returns {w : BitVec 32} {satisfied : Bool} (ht : (s.pc t).passive)
    (hzero : s.word = 0 → w = 0 ∧ satisfied = false) (hkeeps : manual = true → w = s.word)
    (hsum : manual = false → satisfied.toNat + lit w = lit s.word) :
    Waits manual s t ((s.setWord w).returns t satisfied) where
  others u hu := Function.update_of_ne hu _ _
  passive := ht
  passive' := by
    rw [State.returns_pc, Function.update_self]
    rfl
  pulses := rfl
  sleepers := rfl
  before := rfl
  slept u h := by
    by_cases hu : u = t
    · subst hu
      simp [State.returns] at h
    · simpa [State.returns, Function.update_of_ne hu] using h
  woken u h := by
    by_cases hu : u = t
    · subst hu
      simp [State.returns] at h
    · simpa [State.returns, Function.update_of_ne hu] using h
  asleep h := by
    rw [State.returns_pc, Function.update_self] at h
    cases h
  cas timed h := by
    rw [State.returns_pc, Function.update_self] at h
    cases h
  load _ _ _ _ := Function.update_self _ _ _
  zero h := by
    obtain ⟨hw, hsat⟩ := hzero h
    exact ⟨hw, by rw [hsat]; rfl⟩
  keeps := hkeeps
  sum hm := by
    have hlit := hsum hm
    show s.log.satisfied + satisfied.toNat + lit w = _
    omega

/-- What a step can be while there is one pulse. -/
theorem onePulse_moves (h : Moves manual s t a s') (hone : OnePulse s (t, a))
    (hpc : (s.pc t).passive ∨ (s.pc t).pulsing)
    (hcas : manual = true → ∀ timed, s.pc t ≠ .cas timed) :
    Waits manual s t s' ∨ (s.log.pulses = 0 ∧ s.pc t = .idle ∧ s' = s.start t .pulse) ∨
      (s.pc t = .pulseStore ∧ s' = (s.setWord 1).goto t .pulseWake) ∨
      (s.pc t = .pulseWake ∧ ∃ who : Fin n → Bool,
        (∀ u, who u = true → (s.pc u).isAsleep = true) ∧
          s' = ((s.wakes who).marks who).goto t .pulseReset) ∨
      (s.pc t = .pulseReset ∧ s' = (s.setWord 0).goto t .idle) := by
  cases h with
  | call fn ha ht =>
    rw [ha] at hone
    cases fn with
    | wait timed =>
      refine .inl (waits_goto (by rw [ht]; rfl) rfl nofun nofun fun timed h => ?_)
      rw [ht] at h
      cases h
    | pulse => exact .inr (.inl ⟨hone, ht, rfl⟩)
    | set | reset => exact hone.elim
  | goes pc ht hpc hasleep hcas hload =>
    exact .inl (waits_goto (passive_of_waiting ht) hpc hasleep hcas hload)
  | seen timed ht hm hw =>
    refine .inl (@waits_returns n manual s t s.word true (by rw [ht]; rfl) ?_ (fun _ => rfl) ?_)
    · intro hzero
      rw [hw] at hzero
      cases hzero
    · intro hm'
      rw [hm] at hm'
      cases hm'
  | consumed timed ht hw =>
    refine .inl (@waits_returns n manual s t 0 true (by rw [ht]; rfl) ?_ ?_ ?_)
    · intro hzero
      rw [hw] at hzero
      cases hzero
    · exact fun hm => absurd ht (hcas hm timed)
    · exact fun _ => by rw [hw]; rfl
  | timedOut ht =>
    refine .inl (@waits_returns n manual s t s.word false (by rw [ht]; rfl) ?_ (fun _ => rfl) ?_)
    · exact fun hzero => ⟨hzero, rfl⟩
    · exact fun _ => Nat.zero_add _
  | setStore ht => rw [ht] at hpc; simp [Pc.passive, Pc.waiting, Pc.pulsing] at hpc
  | resetStore ht => rw [ht] at hpc; simp [Pc.passive, Pc.waiting, Pc.pulsing] at hpc
  | pulseStore ht => exact .inr (.inr (.inl ⟨ht, rfl⟩))
  | pulseReset ht => exact .inr (.inr (.inr (.inr ⟨ht, rfl⟩)))
  | setWake who ht => rw [ht] at hpc; simp [Pc.passive, Pc.waiting, Pc.pulsing] at hpc
  | pulseWake who ht hwho => exact .inr (.inr (.inr (.inl ⟨ht, who, hwho, rfl⟩)))

/-- How far the pulse has come. -/
inductive Stage (manual : Bool) (s : State n) : Prop
  | before (hp : s.log.pulses = 0) (hpc : ∀ u, (s.pc u).passive)
      (hasleep : ∀ u, (s.pc u).isAsleep → s.word = 0) (hwoken : ∀ u, s.log.woken u = false)
  | store (p : Fin n) (hp : s.log.pulses = 1) (ht : s.pc p = .pulseStore)
      (hpc : ∀ u, u ≠ p → (s.pc u).passive) (hwoken : ∀ u, s.log.woken u = false)
      (hsleepers : 0 < s.log.sleepers → s.word = 0 ∧ s.log.satisfied = s.log.before)
  | wake (p : Fin n) (hp : s.log.pulses = 1) (ht : s.pc p = .pulseWake)
      (hpc : ∀ u, u ≠ p → (s.pc u).passive) (hwoken : ∀ u, s.log.woken u = false)
      (hword : manual = true → s.word = 1)
      (hsum : manual = false → 0 < s.log.sleepers →
        s.log.satisfied + lit s.word = s.log.before + 1)
  | reset (p : Fin n) (hp : s.log.pulses = 1) (ht : s.pc p = .pulseReset)
      (hpc : ∀ u, u ≠ p → (s.pc u).passive)
      (hwoken : manual = true → ∀ u, s.log.woken u = true → ∃ timed, s.pc u = .load timed)
      (hword : manual = true → s.word = 1)
      (hsum : manual = false → 0 < s.log.sleepers →
        s.log.satisfied + lit s.word = s.log.before + 1)
  | past (hp : s.log.pulses = 1) (hpc : ∀ u, (s.pc u).passive) (hword : s.word = 0)

/-- A manual-reset event has no `compare_exchange`. -/
def NoCas (manual : Bool) (s : State n) : Prop :=
  manual = true → ∀ u timed, s.pc u ≠ .cas timed

theorem Waits.all_passive (h : Waits manual s t s') (hpc : ∀ u, (s.pc u).passive) :
    ∀ u, (s'.pc u).passive := by
  intro u
  by_cases hu : u = t
  · rw [hu]
    exact h.passive'
  · rw [h.others u hu]
    exact hpc u

theorem Waits.rest_passive (h : Waits manual s t s') {p : Fin n}
    (hpc : ∀ u, u ≠ p → (s.pc u).passive) : ∀ u, u ≠ p → (s'.pc u).passive := by
  intro u hu
  by_cases hut : u = t
  · rw [hut]
    exact h.passive'
  · rw [h.others u hut]
    exact hpc u hu

theorem Waits.pulser (h : Waits manual s t s') {p : Fin n} {pc : Pc} (ht : s.pc p = pc)
    (hpc : pc.pulsing) : s'.pc p = pc := by
  rw [h.others p ?_]
  · exact ht
  · rintro rfl
    have hpassive := h.passive
    rw [ht] at hpassive
    cases pc with
    | pulseStore | pulseWake | pulseReset => cases hpassive
    | _ => cases hpc

theorem Waits.unwoken (h : Waits manual s t s') (hwoken : ∀ u, s.log.woken u = false) :
    ∀ u, s'.log.woken u = false := by
  intro u
  by_contra hne
  have hsome := h.woken u (by simpa using hne)
  rw [hwoken u] at hsome
  cases hsome

theorem Waits.noCas (h : Waits manual s t s') (hcas : NoCas manual s) : NoCas manual s' := by
  intro hm u timed hu
  by_cases hut : u = t
  · subst hut
    rw [h.cas timed hu] at hm
    cases hm
  · rw [h.others u hut] at hu
    exact hcas hm u timed hu

/-- A step of a wait leaves the pulse where it is. -/
theorem Stage.waits (hs : Stage manual s) (h : Waits manual s t s') : Stage manual s' := by
  have hsum : (manual = false → 0 < s.log.sleepers →
      s.log.satisfied + lit s.word = s.log.before + 1) → manual = false → 0 < s'.log.sleepers →
        s'.log.satisfied + lit s'.word = s'.log.before + 1 := by
    intro hsum hm hpos
    rw [h.sum hm, h.before]
    exact hsum hm (h.sleepers ▸ hpos)
  cases hs with
  | before hp hpc hasleep hwoken =>
    refine .before (h.pulses.trans hp) (h.all_passive hpc) ?_ (h.unwoken hwoken)
    intro u hu
    by_cases hut : u = t
    · subst hut
      exact h.asleep hu
    · rw [h.others u hut] at hu
      exact (h.zero (hasleep u hu)).1
  | store p hp ht hpc hwoken hsleepers =>
    refine .store p (h.pulses.trans hp) (h.pulser ht rfl) (h.rest_passive hpc)
      (h.unwoken hwoken) ?_
    intro hpos
    obtain ⟨hword, hsat⟩ := hsleepers (h.sleepers ▸ hpos)
    obtain ⟨hword', hsat'⟩ := h.zero hword
    exact ⟨hword', hsat'.trans (hsat.trans h.before.symm)⟩
  | wake p hp ht hpc hwoken hword hs =>
    exact .wake p (h.pulses.trans hp) (h.pulser ht rfl) (h.rest_passive hpc) (h.unwoken hwoken)
      (fun hm => (h.keeps hm).trans (hword hm)) (hsum hs)
  | reset p hp ht hpc hwoken hword hs =>
    refine .reset p (h.pulses.trans hp) (h.pulser ht rfl) (h.rest_passive hpc) ?_
      (fun hm => (h.keeps hm).trans (hword hm)) (hsum hs)
    intro hm u hu
    obtain ⟨timed, hload⟩ := hwoken hm u (h.woken u hu)
    by_cases hut : u = t
    · subst hut
      rw [h.load hm (hword hm) timed hload] at hu
      cases hu
    · exact ⟨timed, (h.others u hut).trans hload⟩
  | past hp hpc hword =>
    exact .past (h.pulses.trans hp) (h.all_passive hpc) (h.zero hword).1

theorem eq_of_pulsing {p : Fin n} (hpc : ∀ u, u ≠ p → (s.pc u).passive)
    (ht : (s.pc t).pulsing) : t = p := by
  by_contra hne
  have hpassive := hpc t hne
  cases hpc' : s.pc t with
  | pulseStore | pulseWake | pulseReset =>
    rw [hpc'] at hpassive
    cases hpassive
  | _ =>
    rw [hpc'] at ht
    cases ht

theorem Stage.passive_or_pulsing (hs : Stage manual s) (t : Fin n) :
    (s.pc t).passive ∨ (s.pc t).pulsing := by
  have hrest : ∀ {p : Fin n} {pc : Pc}, s.pc p = pc → pc.pulsing →
      (∀ u, u ≠ p → (s.pc u).passive) → (s.pc t).passive ∨ (s.pc t).pulsing := by
    intro p pc hp hpulsing hpc
    by_cases hu : t = p
    · rw [hu, hp]
      exact .inr hpulsing
    · exact .inl (hpc t hu)
  cases hs with
  | before _ hpc => exact .inl (hpc t)
  | store p _ ht hpc => exact hrest ht rfl hpc
  | wake p _ ht hpc => exact hrest ht rfl hpc
  | reset p _ ht hpc => exact hrest ht rfl hpc
  | past _ hpc => exact .inl (hpc t)

theorem Stage.at_pulse (hs : Stage manual s) (ht : (s.pc t).pulsing) :
    s.log.pulses = 1 ∧ (∀ u, u ≠ t → (s.pc u).passive) ∧
      match s.pc t with
      | .pulseStore => (∀ u, s.log.woken u = false) ∧
          (0 < s.log.sleepers → s.word = 0 ∧ s.log.satisfied = s.log.before)
      | .pulseWake => (manual = true → s.word = 1) ∧ (manual = false → 0 < s.log.sleepers →
          s.log.satisfied + lit s.word = s.log.before + 1)
      | .pulseReset =>
          (manual = true → ∀ u, s.log.woken u = true → ∃ timed, s.pc u = .load timed) ∧
          (manual = false → 0 < s.log.sleepers →
            s.log.satisfied + lit s.word = s.log.before + 1)
      | _ => True := by
  cases hs with
  | before _ hpc | past _ hpc =>
    have hpassive := hpc t
    cases hpc' : s.pc t with
    | pulseStore | pulseWake | pulseReset => simp [hpc', Pc.passive, Pc.waiting] at hpassive
    | _ => simp [hpc', Pc.pulsing] at ht
  | store p hp hp' hpc hwoken hsleepers =>
    obtain rfl := eq_of_pulsing hpc ht
    exact ⟨hp, hpc, by rw [hp']; exact ⟨hwoken, hsleepers⟩⟩
  | wake p hp hp' hpc _ hword hsum =>
    obtain rfl := eq_of_pulsing hpc ht
    exact ⟨hp, hpc, by rw [hp']; exact ⟨hword, hsum⟩⟩
  | reset p hp hp' hpc hwoken _ hsum =>
    obtain rfl := eq_of_pulsing hpc ht
    exact ⟨hp, hpc, by rw [hp']; exact ⟨hwoken, hsum⟩⟩

theorem passive_wakeUp {pc : Pc} (h : pc.passive) : pc.wakeUp.passive := by
  cases pc with
  | asleep timed => rfl
  | _ => exact h

theorem wakes_of (s : State n) {who : Fin n → Bool} {u : Fin n} (hu : who u = true) :
    (s.wakes who).pc u = (s.pc u).wakeUp := if_pos hu

theorem wakes_passive (who : Fin n → Bool) {u : Fin n} (h : (s.pc u).passive) :
    ((s.wakes who).pc u).passive := by
  unfold State.wakes
  dsimp only
  split
  · exact passive_wakeUp h
  · exact h

theorem NoCas.goto {r : State n} {pc : Pc} (hcas : NoCas manual s) (hr : r.pc = s.pc)
    (hpc : ∀ timed, pc ≠ .cas timed) : NoCas manual (r.goto t pc) := by
  intro hm u timed hu
  rw [State.goto_pc, hr] at hu
  by_cases hut : u = t
  · subst hut
    rw [Function.update_self] at hu
    exact hpc timed hu
  · rw [Function.update_of_ne hut] at hu
    exact hcas hm u timed hu

theorem NoCas.wakes (hcas : NoCas manual s) (who : Fin n → Bool) :
    NoCas manual ((s.wakes who).marks who) := by
  intro hm u timed hu
  rw [State.marks_pc] at hu
  unfold State.wakes at hu
  dsimp only at hu
  split at hu
  · cases hpcu : s.pc u with
    | cas timed' => exact hcas hm u timed' hpcu
    | _ =>
      rw [hpcu] at hu
      cases hu
  · exact hcas hm u timed hu

theorem Stage.started (hs : Stage manual s) (hzero : s.log.pulses = 0) :
    Stage manual (s.start t .pulse) := by
  cases hs with
  | before hp hpc hasleep hwoken =>
    refine .store t (congrArg (· + 1) hp) (Function.update_self _ _ _) ?_ (fun _ => rfl) ?_
    · intro u hu
      show (Function.update s.pc t .pulseStore u).passive
      rw [Function.update_of_ne hu]
      exact hpc u
    · intro hpos
      refine ⟨?_, rfl⟩
      by_contra hword
      have hnone : countWhere Pc.isAsleep s.pc = 0 := by
        refine countWhere_eq_zero_of fun u => ?_
        by_contra hu
        exact hword (hasleep u (by simpa using hu))
      exact Nat.ne_of_gt hpos hnone
  | store _ hp | wake _ hp | reset _ hp | past hp =>
    rw [hzero] at hp
    cases hp

theorem Stage.stored (hs : Stage manual s) (ht : s.pc t = .pulseStore) :
    Stage manual ((s.setWord 1).goto t .pulseWake) := by
  have hat := hs.at_pulse (t := t) (by rw [ht]; rfl)
  rw [ht] at hat
  obtain ⟨hp, hpc, hwoken, hsleepers⟩ := hat
  refine .wake t hp (Function.update_self _ _ _) ?_ hwoken (fun _ => rfl) ?_
  · intro u hu
    rw [State.goto_pc, Function.update_of_ne hu]
    exact hpc u hu
  · intro _ hpos
    exact congrArg (· + 1) (hsleepers hpos).2

theorem Stage.woken (hs : Stage manual s) (ht : s.pc t = .pulseWake) {who : Fin n → Bool}
    (hwho : ∀ u, who u = true → (s.pc u).isAsleep = true) :
    Stage manual (((s.wakes who).marks who).goto t .pulseReset) := by
  have hat := hs.at_pulse (t := t) (by rw [ht]; rfl)
  rw [ht] at hat
  obtain ⟨hp, hpc, hword, hsum⟩ := hat
  have hne : ∀ u, who u = true → u ≠ t := by
    rintro u hu rfl
    have hasleep := hwho u hu
    rw [ht] at hasleep
    cases hasleep
  refine .reset t hp (Function.update_self _ _ _) ?_ ?_ hword hsum
  · intro u hu
    rw [State.goto_pc, Function.update_of_ne hu]
    exact wakes_passive who (hpc u hu)
  · intro _ u hu
    have hu : who u = true := hu
    rw [State.goto_pc, Function.update_of_ne (hne u hu), State.marks_pc, wakes_of s hu]
    have hasleep := hwho u hu
    cases hpcu : s.pc u with
    | asleep timed => exact ⟨timed, rfl⟩
    | _ =>
      rw [hpcu] at hasleep
      cases hasleep

theorem Stage.cleared (hs : Stage manual s) (ht : s.pc t = .pulseReset) :
    Stage manual ((s.setWord 0).goto t .idle) := by
  obtain ⟨hp, hpc, -⟩ := hs.at_pulse (t := t) (by rw [ht]; rfl)
  refine .past hp ?_ rfl
  intro u
  by_cases hu : u = t
  · rw [hu, State.goto_pc, Function.update_self]
    rfl
  · rw [State.goto_pc, Function.update_of_ne hu]
    exact hpc u hu

theorem Stage.next (hs : Stage manual s) (hcas : NoCas manual s) (hone : OnePulse s (t, a))
    (h : s.next manual (t, a) = some s') : Stage manual s' ∧ NoCas manual s' := by
  obtain hwaits | ⟨hzero, ht, rfl⟩ | ⟨ht, rfl⟩ | ⟨ht, who, hwho, rfl⟩ | ⟨ht, rfl⟩ :=
    onePulse_moves (next_moves h) hone (hs.passive_or_pulsing t) fun hm => hcas hm t
  · exact ⟨hs.waits hwaits, hwaits.noCas hcas⟩
  · exact ⟨hs.started hzero, @NoCas.goto n manual s t s .pulseStore hcas rfl nofun⟩
  · exact ⟨hs.stored ht, hcas.goto rfl nofun⟩
  · exact ⟨hs.woken ht hwho, (hcas.wakes who).goto rfl nofun⟩
  · exact ⟨hs.cleared ht, hcas.goto rfl nofun⟩

theorem staged (h : (event manual initial n).ReachableIf OnePulse s) :
    Stage manual s ∧ NoCas manual s := by
  refine h.invariant (P := fun s => Stage manual s ∧ NoCas manual s) ?_ ?_
  · rintro s rfl
    exact ⟨.before rfl (fun _ => rfl) (fun _ h => nomatch h) fun _ => rfl,
      fun _ _ _ h => nomatch h⟩
  · exact fun s ta s' hs hone hn => hs.1.next hs.2 (t := ta.1) (a := ta.2) hone hn

/-! ## What is left of a pulse -/

/-- What a pulse owes: no waiter that was asleep when it began and that it has woken is asleep
    again, or, of an auto-reset event that had such waiters, one wait in all has been satisfied. -/
def Released (manual : Bool) (s : State n) : Prop :=
  if manual then
    ∀ t, s.log.slept t = true → s.log.woken t = true → (s.pc t).isAsleep = false
  else
    0 < s.log.sleepers → s.log.satisfied = s.log.before + 1

/-- When the pulse may reset the word: no such waiter is still in its wait, or, of an auto-reset
    event, one has taken the signal. -/
def Taken (manual : Bool) (s : State n) : Prop :=
  if manual then ∀ t, s.log.slept t = true → s.log.woken t = false
  else 0 < s.log.sleepers → s.word ≠ 1

instance (manual : Bool) (s : State n) : Decidable (Taken manual s) :=
  inferInstanceAs (Decidable (ite _ _ _))

/-- The pulse is over, and what it owes is done. -/
def Settled (manual : Bool) (s : State n) : Prop :=
  if manual then ∀ t, s.log.slept t = true → s.log.woken t = false
  else 0 < s.log.sleepers → s.log.satisfied = s.log.before + 1

/-- The one call of `pulse` has returned: every thread is in no call or inside `wait`. -/
def PulseOver (s : State n) : Prop := s.log.pulses = 1 ∧ ∀ u, (s.pc u).passive

/-- The pulse is over. -/
structure Over (manual : Bool) (s : State n) : Prop where
  pulses : s.log.pulses = 1
  passive : ∀ u, (s.pc u).passive
  word : s.word = 0
  noCas : NoCas manual s

theorem Over.next (h : Over manual s) (hone : OnePulse s (t, a))
    (hn : s.next manual (t, a) = some s') : Waits manual s t s' ∧ Over manual s' := by
  have hwaits : Waits manual s t s' := by
    obtain hwaits | ⟨hzero, -⟩ | ⟨ht, -⟩ | ⟨ht, -⟩ | ⟨ht, -⟩ :=
      onePulse_moves (next_moves hn) hone (.inl (h.passive t)) fun hm => h.noCas hm t
    · exact hwaits
    · rw [h.pulses] at hzero
      cases hzero
    all_goals
      have hpassive := h.passive t
      rw [ht] at hpassive
      cases hpassive
  exact ⟨hwaits, hwaits.pulses.trans h.pulses, hwaits.all_passive h.passive,
    (hwaits.zero h.word).1, hwaits.noCas h.noCas⟩

/-- What a pulse leaves is for good. -/
structure Since (manual : Bool) (s s' : State n) : Prop where
  past : Over manual s'
  satisfied : s'.log.satisfied = s.log.satisfied
  sleepers : s'.log.sleepers = s.log.sleepers
  before : s'.log.before = s.log.before
  slept : ∀ u, s'.log.slept u = true → s.log.slept u = true
  woken : ∀ u, s'.log.woken u = true → s.log.woken u = true

theorem Over.next_since (h : Over manual s) (hone : OnePulse s (t, a))
    (hn : s.next manual (t, a) = some s') : Since manual s s' := by
  obtain ⟨hwaits, hover⟩ := h.next hone hn
  exact ⟨hover, (hwaits.zero h.word).2, hwaits.sleepers, hwaits.before, hwaits.slept, hwaits.woken⟩

theorem Since.trans {s'' : State n} (h : Since manual s s') (h' : Since manual s' s'') :
    Since manual s s'' where
  past := h'.past
  satisfied := h'.satisfied.trans h.satisfied
  sleepers := h'.sleepers.trans h.sleepers
  before := h'.before.trans h.before
  slept u hu := h.slept u (h'.slept u hu)
  woken u hu := h.woken u (h'.woken u hu)

theorem Over.since (h : Over manual s) (hs : (event manual initial n).Reachable s)
    (hrun : (event manual initial n).RunIf OnePulse s s') : Since manual s s' := by
  refine (hrun.invariant hs ⟨h, rfl, rfl, rfl, fun _ h => h, fun _ h => h⟩ ?_).2
  exact fun s₁ ta s₂ _ hsince hone hn =>
    hsince.trans (hsince.past.next_since (t := ta.1) (a := ta.2) hone hn)

theorem Settled.since (h : Settled manual s) (hs : Since manual s s') : Settled manual s' := by
  unfold Settled at h ⊢
  split_ifs at h ⊢ with hm
  · intro u hslept
    by_contra hwoken
    have hold := hs.woken u (by simpa using hwoken)
    rw [h u (hs.slept u hslept)] at hold
    cases hold
  · intro hpos
    rw [hs.satisfied, hs.before]
    exact h (hs.sleepers ▸ hpos)

theorem Settled.released (h : Settled manual s) : Released manual s := by
  unfold Settled at h
  unfold Released
  split_ifs at h ⊢ with hm
  · intro t hslept hwoken
    rw [h t hslept] at hwoken
    cases hwoken
  · exact h

theorem sleeps_again {timed : Bool} (ht : s.pc t = .load timed) (hword : s.word = 0) :
    ∃ s', (event manual initial n).RunIf OnePulse s s' ∧ s'.log = s.log ∧
      (s'.pc t).isAsleep = true := by
  have hone : ∀ {r r' : State n} (a : Action n), OnePulse r (t, a) →
      r.next manual (t, a) = some r' → (event manual initial n).RunIf OnePulse r r' :=
    fun a ha hn => Relation.ReflTransGen.single ⟨(t, a), ha, hn⟩
  have hload : s.next manual (t, .access) =
      some (s.goto t (if timed then .clock else .sleep false)) := by
    have hne : s.word ≠ 1 := by
      rw [hword]
      decide
    simp only [State.next, State.accessed, ht, if_neg hne]
  have hsleep : ∀ {r : State n} {timed : Bool}, r.pc t = .sleep timed → r.word = 0 →
      r.next manual (t, .access) = some (r.goto t (.asleep timed)) := by
    intro r timed hr hw
    simp only [State.next, State.accessed, hr, if_pos hw]
  have hat : ∀ (r : State n) (pc : Pc), (r.goto t pc).pc t = pc := fun r pc =>
    Function.update_self _ _ _
  cases timed with
  | true =>
    have hclock : (s.goto t .clock).next manual (t, .clock false) =
        some ((s.goto t .clock).goto t (.sleep true)) := by
      simp [State.next]
    refine ⟨((s.goto t .clock).goto t (.sleep true)).goto t (.asleep true), ?_, rfl, ?_⟩
    · exact ((hone .access trivial hload).trans (hone (.clock false) trivial hclock)).trans
        (hone .access trivial (hsleep (hat _ _) hword))
    · rw [hat]
      rfl
  | false =>
    refine ⟨(s.goto t (.sleep false)).goto t (.asleep false), ?_, rfl, ?_⟩
    · exact (hone .access trivial hload).trans (hone .access trivial (hsleep (hat _ _) hword))
    · rw [hat]
      rfl

theorem reset_over (hs : Stage manual s) (hcas : NoCas manual s) (ht : s.pc t = .pulseReset) :
    Over manual ((s.setWord 0).goto t .idle) ∧
      (Settled manual ((s.setWord 0).goto t .idle) ↔ Taken manual s) := by
  have hat := hs.at_pulse (t := t) (by rw [ht]; rfl)
  rw [ht] at hat
  obtain ⟨hp, hpc, -, hsum⟩ := hat
  refine ⟨⟨hp, ?_, rfl, ?_⟩, ?_⟩
  · intro u
    by_cases hu : u = t
    · rw [hu, State.goto_pc, Function.update_self]
      rfl
    · rw [State.goto_pc, Function.update_of_ne hu]
      exact hpc u hu
  · intro hm u timed hu
    by_cases hut : u = t
    · rw [hut, State.goto_pc, Function.update_self] at hu
      cases hu
    · rw [State.goto_pc, Function.update_of_ne hut] at hu
      exact hcas hm u timed hu
  · cases manual with
    | true => exact Iff.rfl
    | false =>
      show (0 < s.log.sleepers → s.log.satisfied = s.log.before + 1) ↔
        (0 < s.log.sleepers → s.word ≠ 1)
      refine forall_congr' fun hpos => ?_
      have hsum := hsum rfl hpos
      unfold lit at hsum
      split_ifs at hsum with hw
      · exact iff_of_false (by omega) (not_not.mpr hw)
      · exact iff_of_true hsum hw

theorem Stage.over_of (hs : Stage manual s) (hcas : NoCas manual s) (h : PulseOver s) :
    Over manual s := by
  have hnone : ∀ {p : Fin n} {pc : Pc}, s.pc p = pc → pc.passive = true := fun hp => hp ▸ h.2 _
  cases hs with
  | before hp =>
    rw [h.1] at hp
    cases hp
  | store p _ ht | wake p _ ht | reset p _ ht => cases hnone ht
  | past hp hpc hword => exact ⟨hp, hpc, hword, hcas⟩

theorem settled_of_taken (h : (event manual initial n).ReachableIf
      (fun s a => OnePulse s a ∧ (s.pc a.1 = .pulseReset → Taken manual s)) s) :
    PulseOver s → Settled manual s := by
  have hall : (Stage manual s ∧ NoCas manual s) ∧ (PulseOver s → Settled manual s) := by
    refine h.invariant
      (P := fun s => (Stage manual s ∧ NoCas manual s) ∧ (PulseOver s → Settled manual s)) ?_ ?_
    · intro s hinit
      refine ⟨staged (.start hinit), fun hover => ?_⟩
      obtain rfl : s = _ := hinit
      cases hover.1
    · rintro s ⟨t, a⟩ s' ⟨⟨hstage, hcas⟩, hover⟩ ⟨hone, htaken⟩ hn
      refine ⟨hstage.next hcas hone hn, ?_⟩
      rintro ⟨hpulses, hpassive⟩
      have hbusy : ∀ {r : State n} {pc : Pc}, s' = r.goto t pc → pc.passive = true := by
        rintro r pc rfl
        have hpc := hpassive t
        rwa [State.goto_pc, Function.update_self] at hpc
      obtain hwaits | ⟨hzero, ht, hs'⟩ | ⟨ht, hs'⟩ | ⟨ht, who, hwho, hs'⟩ | ⟨ht, hs'⟩ :=
        onePulse_moves (next_moves hn) hone (hstage.passive_or_pulsing t) fun hm => hcas hm t
      · have hbefore : PulseOver s := by
          refine ⟨hwaits.pulses.symm.trans hpulses, fun u => ?_⟩
          by_cases hu : u = t
          · rw [hu]
            exact hwaits.passive
          · rw [← hwaits.others u hu]
            exact hpassive u
        exact (hover hbefore).since ((hstage.over_of hcas hbefore).next_since hone hn)
      · have hpc := hpassive t
        rw [hs'] at hpc
        simp [State.start, Pc.passive, Pc.waiting] at hpc
      · cases hbusy hs'
      · cases hbusy hs'
      · rw [hs']
        exact (reset_over hstage hcas ht).2.mpr (htaken ht)
  exact hall.2

theorem Stage.released (hs : Stage true s) (hover : PulseOver s → Settled true s) :
    Released true s := by
  have hnone : (∀ u, s.log.woken u = false) → Released true s := by
    intro hwoken t _ ht
    rw [hwoken t] at ht
    cases ht
  cases hs with
  | before _ _ _ hwoken => exact hnone hwoken
  | store _ _ _ _ hwoken => exact hnone hwoken
  | wake _ _ _ _ hwoken => exact hnone hwoken
  | reset _ _ _ _ hwoken =>
    intro t _ ht
    obtain ⟨timed, hload⟩ := hwoken rfl t ht
    rw [hload]
    rfl
  | past hp hpc => exact (hover ⟨hp, hpc⟩).released

/-- **A pulse releases the waiters exactly when** the word is not reset before they have looked at
    it: until then they are on their way, what comes after changes nothing, and one that has not
    looked can go back to sleep. An auto-reset event satisfies no more waits than it has been given
    signals. -/
theorem pulse_releases (manual initial : Bool) (n : Nat) :
    (∀ s, (event manual initial n).ReachableIf
        (fun s a => OnePulse s a ∧ (s.pc a.1 = .pulseReset → Taken manual s)) s →
      (manual = true ∨ PulseOver s) → Released manual s) ∧
    (∀ s s' p, (event manual initial n).ReachableIf OnePulse s → s.pc p = .pulseReset →
      s.next manual (p, .access) = some s' →
        ((∀ s'', (event manual initial n).RunIf OnePulse s' s'' → Released manual s'') ↔
          Taken manual s)) ∧
    ∀ s, (event false initial n).Reachable s →
      s.log.satisfied ≤ initial.toNat + s.log.signals := by
  refine ⟨?_, ?_, fun s h => satisfied_le h⟩
  · intro s h hwhen
    have hsettled := settled_of_taken h
    have hstage := (staged (h.mono fun _ _ hok => hok.1)).1
    rcases hwhen with rfl | hover
    · exact hstage.released hsettled
    · exact (hsettled hover).released
  · intro s s' p h hp hn
    obtain ⟨hstage, hcas⟩ := staged h
    obtain ⟨hover, hsettled⟩ := reset_over hstage hcas hp
    obtain rfl : s' = (s.setWord 0).goto p .idle := by
      simp only [State.next, State.accessed, hp, Option.some.injEq] at hn
      exact hn.symm
    have hreach : (event manual initial n).Reachable ((s.setWord 0).goto p .idle) :=
      .step (a := (p, .access)) (h.mono fun _ _ _ => trivial) trivial hn
    constructor
    · intro hall
      cases manual with
      | false =>
        exact hsettled.mp (hall _ Relation.ReflTransGen.refl)
      | true =>
        by_contra hnot
        obtain ⟨t, hslept, hwoken⟩ : ∃ t, s.log.slept t = true ∧ s.log.woken t = true := by
          by_contra hno
          refine hnot fun t hslept => ?_
          by_contra hwoken
          exact hno ⟨t, hslept, by simpa using hwoken⟩
        have hat := hstage.at_pulse (t := p) (by rw [hp]; rfl)
        rw [hp] at hat
        obtain ⟨-, -, hloads, -⟩ := hat
        obtain ⟨timed, hload⟩ := hloads rfl t hwoken
        have hne : t ≠ p := by
          rintro rfl
          rw [hp] at hload
          cases hload
        have hload' : ((s.setWord 0).goto p .idle).pc t = .load timed := by
          rw [State.goto_pc, Function.update_of_ne hne]
          exact hload
        obtain ⟨s'', hrun, hlog, hasleep⟩ := @sleeps_again n true initial _ t timed hload' rfl
        have hawake := hall s'' hrun t (by rw [hlog]; exact hslept) (by rw [hlog]; exact hwoken)
        rw [hasleep] at hawake
        cases hawake
    · intro htaken s'' hrun
      exact ((hsettled.mpr htaken).since (hover.since hreach hrun)).released

/-! ### One waiter -/

/-- An event that is not signaled, and two threads. -/
def unsignaled : State 2 := ⟨0, fun _ => .idle, .empty 2⟩

/-- Thread 0 is asleep in a wait when thread 1 pulses the event, and has been woken. -/
def wokenByPulse : List (Fin 2 × Action 2) :=
  [(0, .call (.wait false)), (0, .access), (0, .access), (1, .call .pulse), (1, .access),
    (1, .wake fun u => u = 0)]

/-- It takes the signal of an auto-reset event. -/
def consumesPulse : List (Fin 2 × Action 2) := wokenByPulse ++ [(0, .access), (0, .access)]

/-- The word is reset first, and the thread finds 0. -/
def missesPulse : List (Fin 2 × Action 2) :=
  wokenByPulse ++ [(1, .access), (0, .access), (0, .access)]

theorem reached {ok : State 2 → Fin 2 × Action 2 → Prop} [∀ s a, Decidable (ok s a)]
    {l : List (Fin 2 × Action 2)} {P : State 2 → Bool}
    (h : ((event manual false 2).execIf ok unsignaled l).any P = true) :
    ∃ s, (event manual false 2).ReachableIf ok s ∧ P s = true := by
  cases hrun : (event manual false 2).execIf ok unsignaled l with
  | none =>
    rw [hrun] at h
    cases h
  | some s =>
    rw [hrun] at h
    exact ⟨s, Machine.reachableIf_of_execIf (.start rfl) hrun, h⟩

/-- What can be read off a state in which the pulse is over. -/
def overWith (satisfied : Nat) (s : State 2) : Bool :=
  s.log.pulses = 1 && s.log.sleepers = 1 && s.log.before = 0 && s.log.satisfied = satisfied &&
    (s.pc 0).passive && (s.pc 1).passive

theorem pulseOver_of {satisfied : Nat} {s : State 2} (h : overWith satisfied s = true) :
    PulseOver s ∧ s.log.sleepers = 1 ∧ s.log.before = 0 ∧ s.log.satisfied = satisfied := by
  simp only [overWith, Bool.and_eq_true, decide_eq_true_eq] at h
  obtain ⟨⟨⟨⟨⟨hp, hsleepers⟩, hbefore⟩, hsat⟩, hzero⟩, hone⟩ := h
  refine ⟨⟨hp, fun u => ?_⟩, hsleepers, hbefore, hsat⟩
  rcases Fin.exists_fin_two.mp ⟨u, rfl⟩ with hu | hu
  · exact hu ▸ hzero
  · exact hu ▸ hone

theorem pulse_releases_one : ∃ s s', (event false false 2).Reachable s ∧ PulseOver s ∧
    s.log.sleepers = 1 ∧ s.log.satisfied = s.log.before + 1 ∧
    s.log.satisfied ≤ false.toNat + s.log.signals ∧
    (event false false 2).Reachable s' ∧ s'.pc 1 = .pulseReset ∧
    ∀ s'', (event false false 2).RunIf OnePulse ((s'.setWord 0).goto 1 .idle) s'' →
      Released false s'' := by
  obtain ⟨hruns, hlast, hcount⟩ := pulse_releases false false 2
  obtain ⟨s, hs, hover⟩ := @reached false
    (fun s a => OnePulse s a ∧ (s.pc a.1 = .pulseReset → Taken false s)) _
    (consumesPulse ++ [(1, .access)]) (overWith 1) (by decide)
  obtain ⟨hover, hsleepers, hbefore, hsat⟩ := pulseOver_of hover
  obtain ⟨s', hs', hready⟩ := @reached false OnePulse _ consumesPulse
    (fun s => s.pc 1 = .pulseReset && decide (Taken false s)) (by decide)
  simp only [Bool.and_eq_true, decide_eq_true_eq] at hready
  have hreach : (event false false 2).Reachable s := hs.mono fun _ _ _ => trivial
  have hnext : s'.next false (1, .access) = some ((s'.setWord 0).goto 1 .idle) := by
    simp only [State.next, State.accessed, hready.1]
  exact ⟨s, s', hreach, hover, hsleepers,
    hruns s hs (.inr hover) (hsleepers.symm ▸ Nat.one_pos), hcount s hreach,
    hs'.mono fun _ _ _ => trivial, hready.1, (hlast s' _ 1 hs' hready.1 hnext).mpr hready.2⟩

/-- The waiter of a manual-reset event is asleep again, and no wait of an auto-reset event has been
    satisfied. -/
theorem pulse_releases_nobody : ∃ s s',
    (event true false 2).ReachableIf OnePulse s ∧ s.log.slept 0 = true ∧ s.log.woken 0 = true ∧
      (s.pc 0).isAsleep = true ∧
    (event false false 2).ReachableIf OnePulse s' ∧ PulseOver s' ∧ s'.log.sleepers = 1 ∧
      s'.log.satisfied = s'.log.before := by
  obtain ⟨s, hs, hback⟩ := @reached true OnePulse _ missesPulse
    (fun s => s.log.slept 0 && s.log.woken 0 && (s.pc 0).isAsleep) (by decide)
  obtain ⟨s', hs', hover⟩ := @reached false OnePulse _ missesPulse (overWith 0) (by decide)
  obtain ⟨hover, hsleepers, hbefore, hsat⟩ := pulseOver_of hover
  simp only [Bool.and_eq_true] at hback
  exact ⟨s, s', hs, hback.1.1, hback.1.2, hback.2, hs', hover, hsleepers, hsat.trans hbefore.symm⟩

end WinCompat.Sync.Event
