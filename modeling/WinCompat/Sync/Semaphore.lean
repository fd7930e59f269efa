import WinCompat.Lib.Machine

/-!
# `SemaphoreInner` — a counting semaphore on one futex word

`ntapi/src/sync.rs`, `SemaphoreInner`, `create_semaphore_w` and `release_semaphore`. As for the
other primitives, each atomic access is one step of one thread.

Three things about the source shape the model. `create_semaphore_w` ignores its `maximum`:
`SemaphoreInner` has nowhere to keep it. `release_semaphore` clamps its count at 0 from below and
always answers `TRUE`. And `release` reads the count it reports with a load of its own, before the
`fetch_add`.

`released` and `taken` are not in the source. They count what the increments added and how many
waits succeeded, so that conservation can be stated.
-/

namespace WinCompat.Sync.Semaphore

open Lib

/-- What a call returned. -/
inductive Answer
  -- `WaitForSingleObject`: `true` is `WAIT_OBJECT_0`, `false` is `WAIT_TIMEOUT`
  | wait (acquired : Bool)
  -- `ReleaseSemaphore`: the `BOOL` and what was written to `prev`
  | release (ok : Bool) (prev : Option (BitVec 32))
  deriving DecidableEq

/-- Where a thread is in `SemaphoreInner`'s code. -/
inductive Pc
  | idle
  -- `wait`: about to load the count
  | waitLoad (infinite : Bool)
  -- `wait`: loaded `c > 0`, about to `compare_exchange(c, c - 1)`
  | waitCas (infinite : Bool) (c : BitVec 32)
  -- `wait`: loaded 0, about to compare the clock with the deadline
  | waitClock (infinite : Bool)
  -- `wait`: about to `futex_wait(0)`
  | waitFutex (infinite : Bool)
  | asleep (infinite : Bool)
  -- `ReleaseSemaphore(release, prev)`: `prev` is not null, about to load the count for it
  | releasePrev (release : Int)
  -- about to `fetch_add` the clamped `release`
  | releaseAdd (release : Int) (prev : Option (BitVec 32))
  -- about to `futex_wake`
  | releaseWake (release : Int) (prev : Option (BitVec 32))
  | returned (r : Answer)
  deriving DecidableEq

/-- The argument of the `ReleaseSemaphore` call the thread is inside, if it is in one. -/
def Pc.releasing : Pc → Option Int
  | .releasePrev k | .releaseAdd k _ | .releaseWake k _ => some k
  | _ => none

/-- A thread may enter the semaphore's code when it is not inside it. -/
def Pc.outside : Pc → Bool
  | .idle | .returned _ => true
  | _ => false

structure State (n : Nat) where
  count : BitVec 32
  pc : Fin n → Pc
  /-- The sum of what the increments so far have added. -/
  released : Nat
  /-- How many waits have taken a unit. -/
  taken : Nat

inductive Action
  /-- `WaitForSingleObject` with a finite or an infinite timeout. -/
  | callWait (infinite : Bool)
  /-- `ReleaseSemaphore(release, prev)`; `wantPrev` says whether `prev` is not null. -/
  | callRelease (release : Int) (wantPrev : Bool)
  /-- The thread's next atomic access. -/
  | access
  /-- The thread reads a clock at or past its deadline. -/
  | expired
  /-- A sleeper's `futex_wait` returns: woken, out of time, or for no reason. -/
  | wakeUp
  deriving DecidableEq

variable {n : Nat}

namespace State

def goto (s : State n) (t : Fin n) (pc : Pc) : State n :=
  { s with pc := Function.update s.pc t pc }

/-- `count.compare_exchange(c, c - 1)` succeeding. -/
def take (s : State n) (c : BitVec 32) : State n :=
  { s with count := c - 1, taken := s.taken + 1 }

/-- `count.fetch_add(k)`. -/
def add (s : State n) (k : BitVec 32) : State n :=
  { s with count := s.count + k, released := s.released + k.toNat }

end State

/-- `release.max(0) as u32` and `initial.max(0) as u32`, for an `i32` argument. -/
def clampCount (k : Int) : BitVec 32 := BitVec.ofInt 32 (max k 0)

def State.next (s : State n) : Fin n × Action → Option (State n)
  | (t, .callWait infinite) =>
      if (s.pc t).outside then some (s.goto t (.waitLoad infinite)) else none
  | (t, .callRelease release wantPrev) =>
      if (s.pc t).outside then
        some (s.goto t (if wantPrev then .releasePrev release else .releaseAdd release none))
      else none
  | (t, .access) =>
      match s.pc t with
      | .waitLoad i =>
          some (s.goto t (if s.count = 0 then .waitClock i else .waitCas i s.count))
      | .waitCas i c =>
          if s.count = c then some ((s.take c).goto t (.returned (.wait true)))
          else some (s.goto t (.waitLoad i))
      | .waitClock i => some (s.goto t (.waitFutex i))
      | .waitFutex i => some (s.goto t (if s.count = 0 then .asleep i else .waitLoad i))
      | .releasePrev k => some (s.goto t (.releaseAdd k (some s.count)))
      | .releaseAdd k prev => some ((s.add (clampCount k)).goto t (.releaseWake k prev))
      | .releaseWake _ prev => some (s.goto t (.returned (.release true prev)))
      | _ => none
  | (t, .expired) =>
      match s.pc t with
      | .waitClock false => some (s.goto t (.returned (.wait false)))
      | _ => none
  | (t, .wakeUp) =>
      match s.pc t with
      | .asleep i => some (s.goto t (.waitLoad i))
      | _ => none

/-- Any number of threads on the semaphore made by `create_semaphore_w(initial, maximum)`, whose
    `maximum` the source names `_maximum`. -/
def semaphore (n : Nat) (initial _maximum : Int) : Machine (State n) (Fin n × Action) where
  init s := s.count = clampCount initial ∧ (∀ t, s.pc t = .idle) ∧ s.released = 0 ∧ s.taken = 0
  next := State.next

/-! ## What a step does to the count -/

/-- The effect of one step on the count and the two tallies. -/
inductive Effect (s s' : State n) : Prop
  | quiet (hc : s'.count = s.count) (hr : s'.released = s.released) (ht : s'.taken = s.taken)
  -- a wait takes a unit, and the count was not 0
  | take (h0 : s.count ≠ 0) (hc : s'.count = s.count - 1) (hr : s'.released = s.released)
      (ht : s'.taken = s.taken + 1)
  | add (k : BitVec 32) (hc : s'.count = s.count + k) (hr : s'.released = s.released + k.toNat)
      (ht : s'.taken = s.taken)

/-- What a thread remembers: a count it loaded to take from is not 0, and the only answer of
    `ReleaseSemaphore` is `TRUE`. -/
def PcOk : Pc → Prop
  | .waitCas _ c => c ≠ 0
  | .returned (.release ok _) => ok = true
  | _ => True

theorem pcOk_goto {s : State n} (h : ∀ t, PcOk (s.pc t)) {t : Fin n} {pc : Pc} (hpc : PcOk pc) :
    ∀ u, PcOk ((s.goto t pc).pc u) := by
  intro u
  simp only [State.goto, Function.update_apply]
  split
  · exact hpc
  · exact h u

theorem next_spec {s s' : State n} {a : Fin n × Action} (hpc : ∀ t, PcOk (s.pc t))
    (h : s.next a = some s') : Effect s s' ∧ ∀ t, PcOk (s'.pc t) := by
  obtain ⟨t, a⟩ := a
  cases a with
  | callWait infinite =>
    simp only [State.next] at h
    split at h <;> cases h
    exact ⟨.quiet rfl rfl rfl, pcOk_goto hpc trivial⟩
  | callRelease release wantPrev =>
    simp only [State.next] at h
    split at h <;> cases h
    exact ⟨.quiet rfl rfl rfl, pcOk_goto hpc (by cases wantPrev <;> trivial)⟩
  | access =>
    cases hp : s.pc t with
    | idle | asleep _ | returned _ => simp [State.next, hp] at h
    | waitLoad i =>
      simp only [State.next, hp] at h
      cases h
      refine ⟨.quiet rfl rfl rfl, pcOk_goto hpc ?_⟩
      split
      · trivial
      · assumption
    | waitCas i c =>
      simp only [State.next, hp] at h
      have hc : c ≠ 0 := by have := hpc t; rw [hp] at this; exact this
      split at h
      · next he =>
        cases h
        subst he
        exact ⟨.take hc rfl rfl rfl, pcOk_goto (s := s.take s.count) hpc trivial⟩
      · cases h; exact ⟨.quiet rfl rfl rfl, pcOk_goto hpc trivial⟩
    | waitClock i | releasePrev k | releaseWake _ prev =>
      simp only [State.next, hp] at h
      cases h
      exact ⟨.quiet rfl rfl rfl, pcOk_goto hpc (by trivial)⟩
    | waitFutex i =>
      simp only [State.next, hp] at h
      cases h
      exact ⟨.quiet rfl rfl rfl, pcOk_goto hpc (by split <;> trivial)⟩
    | releaseAdd k prev =>
      simp only [State.next, hp] at h
      cases h
      exact ⟨.add (clampCount k) rfl rfl rfl, pcOk_goto (s := s.add (clampCount k)) hpc trivial⟩
  | expired =>
    simp only [State.next] at h
    split at h <;> cases h
    exact ⟨.quiet rfl rfl rfl, pcOk_goto hpc trivial⟩
  | wakeUp =>
    simp only [State.next] at h
    split at h <;> cases h
    exact ⟨.quiet rfl rfl rfl, pcOk_goto hpc trivial⟩

/-! ## Conservation -/

/-- Nothing is lost and nothing is made up, in the 32 bits the count has. -/
structure Inv (initial : Nat) (s : State n) : Prop where
  pcOk : ∀ t, PcOk (s.pc t)
  conserved : (s.count.toNat + s.taken) % 2 ^ 32 = (initial + s.released) % 2 ^ 32
  exact_ : initial + s.released < 2 ^ 32 → s.count.toNat + s.taken = initial + s.released

theorem Inv.next {initial : Nat} {s s' : State n} {a : Fin n × Action} (hi : Inv initial s)
    (h : s.next a = some s') : Inv initial s' := by
  obtain ⟨he, hpc⟩ := next_spec hi.pcOk h
  have hc := hi.conserved
  have hx := hi.exact_
  have hlt := s.count.isLt
  cases he with
  | quiet e₁ e₂ e₃ => exact ⟨hpc, by rw [e₁, e₂, e₃]; exact hc, by rw [e₁, e₂, e₃]; exact hx⟩
  | take h0 e₁ e₂ e₃ =>
    have hpos : 0 < s.count.toNat := by
      rw [Nat.pos_iff_ne_zero]
      exact fun hz => h0 (BitVec.eq_of_toNat_eq hz)
    have hsub : (s.count - 1).toNat = s.count.toNat - 1 := by
      rw [BitVec.toNat_sub, show (1 : BitVec 32).toNat = 1 from rfl]
      omega
    refine ⟨hpc, ?_, fun hb => ?_⟩
    · rw [e₁, e₂, e₃, hsub, ← hc]
      congr 1
      omega
    · rw [e₂] at hb
      have := hx hb
      rw [e₁, e₂, e₃, hsub]
      omega
  | add k e₁ e₂ e₃ =>
    refine ⟨hpc, ?_, fun hb => ?_⟩
    · rw [e₁, e₂, e₃, BitVec.toNat_add]
      omega
    · rw [e₂] at hb
      have := hx (by omega)
      rw [e₁, e₂, e₃, BitVec.toNat_add]
      omega

theorem inv_reachable {initial maximum : Int} {s : State n} (hinit : 0 ≤ initial)
    (hmax : initial ≤ maximum) (h32 : maximum < 2 ^ 31)
    (h : (semaphore n initial maximum).Reachable s) : Inv initial.toNat s := by
  refine h.invariant (fun s ⟨hc, hidle, hr, ht⟩ => ?_) (fun _ _ _ hi hn => hi.next hn)
  have hstart : s.count.toNat = initial.toNat := by
    rw [hc, clampCount, Int.max_eq_left hinit, BitVec.toNat_ofInt]
    omega
  exact ⟨fun t => by rw [hidle t]; trivial, by rw [hr, ht, hstart], by rw [hr, ht, hstart]; omega⟩

theorem clampCount_of_nonpos {k : Int} (h : k ≤ 0) : clampCount k = 0 := by
  rw [clampCount, Int.max_eq_right h]
  rfl

theorem count_of_releasing_nonpos {s s' : State n} {t : Fin n} {a : Action} {k : Int}
    (hk : (s.pc t).releasing = some k) (hle : k ≤ 0) (h : s.next (t, a) = some s') :
    s'.count = s.count := by
  cases hp : s.pc t with
  | releasePrev k' =>
    cases a <;> simp [State.next, hp, Pc.outside] at h
    rw [← h]; rfl
  | releaseWake k' prev =>
    cases a <;> simp [State.next, hp, Pc.outside] at h
    rw [← h]; rfl
  | releaseAdd k' prev =>
    rw [hp] at hk
    cases hk
    cases a <;> simp [State.next, hp, Pc.outside] at h
    rw [← h]
    show s.count + clampCount k = s.count
    rw [clampCount_of_nonpos hle]
    exact BitVec.add_zero _
  | _ => rw [hp] at hk; cases hk

/-- **Semaphore accounting.** In every reachable state the count is what was there at first plus
    what the releases added minus what the waits took: modulo `2^32` always, and on the nose while
    the total fits. Every `ReleaseSemaphore` answers `TRUE`, and one with a count of at most 0
    leaves the semaphore's count alone. -/
theorem semaphore_accounting (n : Nat) (initial maximum : Int) (h0 : 0 ≤ initial)
    (hmax : initial ≤ maximum) (h32 : maximum < 2 ^ 31) (s : State n)
    (h : (semaphore n initial maximum).Reachable s) :
    (s.count.toNat + s.taken) % 2 ^ 32 = (initial.toNat + s.released) % 2 ^ 32 ∧
    (initial.toNat + s.released < 2 ^ 32 → s.count.toNat + s.taken = initial.toNat + s.released) ∧
    (∀ t ok prev, s.pc t = .returned (.release ok prev) → ok = true) ∧
    (∀ t a k s', (s.pc t).releasing = some k → k ≤ 0 → s.next (t, a) = some s' →
      s'.count = s.count) := by
  have hi := inv_reachable h0 hmax h32 h
  refine ⟨hi.conserved, hi.exact_, fun t ok prev ht => ?_, fun t a k s' => ?_⟩
  · have := hi.pcOk t
    rw [ht] at this
    exact this
  · exact count_of_releasing_nonpos

/-- Of two threads one takes the unit there is; the other finds none, falls asleep, and takes the one
    that the first gives back. -/
def handedOver : List (Fin 2 × Action) :=
  [(0, .callWait true), (0, .access), (0, .access), (1, .callWait true), (1, .access), (1, .access),
    (1, .access), (0, .callRelease 1 false), (0, .access), (0, .access), (1, .wakeUp), (1, .access),
    (1, .access)]

theorem semaphore_accounting_handedOver :
    ∃ s, (semaphore 2 1 2).exec ⟨1, fun _ => .idle, 0, 0⟩ handedOver = some s ∧ s.taken = 2 ∧
      s.count.toNat + 2 = 1 + s.released := by
  have hrun := Machine.reachable_of_exec (M := semaphore 2 1 2) (s := ⟨1, fun _ => .idle, 0, 0⟩)
    (l := handedOver) ⟨rfl, fun _ => rfl, rfl, rfl⟩ rfl
  exact ⟨_, rfl, rfl,
    (semaphore_accounting 2 1 2 (by decide) (by decide) (by decide) _ hrun).2.1 (by decide)⟩

/-- `ReleaseSemaphore(2)` on a semaphore made with `initial = 0`, `maximum = 1`: it answers `TRUE`
    and leaves the count above the maximum. -/
theorem semaphore_exceeds_maximum :
    ∃ s, (semaphore 1 0 1).Reachable s ∧ s.pc 0 = .returned (.release true none) ∧
      ¬ s.count.toNat ≤ 1 := by
  have hrun : (semaphore 1 0 1).Reachable
      (((((State.mk 0 (fun _ => .idle) 0 0 : State 1).goto 0 (.releaseAdd 2 none)).add 2).goto 0
        (.releaseWake 2 none)).goto 0 (.returned (.release true none))) :=
    Machine.reachable_of_exec (s := ⟨0, fun _ => .idle, 0, 0⟩)
      (l := [(0, .callRelease 2 false), (0, .access), (0, .access)])
      ⟨rfl, fun _ => rfl, rfl, rfl⟩ rfl
  exact ⟨_, hrun, rfl, by decide⟩

end WinCompat.Sync.Semaphore
