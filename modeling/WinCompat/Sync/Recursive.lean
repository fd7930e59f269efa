import WinCompat.Lib.Machine

/-!
# The recursive locks: `CriticalSectionInner` and `MutexInner`

`ntapi/src/sync.rs`. Both have a lock word that is a futex (0 free, 1 held), an owner word and a
recursion count, and the same code but for the timeout: `enter` is `acquire` without one. Every
atomic access of a thread is one step, in whatever order the scheduler likes. A thread id is never
0, so the owner word is an `Option`.

`held` counts a thread's acquires that have returned and have not been released, and `wrote` says
whether the thread's latest call has changed one of the words. The code looks at neither.
-/

namespace WinCompat.Sync.Recursive

open Lib

variable {n : Nat}

/-- How a thread's latest call ended. -/
inductive Outcome
  | noCall
  | acquired
  /-- `WAIT_TIMEOUT`. -/
  | timedOut
  | released
  /-- `release` by a thread that is not the owner. -/
  | refused
  deriving DecidableEq

/-- Where a thread is: what it is about to do. -/
inductive Pc
  | idle (last : Outcome)
  -- acquire: `timed` when the timeout is not INFINITE.
  | acquireLoad (timed : Bool)
  | fetchAdd
  | cas (timed : Bool)
  | storeOwner
  | storeRecursion
  -- The compare-exchange of a timed acquire failed, about to compare the clock with the deadline.
  | clock
  | wait (timed : Bool)
  | asleep (timed : Bool)
  -- release
  | releaseLoad
  | fetchSub
  | clearOwner
  | clearLock
  | wake
  deriving DecidableEq

namespace Pc

def isIdle : Pc → Bool
  | idle _ => true
  | _ => false

def isAsleep : Pc → Bool
  | asleep _ => true
  | _ => false

/-- Awake in the loop of `acquire`. -/
def inLoop : Pc → Bool
  | cas _ | clock | wait _ => true
  | _ => false

/-- The lock word is this thread's although its acquire has not returned yet, or its outermost release
    has begun to give it back. -/
def inWindow : Pc → Bool
  | storeOwner | storeRecursion | clearOwner | clearLock => true
  | _ => false

end Pc

/-- The three words. -/
structure Words (n : Nat) where
  lock : BitVec 32
  owner : Option (Fin n)
  recursion : BitVec 32
  deriving DecidableEq

/-- The next atomic access of thread `t`. -/
def access (w : Words n) (t : Fin n) : Pc → Option (Words n × Pc)
  | .acquireLoad timed => some (w, if w.owner = some t then .fetchAdd else .cas timed)
  | .fetchAdd => some ({ w with recursion := w.recursion + 1 }, .idle .acquired)
  | .cas timed =>
    if w.lock = 0 then some ({ w with lock := 1 }, .storeOwner)
    else some (w, if timed then .clock else .wait false)
  | .storeOwner => some ({ w with owner := some t }, .storeRecursion)
  | .storeRecursion => some ({ w with recursion := 1 }, .idle .acquired)
  -- `futex_wait(lock, 1)` sleeps only while the word is 1.
  | .wait timed => some (w, if w.lock = 1 then .asleep timed else .cas timed)
  | .releaseLoad => some (w, if w.owner = some t then .fetchSub else .idle .refused)
  | .fetchSub =>
    some ({ w with recursion := w.recursion - 1 },
      if w.recursion - 1 = 0 then .clearOwner else .idle .released)
  | .clearOwner => some ({ w with owner := none }, .clearLock)
  | .clearLock => some ({ w with lock := 0 }, .wake)
  | _ => none

/-- The thread's unreleased acquires after an access at this point. -/
def heldAfter (held : Nat) : Pc → Nat
  | .fetchAdd | .storeRecursion => held + 1
  | .fetchSub => held - 1
  | _ => held

structure State (n : Nat) where
  words : Words n
  pc : Fin n → Pc
  held : Fin n → Nat
  wrote : Fin n → Bool

inductive Action (n : Nat)
  /-- The thread calls `enter`, or `acquire` with or without a timeout. -/
  | acquire (timed : Bool)
  /-- The thread calls `leave` or `release`. -/
  | release
  | access
  /-- The clock is read: has the deadline passed? -/
  | clock (expired : Bool)
  /-- `futex_wake(lock, 1)`, with the sleeper it wakes if there is one. -/
  | wakeOne (u : Option (Fin n))
  /-- `futex_wait` returns for no reason, or because its timeout is over. -/
  | wakeUp

def State.goto (s : State n) (t : Fin n) (pc : Pc) : State n :=
  { s with pc := Function.update s.pc t pc }

def State.enter (s : State n) (t : Fin n) (pc : Pc) : State n :=
  { s.goto t pc with wrote := Function.update s.wrote t false }

/-- The access at the thread's program point led to these words and this point. -/
def State.accessed (s : State n) (t : Fin n) (w : Words n) (pc : Pc) : State n where
  words := w
  pc := Function.update s.pc t pc
  held := Function.update s.held t (heldAfter (s.held t) (s.pc t))
  wrote := Function.update s.wrote t (s.wrote t || decide (w ≠ s.words))

def State.next (s : State n) : Fin n × Action n → Option (State n)
  | (t, .acquire timed) =>
    if (s.pc t).isIdle then some (s.enter t (.acquireLoad timed)) else none
  | (t, .release) => if (s.pc t).isIdle then some (s.enter t .releaseLoad) else none
  | (t, .access) => (access s.words t (s.pc t)).map fun r => s.accessed t r.1 r.2
  | (t, .clock expired) =>
    if s.pc t = .clock then some (s.goto t (if expired then .idle .timedOut else .wait true))
    else none
  | (t, .wakeOne none) =>
    if s.pc t = .wake ∧ ∀ u, (s.pc u).isAsleep = false then some (s.goto t (.idle .released))
    else none
  | (t, .wakeOne (some u)) =>
    if s.pc t = .wake then
      match s.pc u with
      | .asleep timed => some ((s.goto u (.cas timed)).goto t (.idle .released))
      | _ => none
    else none
  | (t, .wakeUp) =>
    match s.pc t with
    | .asleep timed => some (s.goto t (.cas timed))
    | _ => none

/-- A new lock: free, or owned by the thread that made it (`CreateMutexW` with `bInitialOwner`). -/
def State.fresh : Option (Fin n) → State n
  | none => ⟨⟨0, none, 0⟩, fun _ => .idle .noCall, fun _ => 0, fun _ => false⟩
  | some t =>
    ⟨⟨1, some t, 1⟩, fun _ => .idle .noCall, Function.update (fun _ => 0) t 1, fun _ => false⟩

def machine (n : Nat) : Machine (State n) (Fin n × Action n) where
  init s := ∃ o, s = .fresh o
  next := State.next

/-! ## What the lock is for -/

/-- The thread is between its outermost successful acquire and the matching release. -/
def Inside (s : State n) (t : Fin n) : Prop := (s.pc t).inWindow = true ∨ 0 < s.held t

/-- What a recursive lock is for. No wake-up is lost: while somebody sleeps on a free lock, somebody
    else is about to wake it or to take the lock. -/
structure Exclusive (s : State n) : Prop where
  exclusion : ∀ t u, Inside s t → Inside s u → t = u
  recursion : ∀ t, 0 < s.held t → s.words.recursion.toNat = s.held t
  /-- A call that was refused or timed out has changed nothing. -/
  unchanged : ∀ t, s.pc t = .idle .refused ∨ s.pc t = .idle .timedOut → s.wrote t = false
  /-- A release is refused exactly where there is nothing to release. -/
  refused : ∀ t, s.pc t = .releaseLoad → (s.words.owner = some t ↔ 0 < s.held t)
  noLostWakeup : s.words.lock = 0 → (∃ t, (s.pc t).isAsleep) →
    ∃ t, s.pc t = .wake ∨ (s.pc t).inLoop

/-- No acquire is the `2^32`-th unreleased one of its thread. -/
def Bounded (s : State n) : Fin n × Action n → Prop
  | (t, .access) => s.pc t = .fetchAdd → s.held t + 1 < 2 ^ 32
  | _ => True

/-! ## The invariant -/

/-- Which threads can be at a point. -/
def Pc.Ok (held : Nat) : Pc → Prop
  | .idle _ | .acquireLoad _ | .releaseLoad => True
  | .fetchAdd | .fetchSub => 0 < held
  | _ => held = 0

/-- The owner word names the thread inside at this point. -/
def Pc.named : Pc → Bool
  | .storeOwner | .clearLock => false
  | _ => true

/-- Points of a call that has not written yet. -/
def Pc.clean : Pc → Bool
  | .acquireLoad _ | .cas _ | .clock | .wait _ | .asleep _ | .releaseLoad | .idle .refused
  | .idle .timedOut => true
  | _ => false

/-- `o` is the thread inside, and the three words say so. -/
structure Core (s : State n) (o : Option (Fin n)) : Prop where
  inside : ∀ t, Inside s t ↔ o = some t
  lock : s.words.lock = if o.isSome then 1 else 0
  owner : ∀ t, s.words.owner = some t ↔ o = some t ∧ (s.pc t).named = true
  recursion : ∀ t, 0 < s.held t → s.words.recursion.toNat = s.held t
  points : ∀ t, (s.pc t).Ok (s.held t)
  clean : ∀ t, (s.pc t).clean = true → s.wrote t = false

/-- While the lock is free, a sleeper is owed the wake-up of a release that is not over, or the
    attempt of a thread in the loop. -/
def Owed (s : State n) : Prop :=
  s.words.lock = 0 → (∃ t, (s.pc t).isAsleep = true) →
    ∃ t, s.pc t = .wake ∨ ∃ timed, s.pc t = .cas timed

def Inv (s : State n) : Prop := (∃ o, Core s o) ∧ Owed s

attribute [local simp] State.goto State.accessed State.fresh

theorem Inv.exclusive {s : State n} (h : Inv s) : Exclusive s := by
  obtain ⟨⟨o, hcore⟩, howed⟩ := h
  constructor
  · intro t u ht hu
    have heq := ((hcore.inside t).mp ht).symm.trans ((hcore.inside u).mp hu)
    exact Option.some.inj heq
  · exact hcore.recursion
  · intro t ht
    apply hcore.clean
    rcases ht with ht | ht <;> rw [ht] <;> rfl
  · intro t ht
    have hin := hcore.inside t
    simp only [Inside, ht, Pc.inWindow, Bool.false_eq_true, false_or] at hin
    simp [hcore.owner t, ht, Pc.named, hin]
  · intro hlock hsleep
    obtain ⟨t, ht⟩ := howed hlock hsleep
    rcases ht with ht | ⟨timed, ht⟩
    · exact ⟨t, Or.inl ht⟩
    · exact ⟨t, Or.inr (by rw [ht]; rfl)⟩

/-! ## Steps that change no word -/

variable {s s' : State n} {o : Option (Fin n)} {t : Fin n}

/-- A thread moves on, still inside or still outside. -/
theorem Core.goto (h : Core s o) {pc : Pc} (hwindow : pc.inWindow = (s.pc t).inWindow)
    (hnamed : pc.named = (s.pc t).named) (hok : pc.Ok (s.held t))
    (hclean : pc.clean = true → s.wrote t = false) : Core (s.goto t pc) o := by
  have hin : ∀ u, Inside (s.goto t pc) u ↔ Inside s u := by
    intro u
    by_cases hu : u = t
    · subst hu
      simp [Inside, hwindow]
    · simp [Inside, hu]
  constructor
  · intro u
    rw [hin u]
    exact h.inside u
  · exact h.lock
  · intro u
    rw [State.goto, h.owner u]
    by_cases hu : u = t
    · subst hu
      simp [hnamed]
    · simp [hu]
  · exact h.recursion
  · intro u
    by_cases hu : u = t
    · subst hu
      simpa using hok
    · simpa [hu] using h.points u
  · intro u hu
    by_cases hut : u = t
    · subst hut
      apply hclean
      simpa using hu
    · apply h.clean
      simpa [hut] using hu

/-- A call begins. -/
theorem Core.enter (h : Core s o) (hidle : (s.pc t).isIdle = true) {pc : Pc}
    (hpc : pc = .releaseLoad ∨ ∃ timed, pc = .acquireLoad timed) : Core (s.enter t pc) o := by
  have hreset : Core { s with wrote := Function.update s.wrote t false } o := by
    refine ⟨h.inside, h.lock, h.owner, h.recursion, h.points, ?_⟩
    intro u hu
    by_cases hut : u = t
    · subst hut
      simp
    · simpa [hut] using h.clean u hu
  have hfacts : pc.inWindow = false ∧ pc.named = true ∧ pc.Ok (s.held t) := by
    rcases hpc with rfl | ⟨timed, rfl⟩
    · exact ⟨rfl, rfl, trivial⟩
    · exact ⟨rfl, rfl, trivial⟩
  have hfrom : (s.pc t).inWindow = false ∧ (s.pc t).named = true := by
    cases hp : s.pc t with
    | idle last => exact ⟨rfl, rfl⟩
    | _ => simp [hp, Pc.isIdle] at hidle
  apply hreset.goto
  · exact hfacts.1.trans hfrom.1.symm
  · exact hfacts.2.1.trans hfrom.2.symm
  · exact hfacts.2.2
  · intro _
    simp

theorem Core.wakeDone (h : Core s o) (hp : s.pc t = .wake) :
    Core (s.goto t (.idle .released)) o := by
  apply h.goto
  · rw [hp]
    rfl
  · rw [hp]
    rfl
  · trivial
  · exact fun hclean => Bool.noConfusion hclean

theorem accessed_eq_goto {pc : Pc} (hheld : heldAfter (s.held t) (s.pc t) = s.held t) :
    s.accessed t s.words pc = s.goto t pc := by
  have hwrote : (s.wrote t || decide (s.words ≠ s.words)) = s.wrote t := by simp
  unfold State.accessed State.goto
  rw [hheld, hwrote, Function.update_eq_self, Function.update_eq_self]

/-! ## Steps that change a word

The thread that moves is the one inside, or there is none. -/

theorem Core.write (h : Core s o) {o' : Option (Fin n)} {w : Words n} {pc : Pc}
    (halone : ∀ u, u ≠ t → o ≠ some u) (halone' : ∀ u, u ≠ t → o' ≠ some u)
    (hin : (pc.inWindow = true ∨ 0 < heldAfter (s.held t) (s.pc t)) ↔ o' = some t)
    (hlock : w.lock = if o'.isSome then 1 else 0)
    (howner : w.owner = if o' = some t ∧ pc.named = true then some t else none)
    (hrec : 0 < heldAfter (s.held t) (s.pc t) →
      w.recursion.toNat = heldAfter (s.held t) (s.pc t))
    (hok : pc.Ok (heldAfter (s.held t) (s.pc t))) (hdirty : pc.clean = false) :
    Core (s.accessed t w pc) o' := by
  have hout : ∀ u, u ≠ t → ¬ Inside s u := fun u hu hin => halone u hu ((h.inside u).mp hin)
  have hother : ∀ u, u ≠ t → (Inside (s.accessed t w pc) u ↔ Inside s u) := by
    intro u hu
    simp [Inside, hu]
  constructor
  · intro u
    by_cases hu : u = t
    · subst hu
      rw [← hin]
      simp [Inside]
    · rw [hother u hu]
      exact iff_of_false (hout u hu) (halone' u hu)
  · exact hlock
  · intro u
    rw [State.accessed, howner]
    by_cases hu : u = t
    · subst hu
      simp
    · apply iff_of_false _ fun hcon => halone' u hu hcon.1
      split
      · simp [Ne.symm hu]
      · simp
  · intro u hu
    by_cases hut : u = t
    · subst hut
      simp only [State.accessed, Function.update_self] at hu ⊢
      exact hrec hu
    · simp only [State.accessed, Function.update_of_ne hut] at hu
      exact absurd (Or.inr hu) (hout u hut)
  · intro u
    by_cases hu : u = t
    · subst hu
      simpa using hok
    · simpa [hu] using h.points u
  · intro u hu
    by_cases hut : u = t
    · subst hut
      simp [hdirty] at hu
    · simp only [State.accessed, Function.update_of_ne hut] at hu ⊢
      exact h.clean u hu

theorem Core.ok {pc : Pc} (h : Core s o) (hp : s.pc t = pc) : pc.Ok (s.held t) := by
  rw [← hp]
  exact h.points t

theorem Core.some_of_window (h : Core s o) (hp : (s.pc t).inWindow = true) : o = some t :=
  (h.inside t).mp (Or.inl hp)

theorem Core.some_of_held (h : Core s o) (hheld : 0 < s.held t) : o = some t :=
  (h.inside t).mp (Or.inr hheld)

theorem Core.owner_iff_held (h : Core s o) (hwindow : (s.pc t).inWindow = false)
    (hnamed : (s.pc t).named = true) : s.words.owner = some t ↔ 0 < s.held t := by
  have hin := h.inside t
  simp only [Inside, hwindow, Bool.false_eq_true, false_or] at hin
  simp [h.owner t, hnamed, hin]

theorem Core.loadOwner (h : Core s o) {pc mine other : Pc} (hp : s.pc t = pc)
    (hpc : pc.inWindow = false ∧ pc.named = true ∧ pc.clean = true)
    (hmine : mine.inWindow = false ∧ mine.named = true ∧ (0 < s.held t → mine.Ok (s.held t)))
    (hother : other.inWindow = false ∧ other.named = true ∧
      (s.held t = 0 → other.Ok (s.held t))) :
    Core (s.goto t (if s.words.owner = some t then mine else other)) o := by
  subst hp
  obtain ⟨hwindow, hnamed, hclean⟩ := hpc
  have howner := h.owner_iff_held hwindow hnamed
  by_cases hown : s.words.owner = some t
  · rw [if_pos hown]
    exact h.goto (hmine.1.trans hwindow.symm) (hmine.2.1.trans hnamed.symm)
      (hmine.2.2 (howner.mp hown)) fun _ => h.clean t hclean
  · rw [if_neg hown]
    have hzero := Nat.eq_zero_of_not_pos fun hheld => hown (howner.mpr hheld)
    exact h.goto (hother.1.trans hwindow.symm) (hother.2.1.trans hnamed.symm)
      (hother.2.2 hzero) fun _ => h.clean t hclean

theorem Core.loop (h : Core s o) {pc : Pc} (hfrom : (s.pc t).inLoop = true ∨ (s.pc t).isAsleep = true)
    (hto : pc.inLoop = true ∨ pc.isAsleep = true ∨ pc = .idle .timedOut) : Core (s.goto t pc) o := by
  have hfacts : (s.pc t).inWindow = false ∧ (s.pc t).named = true ∧ (s.pc t).clean = true ∧
      s.held t = 0 := by
    have hok := h.points t
    cases hp : s.pc t with
    | cas timed | clock | wait timed | asleep timed =>
      rw [hp] at hok
      exact ⟨rfl, rfl, rfl, hok⟩
    | _ => simp [hp, Pc.inLoop, Pc.isAsleep] at hfrom
  have hfacts' : pc.inWindow = false ∧ pc.named = true ∧ pc.Ok 0 := by
    cases pc with
    | cas timed | clock | wait timed | asleep timed => exact ⟨rfl, rfl, rfl⟩
    | idle last => exact ⟨rfl, rfl, trivial⟩
    | _ => simp [Pc.inLoop, Pc.isAsleep] at hto
  obtain ⟨hwindow, hnamed, hclean, hheld⟩ := hfacts
  apply h.goto
  · exact hfacts'.1.trans hwindow.symm
  · exact hfacts'.2.1.trans hnamed.symm
  · rw [hheld]
    exact hfacts'.2.2
  · exact fun _ => h.clean t hclean

theorem Core.fetchAdd (h : Core s o) (hp : s.pc t = .fetchAdd) (hbound : s.held t + 1 < 2 ^ 32) :
    Core (s.accessed t { s.words with recursion := s.words.recursion + 1 } (.idle .acquired)) o := by
  have hpos : 0 < s.held t := h.ok hp
  have ho := h.some_of_held hpos
  have hrec := h.recursion t hpos
  have howner := (h.owner t).mpr ⟨ho, by rw [hp]; rfl⟩
  have hafter : heldAfter (s.held t) (s.pc t) = s.held t + 1 := by rw [hp]; rfl
  apply h.write
  · simp [ho, eq_comm]
  · simp [ho, eq_comm]
  · simp [hafter, ho]
  · exact h.lock
  · simp [ho, howner, Pc.named]
  · intro _
    have hone : (1 : BitVec 32).toNat = 1 := rfl
    rw [hafter, BitVec.toNat_add, hrec, hone, Nat.mod_eq_of_lt hbound]
  · trivial
  · rfl

theorem Core.take (h : Core s o) {timed : Bool} (hp : s.pc t = .cas timed)
    (hfree : s.words.lock = 0) :
    Core (s.accessed t { s.words with lock := 1 } .storeOwner) (some t) := by
  have ho : o = none := by
    have hlock := h.lock
    rw [hfree] at hlock
    cases o with
    | none => rfl
    | some u => simp at hlock
  have hheld : s.held t = 0 := h.ok hp
  have howner : s.words.owner = none := by
    cases hw : s.words.owner with
    | none => rfl
    | some u =>
      have := ((h.owner u).mp hw).1
      rw [ho] at this
      cases this
  have hafter : heldAfter (s.held t) (s.pc t) = 0 := by
    rw [hp]
    exact hheld
  apply h.write
  · simp [ho]
  · simp [eq_comm]
  · simp [Pc.inWindow]
  · rfl
  · simp [howner, Pc.named]
  · simp [hafter]
  · simpa [Pc.Ok] using hafter
  · rfl

theorem Core.writeOwner (h : Core s o) {owner : Option (Fin n)} {pc : Pc}
    (hwindow : (s.pc t).inWindow = true) (hafter : heldAfter (s.held t) (s.pc t) = 0)
    (hpc : pc.inWindow = true ∧ pc.Ok 0 ∧ pc.clean = false)
    (howner : owner = if pc.named = true then some t else none) :
    Core (s.accessed t { s.words with owner := owner } pc) o := by
  have ho : o = some t := h.some_of_window hwindow
  apply h.write
  · simp [ho, eq_comm]
  · simp [ho, eq_comm]
  · simp [hpc.1, ho]
  · exact h.lock
  · simp [ho, howner]
  · simp [hafter]
  · rw [hafter]
    exact hpc.2.1
  · exact hpc.2.2

theorem Core.storeRecursion (h : Core s o) (hp : s.pc t = .storeRecursion) :
    Core (s.accessed t { s.words with recursion := 1 } (.idle .acquired)) o := by
  have ho : o = some t := h.some_of_window (by rw [hp]; rfl)
  have hheld : s.held t = 0 := h.ok hp
  have howner := (h.owner t).mpr ⟨ho, by rw [hp]; rfl⟩
  have hafter : heldAfter (s.held t) (s.pc t) = 1 := by
    rw [hp, hheld]
    rfl
  apply h.write
  · simp [ho, eq_comm]
  · simp [ho, eq_comm]
  · simp [hafter, ho]
  · exact h.lock
  · simp [ho, howner, Pc.named]
  · intro _
    rw [hafter]
    rfl
  · trivial
  · rfl

theorem Core.fetchSub (h : Core s o) (hp : s.pc t = .fetchSub) :
    Core (s.accessed t { s.words with recursion := s.words.recursion - 1 }
      (if s.words.recursion - 1 = 0 then .clearOwner else .idle .released)) o := by
  have hpos : 0 < s.held t := h.ok hp
  have ho := h.some_of_held hpos
  have hrec := h.recursion t hpos
  have howner := (h.owner t).mpr ⟨ho, by rw [hp]; rfl⟩
  have hafter : heldAfter (s.held t) (s.pc t) = s.held t - 1 := by rw [hp]; rfl
  have hsub : (s.words.recursion - 1).toNat = s.held t - 1 := by
    have hone : (1 : BitVec 32).toNat = 1 := rfl
    rw [BitVec.toNat_sub_of_le (by rw [BitVec.le_def, hrec, hone]; exact hpos), hrec, hone]
  -- The count of the word is the count of the calls, so it is 0 after the outermost release only.
  by_cases hlast : s.words.recursion - 1 = 0
  · have hheld : s.held t - 1 = 0 := by
      rw [← hsub, hlast]
      rfl
    rw [if_pos hlast]
    apply h.write
    · simp [ho, eq_comm]
    · simp [ho, eq_comm]
    · simp [Pc.inWindow, ho]
    · exact h.lock
    · simp [ho, howner, Pc.named]
    · intro _
      rw [hafter, hsub]
    · exact hafter.trans hheld
    · rfl
  · have hheld : 0 < s.held t - 1 := by
      apply Nat.pos_of_ne_zero
      intro hzero
      apply hlast
      apply BitVec.eq_of_toNat_eq
      rw [hsub, hzero]
      rfl
    rw [if_neg hlast]
    apply h.write
    · simp [ho, eq_comm]
    · simp [ho, eq_comm]
    · simp [hafter, hheld, ho]
    · exact h.lock
    · simp [ho, howner, Pc.named]
    · intro _
      rw [hafter, hsub]
    · trivial
    · rfl

theorem Core.clearLock (h : Core s o) (hp : s.pc t = .clearLock) :
    Core (s.accessed t { s.words with lock := 0 } .wake) none := by
  have ho : o = some t := h.some_of_window (by rw [hp]; rfl)
  have hheld : s.held t = 0 := h.ok hp
  have howner : s.words.owner = none := by
    cases hw : s.words.owner with
    | none => rfl
    | some u =>
      obtain ⟨hu, hnamed⟩ := (h.owner u).mp hw
      cases ho.symm.trans hu
      rw [hp] at hnamed
      cases hnamed
  have hafter : heldAfter (s.held t) (s.pc t) = 0 := by
    rw [hp]
    exact hheld
  apply h.write
  · simp [ho, eq_comm]
  · simp
  · simp [Pc.inWindow, hafter]
  · rfl
  · simp [howner]
  · simp [hafter]
  · simpa [Pc.Ok] using hafter
  · rfl

theorem Core.access (h : Core s o) {w : Words n} {pc : Pc}
    (hbound : s.pc t = .fetchAdd → s.held t + 1 < 2 ^ 32)
    (hn : access s.words t (s.pc t) = some (w, pc)) : ∃ o', Core (s.accessed t w pc) o' := by
  cases hp : s.pc t with
  | acquireLoad timed =>
    rw [hp] at hn
    cases hn
    rw [accessed_eq_goto (by rw [hp]; rfl)]
    exact ⟨o, h.loadOwner hp ⟨rfl, rfl, rfl⟩ ⟨rfl, rfl, id⟩ ⟨rfl, rfl, id⟩⟩
  | fetchAdd =>
    rw [hp] at hn
    cases hn
    exact ⟨o, h.fetchAdd hp (hbound hp)⟩
  | cas timed =>
    rw [hp] at hn
    by_cases hfree : s.words.lock = 0
    · simp only [Recursive.access, if_pos hfree] at hn
      cases hn
      exact ⟨some t, h.take hp hfree⟩
    · simp only [Recursive.access, if_neg hfree] at hn
      cases hn
      rw [accessed_eq_goto (by rw [hp]; rfl)]
      refine ⟨o, h.loop (Or.inl (by rw [hp]; rfl)) ?_⟩
      cases timed with
      | true => exact Or.inl rfl
      | false => exact Or.inl rfl
  | storeOwner =>
    rw [hp] at hn
    cases hn
    exact ⟨o, h.writeOwner (by rw [hp]; rfl) (by rw [hp]; exact h.ok hp) ⟨rfl, rfl, rfl⟩ rfl⟩
  | storeRecursion =>
    rw [hp] at hn
    cases hn
    exact ⟨o, h.storeRecursion hp⟩
  | wait timed =>
    rw [hp] at hn
    cases hn
    rw [accessed_eq_goto (by rw [hp]; rfl)]
    refine ⟨o, h.loop (Or.inl (by rw [hp]; rfl)) ?_⟩
    split
    · exact Or.inr (Or.inl rfl)
    · exact Or.inl rfl
  | releaseLoad =>
    rw [hp] at hn
    cases hn
    rw [accessed_eq_goto (by rw [hp]; rfl)]
    exact ⟨o, h.loadOwner hp ⟨rfl, rfl, rfl⟩ ⟨rfl, rfl, id⟩ ⟨rfl, rfl, fun _ => trivial⟩⟩
  | fetchSub =>
    rw [hp] at hn
    cases hn
    exact ⟨o, h.fetchSub hp⟩
  | clearOwner =>
    rw [hp] at hn
    cases hn
    exact ⟨o, h.writeOwner (by rw [hp]; rfl) (by rw [hp]; exact h.ok hp) ⟨rfl, rfl, rfl⟩ rfl⟩
  | clearLock =>
    rw [hp] at hn
    cases hn
    exact ⟨none, h.clearLock hp⟩
  | idle last | clock | asleep timed | wake =>
    rw [hp] at hn
    cases hn

/-! ## Sleepers -/

/-- Somebody a sleeper can rely on. -/
def Pc.relied : Pc → Bool
  | .wake | .cas _ => true
  | _ => false

theorem owed_iff : Owed s ↔ (s.words.lock = 0 → (∃ t, (s.pc t).isAsleep = true) →
    ∃ t, (s.pc t).relied = true) := by
  have hrelied : ∀ pc : Pc, pc.relied = true ↔ pc = .wake ∨ ∃ timed, pc = .cas timed := by
    intro pc
    cases pc <;> simp [Pc.relied]
  unfold Owed
  simp only [hrelied]

/-- Only one thread's point changes. -/
theorem Owed.moved (h : Owed s) {pc : Pc} (hpc : s'.pc = Function.update s.pc t pc)
    (hawake : s'.words.lock = 0 → pc.isAsleep = false)
    (hrely : s'.words.lock = 0 →
      pc.relied = true ∨ s.words.lock = 0 ∧ (s.pc t).relied = false) : Owed s' := by
  rw [owed_iff] at h ⊢
  intro hfree hsleep
  rcases hrely hfree with hrelied | ⟨hlock, hnot⟩
  · exact ⟨t, by rw [hpc, Function.update_self, hrelied]⟩
  · have hold : ∃ u, (s.pc u).isAsleep = true := by
      obtain ⟨u, hu⟩ := hsleep
      rw [hpc] at hu
      by_cases hut : u = t
      · subst hut
        rw [Function.update_self, hawake hfree] at hu
        cases hu
      · rw [Function.update_of_ne hut] at hu
        exact ⟨u, hu⟩
    obtain ⟨v, hv⟩ := h hlock hold
    have hvt : v ≠ t := by
      intro heq
      subst heq
      rw [hnot] at hv
      cases hv
    exact ⟨v, by rw [hpc, Function.update_of_ne hvt, hv]⟩

theorem access_free {w w' : Words n} {p pc : Pc} (hn : access w t p = some (w', pc))
    (hfree : w'.lock = 0) :
    pc.isAsleep = false ∧ (pc.relied = true ∨ w.lock = 0 ∧ p.relied = false) := by
  cases p with
  | acquireLoad timed =>
    cases hn
    split
    · exact ⟨rfl, Or.inr ⟨hfree, rfl⟩⟩
    · exact ⟨rfl, Or.inl rfl⟩
  | cas timed =>
    by_cases hlock : w.lock = 0
    · simp only [Recursive.access, if_pos hlock] at hn
      cases hn
      exact absurd hfree (by decide : (1 : BitVec 32) ≠ 0)
    · simp only [Recursive.access, if_neg hlock] at hn
      cases hn
      exact absurd hfree hlock
  | wait timed =>
    cases hn
    have hne : ¬ w.lock = 1 := by
      rw [hfree]
      decide
    rw [if_neg hne]
    exact ⟨rfl, Or.inl rfl⟩
  | releaseLoad =>
    cases hn
    split
    · exact ⟨rfl, Or.inr ⟨hfree, rfl⟩⟩
    · exact ⟨rfl, Or.inr ⟨hfree, rfl⟩⟩
  | fetchSub =>
    cases hn
    split
    · exact ⟨rfl, Or.inr ⟨hfree, rfl⟩⟩
    · exact ⟨rfl, Or.inr ⟨hfree, rfl⟩⟩
  | clearLock =>
    cases hn
    exact ⟨rfl, Or.inl rfl⟩
  | fetchAdd | storeOwner | storeRecursion | clearOwner =>
    cases hn
    exact ⟨rfl, Or.inr ⟨hfree, rfl⟩⟩
  | idle last | clock | asleep timed | wake => cases hn

theorem Owed.access (h : Owed s) {w : Words n} {pc : Pc}
    (hn : access s.words t (s.pc t) = some (w, pc)) : Owed (s.accessed t w pc) := by
  apply h.moved (t := t) rfl
  · exact fun hfree => (access_free hn hfree).1
  · exact fun hfree => (access_free hn hfree).2

/-! ## Every run -/

theorem fresh_core (o : Option (Fin n)) : Core (State.fresh o) o := by
  cases o with
  | none =>
    constructor <;> intros <;> simp_all [Inside, Pc.inWindow, Pc.Ok]
  | some t =>
    have hheld : ∀ u, 0 < Function.update (fun _ : Fin n => 0) t 1 u ↔ t = u := by
      intro u
      by_cases hu : u = t
      · subst hu
        simp
      · simp [hu, Ne.symm hu]
    constructor
    · intro u
      simp [Inside, Pc.inWindow, hheld]
    · rfl
    · intro u
      simp [Pc.named]
    · intro u hu
      cases (hheld u).mp hu
      simp
    · intro u
      trivial
    · intro u hu
      rfl

theorem inv_init (h : (machine n).init s) : Inv s := by
  obtain ⟨o, rfl⟩ := h
  refine ⟨⟨o, fresh_core o⟩, ?_⟩
  rintro - ⟨t, ht⟩
  cases o <;> simp [Pc.isAsleep] at ht

theorem Inv.step (h : Inv s) {a : Fin n × Action n} (hbound : Bounded s a)
    (hn : (machine n).next s a = some s') : Inv s' := by
  obtain ⟨⟨o, hcore⟩, howed⟩ := h
  obtain ⟨t, a⟩ := a
  have hnotRelied : (s.pc t).isIdle = true → (s.pc t).relied = false := by
    cases s.pc t <;> simp [Pc.isIdle, Pc.relied]
  cases a with
  | acquire timed =>
    simp only [machine, State.next, Option.ite_none_right_eq_some, Option.some.injEq] at hn
    obtain ⟨hidle, rfl⟩ := hn
    refine ⟨⟨o, hcore.enter hidle (Or.inr ⟨timed, rfl⟩)⟩, ?_⟩
    exact howed.moved (t := t) rfl (fun _ => rfl) fun hfree => Or.inr ⟨hfree, hnotRelied hidle⟩
  | release =>
    simp only [machine, State.next, Option.ite_none_right_eq_some, Option.some.injEq] at hn
    obtain ⟨hidle, rfl⟩ := hn
    refine ⟨⟨o, hcore.enter hidle (Or.inl rfl)⟩, ?_⟩
    exact howed.moved (t := t) rfl (fun _ => rfl) fun hfree => Or.inr ⟨hfree, hnotRelied hidle⟩
  | access =>
    simp only [machine, State.next, Option.map_eq_some_iff] at hn
    obtain ⟨⟨w, pc⟩, hacc, rfl⟩ := hn
    exact ⟨hcore.access hbound hacc, howed.access hacc⟩
  | clock expired =>
    simp only [machine, State.next, Option.ite_none_right_eq_some, Option.some.injEq] at hn
    obtain ⟨hp, rfl⟩ := hn
    constructor
    · refine ⟨o, hcore.loop (Or.inl (by rw [hp]; rfl)) ?_⟩
      cases expired with
      | true => exact Or.inr (Or.inr rfl)
      | false => exact Or.inl rfl
    · apply howed.moved (t := t) rfl
      · intro _
        cases expired <;> rfl
      · exact fun hfree => Or.inr ⟨hfree, by rw [hp]; rfl⟩
  | wakeOne u =>
    cases u with
    | none =>
      simp only [machine, State.next, Option.ite_none_right_eq_some, Option.some.injEq] at hn
      obtain ⟨⟨hp, hnone⟩, rfl⟩ := hn
      refine ⟨⟨o, hcore.wakeDone hp⟩, ?_⟩
      rintro - ⟨u, hu⟩
      by_cases hut : u = t
      · subst hut
        simp [Pc.isAsleep] at hu
      · simp [hut, hnone u] at hu
    | some u =>
      simp only [machine, State.next, Option.ite_none_right_eq_some] at hn
      obtain ⟨hp, hn⟩ := hn
      cases hpu : s.pc u with
      | asleep timed =>
        rw [hpu] at hn
        cases hn
        have hut : u ≠ t := by
          intro heq
          rw [heq, hp] at hpu
          cases hpu
        have hwoken : Core (s.goto u (.cas timed)) o :=
          hcore.loop (Or.inr (by rw [hpu]; rfl)) (Or.inl rfl)
        refine ⟨⟨o, hwoken.wakeDone ?_⟩, ?_⟩
        · simp [Ne.symm hut, hp]
        · rintro - -
          exact ⟨u, Or.inr ⟨timed, by simp [hut]⟩⟩
      | _ => simp [hpu] at hn
  | wakeUp =>
    simp only [machine, State.next] at hn
    cases hp : s.pc t with
    | asleep timed =>
      rw [hp] at hn
      cases hn
      refine ⟨⟨o, hcore.loop (Or.inr (by rw [hp]; rfl)) (Or.inl rfl)⟩, ?_⟩
      exact howed.moved (t := t) rfl (fun _ => rfl) fun _ => Or.inl rfl
    | _ => simp [hp] at hn

theorem inv_of_bounded (h : (machine n).ReachableIf Bounded s) : Inv s :=
  h.invariant (fun _ => inv_init) fun _ _ _ hinv hbound hn => hinv.step hbound hn

/-- **A recursive lock has one holder**, counts its acquires, is not touched by calls that fail, and
    loses no wake-up, in every run in which no thread has `2^32` unreleased acquires. -/
theorem recursive_lock_exclusive (h : (machine n).ReachableIf Bounded s) : Exclusive s :=
  (inv_of_bounded h).exclusive

/-- The creator of a mutex acquires it a second time. -/
def twice : State 2 :=
  ((machine 2).exec (.fresh (some 0)) [(0, .acquire true), (0, .access), (0, .access)]).getD
    (.fresh none)

theorem twice_reachable : (machine 2).ReachableIf Bounded twice := by
  have h₀ : (machine 2).ReachableIf Bounded (.fresh (some 0)) := .start ⟨some 0, rfl⟩
  have h₁ := h₀.step (show Bounded _ ((0 : Fin 2), Action.acquire true) from trivial) rfl
  have h₂ := h₁.step (show Bounded _ ((0 : Fin 2), Action.access) from nofun) rfl
  exact h₂.step (show Bounded _ ((0 : Fin 2), Action.access) from fun _ => by decide) rfl

theorem recursive_lock_exclusive_twice : Exclusive twice :=
  recursive_lock_exclusive twice_reachable

/-! ## The count wraps -/

/-- Thread 0 holds the lock, acquired `k + 1` times. -/
def nested (k : Nat) : State 2 where
  words := ⟨1, some 0, BitVec.ofNat 32 (k + 1)⟩
  pc := Function.update (fun _ => .idle .noCall) 0 (.idle .acquired)
  held := Function.update (fun _ => 0) 0 (k + 1)
  wrote := Function.update (fun _ => false) 0 true

theorem nested_zero : (machine 2).exec (.fresh none)
    [(0, .acquire false), (0, .access), (0, .access), (0, .access), (0, .access)] =
      some (nested 0) := by
  simp [Machine.exec, machine, State.next, nested, State.enter, Pc.isIdle, access, heldAfter]

theorem nested_succ (k : Nat) : (machine 2).exec (nested k)
    [(0, .acquire false), (0, .access), (0, .access)] = some (nested (k + 1)) := by
  have hsum : BitVec.ofNat 32 (k + 1) + 1#32 = BitVec.ofNat 32 (k + 1 + 1) :=
    (BitVec.ofNat_add (k + 1) 1).symm
  have hne : BitVec.ofNat 32 (k + 1 + 1) ≠ BitVec.ofNat 32 (k + 1) := by
    rw [← hsum]
    simp
  simp [Machine.exec, machine, State.next, nested, State.enter, Pc.isIdle, access, heldAfter, hsum,
    hne]

theorem nested_reachable (k : Nat) : (machine 2).Reachable (nested k) := by
  induction k with
  | zero => exact Machine.reachable_of_exec ⟨none, rfl⟩ nested_zero
  | succ k ih => exact ih.exec (nested_succ k)

theorem nested_wrapped {k : Nat} (hk : BitVec.ofNat 32 (k + 1) = 1) :
    ∃ s, (machine 2).exec (nested k)
      [(0, .release), (0, .access), (0, .access), (0, .access), (0, .access), (0, .wakeOne none),
        (1, .acquire false), (1, .access), (1, .access)] = some s ∧
      s.held 0 = k ∧ s.pc 1 = .storeOwner := by
  simp [Machine.exec, machine, State.next, nested, State.enter, Pc.isIdle, Pc.isAsleep, access,
    heldAfter, hk]

/-- After `2^32 + 1` acquires by one thread one release is enough to let another thread in. -/
theorem wrapped_not_exclusive :
    ∃ s, (machine 2).Reachable s ∧ s.held 0 = 2 ^ 32 ∧ ¬ Exclusive s := by
  obtain ⟨s, hrun, hheld, hp⟩ := nested_wrapped (k := 2 ^ 32) (by decide)
  refine ⟨s, (nested_reachable _).exec hrun, hheld, ?_⟩
  intro hexcl
  have hzero : Inside s 0 := by
    right
    rw [hheld]
    decide
  have hone : Inside s 1 := by
    left
    rw [hp]
    rfl
  exact absurd (hexcl.exclusion 0 1 hzero hone) (by decide)

end WinCompat.Sync.Recursive
