import WinCompat.Sync.Recursive
import WinCompat.Sync.Srw

/-!
# The exported locks: what a guest's `SRWLOCK` or `CRITICAL_SECTION` does

`ntapi/src/sync.rs` and `win32-kernel32/src/anticheat.rs`. The guest owns the lock's memory, and the
first eight bytes of it decide everything: `srw_inner` and `cs_inner` follow them to the inner lock
of `Sync/Srw` or `Sync/Recursive`, and find none where they are zero. Then an acquire returns at
once. Two initialisers and both try-functions never look at the memory at all.

A lock's state is those eight bytes, together with the inner lock behind them, and the acquires
that have returned. Threads call what they like as long as they release only what they acquired; an
`SRWLOCK` may be acquired again by a thread that holds it.

Locks share nothing, so a program with many of them is a family of machines side by side. A thread
is in one call at a time; the family does not say so, and every run of a program is one of its runs.
-/

namespace WinCompat.Sync.Exported

open Lib

variable {n : Nat}

/-- The first eight bytes of the guest's lock, with the object behind them. -/
inductive Stored (σ : Type)
  /-- Zero. -/
  | null
  /-- The `Box` pointer an initialiser wrote. -/
  | boxed (inner : σ)
  /-- Anything else: a pointer that must not be followed. -/
  | stray

/-! ## `SRWLOCK` -/

/-- `SrwInner::new`. -/
def newSrwInner (n : Nat) : Srw.State n := ⟨0, fun _ => .idle⟩

/-- `InitializeSRWLock`, on whatever the memory held. -/
def initializeSrwLock (_ : Stored (Srw.State n)) : Stored (Srw.State n) :=
  .boxed (newSrwInner n)

inductive Mode
  | exclusive
  | shared
  deriving DecidableEq

/-- `acquire_exclusive` and `acquire_shared` begin here. -/
def Mode.acquire : Mode → Srw.Pc
  | exclusive => .exLoad
  | shared => .shLoad

/-- `release_exclusive` and `release_shared` begin here. -/
def Mode.release : Mode → Srw.Pc
  | exclusive => .exStore
  | shared => .shSub

/-- A thread at this point of the inner lock's code holds it: its acquire is about to return, or
    its release has not written yet. -/
def Mode.heldAt : Mode → Srw.Pc → Bool
  | exclusive => Srw.Pc.holdsExclusive
  | shared => Srw.Pc.holdsShared

@[simp] theorem Mode.heldAt_idle (m : Mode) : m.heldAt .idle = false := by
  cases m <;> rfl

structure SrwLock (n : Nat) where
  word : Stored (Srw.State n)
  /-- The thread's acquires that have returned and whose release has not been called. -/
  held : Mode → Fin n → Nat

inductive SrwCall
  | acquire (m : Mode)
  /-- `TryAcquireSRWLockExclusive` -/
  | tryAcquireExclusive
  | release (m : Mode)
  deriving DecidableEq

inductive SrwAction (n : Nat)
  /-- The thread calls an exported function. -/
  | call (fn : SrwCall)
  /-- The thread's next step in the inner lock's code. -/
  | inside (a : Srw.Action n)
  deriving DecidableEq

namespace SrwLock

def setHeld (l : SrwLock n) (m : Mode) (t : Fin n) (k : Nat) : SrwLock n :=
  { l with held := Function.update l.held m (Function.update (l.held m) t k) }

/-- The call ends: one more acquire has returned. -/
def gain (l : SrwLock n) (m : Mode) (t : Fin n) : SrwLock n := l.setHeld m t (l.held m t + 1)

/-- The thread gives one of its acquires back. -/
def drop (l : SrwLock n) (m : Mode) (t : Fin n) : SrwLock n := l.setHeld m t (l.held m t - 1)

/-- The thread is in none of the inner lock's functions. -/
def AtRest (l : SrwLock n) (t : Fin n) : Prop :=
  match l.word with
  | .boxed i => i.pc t = .idle
  | _ => True

instance (l : SrwLock n) (t : Fin n) : Decidable (l.AtRest t) := by
  unfold AtRest
  cases l.word <;> infer_instance

/-- A thread calls an exported function. Without an inner lock the call is over at once, and
    `TryAcquireSRWLockExclusive` answers TRUE whatever the lock is. -/
def call (l : SrwLock n) (t : Fin n) : SrwCall → Option (SrwLock n)
  | .acquire m =>
    match l.word with
    | .null => some (l.gain m t)
    | .boxed i => some { l with word := .boxed (i.goto t m.acquire) }
    | .stray => none
  | .tryAcquireExclusive => some (l.gain .exclusive t)
  | .release m =>
    if 0 < l.held m t then
      match l.word with
      | .null => some (l.drop m t)
      | .boxed i => some { l.drop m t with word := .boxed (i.goto t m.release) }
      | .stray => none
    else none

/-- The inner lock after a step of `t`. An acquire that is through returns. -/
def settle (l : SrwLock n) (t : Fin n) (i : Srw.State n) : SrwLock n :=
  match i.pc t with
  | .exHeld => { l.gain .exclusive t with word := .boxed (i.goto t .idle) }
  | .shHeld => { l.gain .shared t with word := .boxed (i.goto t .idle) }
  | _ => { l with word := .boxed i }

def next (l : SrwLock n) : Fin n × SrwAction n → Option (SrwLock n)
  | (t, .call fn) => if l.AtRest t then l.call t fn else none
  | (_, .inside (.call _)) => none
  | (t, .inside a) =>
    match l.word with
    | .boxed i => (i.next (t, a)).map (l.settle t)
    | _ => none

/-- A lock that nobody holds. -/
def unused (w : Stored (Srw.State n)) : SrwLock n := ⟨w, fun _ _ => 0⟩

/-- The thread has acquired the lock in this mode and has not given it back. -/
def Holds (l : SrwLock n) (m : Mode) (t : Fin n) : Prop :=
  0 < l.held m t ∨ match l.word with
    | .boxed i => m.heldAt (i.pc t) = true
    | _ => False

end SrwLock

/-- An `SRWLOCK` that `InitializeSRWLock` has set up, or that is zero. -/
def srwLock (n : Nat) : Machine (SrwLock n) (Fin n × SrwAction n) where
  init l := ∃ w : Stored (Srw.State n), l = .unused (initializeSrwLock w) ∨ l = .unused .null
  next := SrwLock.next

/-! ## `CRITICAL_SECTION` -/

/-- `InitializeCriticalSection`, on whatever the memory held. -/
def initializeCriticalSection (_ : Stored (Recursive.State n)) : Stored (Recursive.State n) :=
  .boxed (.fresh none)

/-- `InitializeCriticalSectionAndSpinCount` returns TRUE. -/
def initializeCriticalSectionAndSpinCount (w : Stored (Recursive.State n)) (_spin : BitVec 32) :
    Stored (Recursive.State n) := w

/-- `InitializeCriticalSectionEx` returns TRUE. -/
def initializeCriticalSectionEx (w : Stored (Recursive.State n)) (_spin _flags : BitVec 32) :
    Stored (Recursive.State n) := w

structure CriticalSection (n : Nat) where
  word : Stored (Recursive.State n)
  /-- The thread's enters that returned without the inner lock and have not been left. -/
  passed : Fin n → Nat

inductive SectionCall
  | enter
  | tryEnter
  | leave
  deriving DecidableEq

inductive SectionAction (n : Nat)
  | call (fn : SectionCall)
  | inside (a : Recursive.Action n)

namespace CriticalSection

def gain (c : CriticalSection n) (t : Fin n) : CriticalSection n :=
  { c with passed := Function.update c.passed t (c.passed t + 1) }

def drop (c : CriticalSection n) (t : Fin n) : CriticalSection n :=
  { c with passed := Function.update c.passed t (c.passed t - 1) }

/-- The thread is in none of the inner lock's functions. -/
def AtRest (c : CriticalSection n) (t : Fin n) : Prop :=
  match c.word with
  | .boxed i => (i.pc t).isIdle = true
  | _ => True

instance (c : CriticalSection n) (t : Fin n) : Decidable (c.AtRest t) := by
  unfold AtRest
  cases c.word <;> infer_instance

/-- A thread calls an exported function. `leave_critical_section` needs something to leave: an enter
    that the inner lock counts, or one that went past it. -/
def call (c : CriticalSection n) (t : Fin n) : SectionCall → Option (CriticalSection n)
  | .enter =>
    match c.word with
    | .null => some (c.gain t)
    | .boxed i => (i.next (t, .acquire false)).map fun i' => { c with word := .boxed i' }
    | .stray => none
  | .tryEnter => some (c.gain t)
  | .leave =>
    match c.word with
    | .null => if 0 < c.passed t then some (c.drop t) else none
    | .boxed i =>
      if 0 < i.held t + c.passed t then
        (i.next (t, .release)).map fun i' => { c with word := .boxed i' }
      else none
    | .stray => none

/-- The inner lock after a step of `t`. A leave that it refused has ended an enter that went past
    it. -/
def settle (c : CriticalSection n) (t : Fin n) (i i' : Recursive.State n) : CriticalSection n :=
  if i.pc t = .releaseLoad ∧ i'.pc t = .idle .refused then { c.drop t with word := .boxed i' }
  else { c with word := .boxed i' }

def next (c : CriticalSection n) : Fin n × SectionAction n → Option (CriticalSection n)
  | (t, .call fn) => if c.AtRest t then c.call t fn else none
  | (_, .inside (.acquire _)) => none
  | (_, .inside .release) => none
  | (t, .inside a) =>
    match c.word with
    | .boxed i => (i.next (t, a)).map (c.settle t i)
    | _ => none

def unused (w : Stored (Recursive.State n)) : CriticalSection n := ⟨w, fun _ => 0⟩

/-- The thread has entered and has not left. -/
def Holds (c : CriticalSection n) (t : Fin n) : Prop :=
  0 < c.passed t ∨ match c.word with
    | .boxed i => Recursive.Inside i t
    | _ => False

end CriticalSection

/-- A `CRITICAL_SECTION` that one of the three initialisers has set up, in memory that was none
    before. -/
def criticalSection (n : Nat) : Machine (CriticalSection n) (Fin n × SectionAction n) where
  init c := ∃ (w : Stored (Recursive.State n)) (spin flags : BitVec 32), (∀ i, w ≠ .boxed i) ∧
    (c = .unused (initializeCriticalSection w) ∨
      c = .unused (initializeCriticalSectionAndSpinCount w spin) ∨
      c = .unused (initializeCriticalSectionEx w spin flags))
  next := CriticalSection.next

/-! ## All the locks of a program -/

inductive Kind
  | srwLock
  | criticalSection
  deriving DecidableEq

/-- One lock of either kind. -/
def Lock (n : Nat) : Kind → Type
  | .srwLock => SrwLock n
  | .criticalSection => CriticalSection n

def LockAction (n : Nat) : Kind → Type
  | .srwLock => Fin n × SrwAction n
  | .criticalSection => Fin n × SectionAction n

def lockMachine (n : Nat) : (k : Kind) → Machine (Lock n k) (LockAction n k)
  | .srwLock => srwLock n
  | .criticalSection => criticalSection n

/-- The locks of a program with `n` threads. -/
def lockApi {ι : Type} [DecidableEq ι] (n : Nat) (kind : ι → Kind) :
    Machine (∀ i, Lock n (kind i)) (Σ i, LockAction n (kind i)) :=
  Machine.each fun i => lockMachine n (kind i)

/-- While a thread holds the lock no other holds it exclusively. -/
def Excludes : (k : Kind) → Lock n k → Prop
  | .srwLock, (l : SrwLock n) => ∀ m t u, l.Holds m t → l.Holds .exclusive u → t = u
  | .criticalSection, (c : CriticalSection n) => ∀ t u, c.Holds t → c.Holds u → t = u

/-- The step does not go past the inner lock: it acquires only what an initialiser has boxed, and is
    neither a try nor the `2^32`-th nested enter of a thread. -/
def Consults : (k : Kind) → Lock n k → LockAction n k → Prop
  | .srwLock, (l : SrwLock n), (_, .call (.acquire _)) => ∃ i, l.word = .boxed i
  | .srwLock, _, (_, .call .tryAcquireExclusive) => False
  | .criticalSection, (c : CriticalSection n), (_, .call .enter) => ∃ i, c.word = .boxed i
  | .criticalSection, _, (_, .call .tryEnter) => False
  | .criticalSection, (c : CriticalSection n), (t, .inside a) =>
    ∀ i, c.word = .boxed i → Recursive.Bounded i (t, a)
  | _, _, _ => True

/-! ## An inner `SrwInner` and the acquires on it

`weight` counts a thread's acquires in a mode, the one that is about to return among them and a
release that has not written yet. The word is the number of readers, or the writer flag alone. No
bound on the threads is needed: a reader whose increment would reach past the flag waits. -/

variable {i i' : Srw.State n} {held : Mode → Fin n → Nat} {m : Mode} {t u : Fin n}

def weight (i : Srw.State n) (held : Mode → Fin n → Nat) (m : Mode) (t : Fin n) : Nat :=
  (m.heldAt (i.pc t)).toNat + held m t

def total (i : Srw.State n) (held : Mode → Fin n → Nat) (m : Mode) : Nat :=
  ∑ t, weight i held m t

/-- What the lock word says with `x` exclusive and `s` shared acquires. -/
def Tally (w : BitVec 32) (x s : Nat) : Prop :=
  (x = 0 ∧ w.toNat = s) ∨ (x = 1 ∧ s = 0 ∧ w = Srw.srwWriter)

structure Consistent (i : Srw.State n) (held : Mode → Fin n → Nat) : Prop where
  points : ∀ t, Srw.PcOk (i.pc t)
  tally : Tally i.word (total i held .exclusive) (total i held .shared)

theorem total_goto (i : Srw.State n) (held : Mode → Fin n → Nat) (m : Mode) (t : Fin n)
    (pc : Srw.Pc) :
    total (i.goto t pc) held m + (m.heldAt (i.pc t)).toNat =
      total i held m + (m.heldAt pc).toNat := by
  have hsum := sum_eq_off (f := weight i held m) (g := weight (i.goto t pc) held m) (i := t)
    fun u hu => by
      unfold weight
      rw [Srw.State.goto_pc, Function.update_of_ne hu]
  have hold : weight i held m t = (m.heldAt (i.pc t)).toNat + held m t := rfl
  have hnew : weight (i.goto t pc) held m t = (m.heldAt pc).toNat + held m t := by
    unfold weight
    rw [Srw.State.goto_pc, Function.update_self]
  unfold total
  omega

theorem total_goto_of_eq {pc : Srw.Pc} (h : m.heldAt pc = m.heldAt (i.pc t)) :
    total (i.goto t pc) held m = total i held m := by
  have hsum := total_goto i held m t pc
  rw [h] at hsum
  exact Nat.add_right_cancel hsum

theorem total_held (i : Srw.State n) (held : Mode → Fin n → Nat) (m : Mode) (t : Fin n) (k : Nat) :
    total i (Function.update held m (Function.update (held m) t k)) m + held m t =
      total i held m + k := by
  have hsum := sum_eq_off (f := weight i held m) (i := t)
    (g := weight i (Function.update held m (Function.update (held m) t k)) m) fun u hu => by
      unfold weight
      rw [Function.update_self, Function.update_of_ne hu]
  have hold : weight i held m t = (m.heldAt (i.pc t)).toNat + held m t := rfl
  have hnew : weight i (Function.update held m (Function.update (held m) t k)) m t =
      (m.heldAt (i.pc t)).toNat + k := by
    unfold weight
    rw [Function.update_self, Function.update_self]
  unfold total
  omega

theorem total_held_ne {m' : Mode} (h : m' ≠ m) (f : Fin n → Nat) :
    total i (Function.update held m f) m' = total i held m' := by
  unfold total weight
  rw [Function.update_of_ne h]

theorem Consistent.moved (h : Consistent i held) {pc : Srw.Pc} {k : Nat} (hok : Srw.PcOk pc)
    (hsame : (m.heldAt (i.pc t)).toNat + held m t = (m.heldAt pc).toNat + k)
    (hother : ∀ m', m' ≠ m → m'.heldAt pc = m'.heldAt (i.pc t)) :
    Consistent (i.goto t pc) (Function.update held m (Function.update (held m) t k)) := by
  have htotal : ∀ m', total (i.goto t pc)
      (Function.update held m (Function.update (held m) t k)) m' = total i held m' := by
    intro m'
    by_cases hm : m' = m
    · subst hm
      have hpc := total_goto i held m' t pc
      have hheld := total_held (i.goto t pc) held m' t k
      omega
    · rw [total_held_ne hm, total_goto_of_eq (hother m' hm)]
  refine ⟨Srw.pcOk_goto h.points hok, ?_⟩
  rw [htotal, htotal]
  exact h.tally

theorem Consistent.next (h : Consistent i held) {a : Fin n × Srw.Action n}
    (hn : i.next a = some i') : Consistent i' held := by
  refine ⟨Srw.pcOk_next h.points hn, ?_⟩
  have htally := h.tally
  cases Srw.next_effect hn with
  | quiet hw hx hs =>
    have hexclusive : total i' held .exclusive = total i held .exclusive :=
      Finset.sum_congr rfl fun u _ => congrArg (fun b => Bool.toNat b + held .exclusive u) (hx u)
    have hshared : total i' held .shared = total i held .shared :=
      Finset.sum_congr rfl fun u _ => congrArg (fun b => Bool.toNat b + held .shared u) (hs u)
    rw [hexclusive, hshared, hw]
    exact htally
  | lockExclusive t ht hw he =>
    have hexclusive := total_goto (i.setWord Srw.srwWriter) held .exclusive t .exHeld
    have hshared := total_goto (i.setWord Srw.srwWriter) held .shared t .exHeld
    rw [Srw.State.setWord_pc, ht, ← he] at hexclusive hshared
    have hword : i'.word = Srw.srwWriter := by rw [he]; rfl
    rcases htally with ⟨hx, hs⟩ | ⟨-, -, hwriter⟩
    · rw [hw] at hs
      exact Or.inr ⟨hexclusive.trans (congrArg (· + 1) hx), hshared.trans hs.symm, hword⟩
    · rw [hw] at hwriter
      exact absurd hwriter (by decide)
  | lockShared t ht he =>
    have hexclusive := total_goto (i.setWord (i.word + 1)) held .exclusive t .shHeld
    have hshared := total_goto (i.setWord (i.word + 1)) held .shared t .shHeld
    rw [Srw.State.setWord_pc, ht, ← he] at hexclusive hshared
    have hword : i'.word = i.word + 1 := by rw [he]; rfl
    have hlt : i.word.toNat < 2 ^ 31 := by
      have hok := h.points t
      rw [ht] at hok
      exact hok
    rcases htally with ⟨hx, hs⟩ | ⟨-, -, hwriter⟩
    · refine Or.inl ⟨hexclusive.trans hx, ?_⟩
      have hsum : total i' held .shared = total i held .shared + 1 := hshared
      rw [hword, hsum, ← hs, BitVec.toNat_add]
      exact Nat.mod_eq_of_lt (Nat.lt_trans (Nat.succ_lt_succ hlt) (by decide))
    · rw [hwriter] at hlt
      exact absurd hlt (by decide)
  | unlockExclusive t ht he =>
    have hexclusive := total_goto (i.setWord 0) held .exclusive t .exWake
    have hshared := total_goto (i.setWord 0) held .shared t .exWake
    rw [Srw.State.setWord_pc, ht, ← he] at hexclusive hshared
    have hword : i'.word = 0 := by rw [he]; rfl
    have hsum : total i' held .exclusive + 1 = total i held .exclusive := hexclusive
    have hsame : total i' held .shared = total i held .shared := hshared
    rcases htally with ⟨hx, -⟩ | ⟨hx, hs, -⟩
    · rw [hx] at hsum
      cases hsum
    · refine Or.inl ⟨Nat.succ.inj (hsum.trans hx), ?_⟩
      rw [hword, hsame, hs]
      rfl
  | unlockShared t ht he =>
    have hexclusive := total_goto (i.setWord (i.word - 1)) held .exclusive t (.afterSub i.word)
    have hshared := total_goto (i.setWord (i.word - 1)) held .shared t (.afterSub i.word)
    rw [Srw.State.setWord_pc, ht, ← he] at hexclusive hshared
    simp only [Mode.heldAt, Srw.Pc.afterSub_holdsExclusive, Srw.Pc.afterSub_holdsShared,
      Bool.toNat_false, Nat.add_zero] at hexclusive hshared
    have hword : i'.word = i.word - 1 := by rw [he]; rfl
    have hsum : total i' held .shared + 1 = total i held .shared := hshared
    rcases htally with ⟨hx, hs⟩ | ⟨-, hs, -⟩
    · refine Or.inl ⟨hexclusive.trans hx, ?_⟩
      have hone : (1 : BitVec 32).toNat = 1 := rfl
      have hpos : 1 ≤ i.word.toNat := by
        rw [hs, ← hsum]
        exact Nat.succ_pos _
      rw [hword, BitVec.toNat_sub_of_le hpos, hs, ← hsum, hone, Nat.add_sub_cancel]
    · rw [hs] at hsum
      cases hsum

theorem Consistent.exclusion (h : Consistent i held) (ht : 0 < weight i held m t)
    (hu : 0 < weight i held .exclusive u) : t = u := by
  by_contra hne
  have hlow : weight i held .exclusive u ≤ total i held .exclusive := le_sum _ u
  rcases h.tally with ⟨hx, -⟩ | ⟨hx, hs, -⟩
  · omega
  · cases m with
    | exclusive =>
      have hpair : weight i held .exclusive t + weight i held .exclusive u ≤
          total i held .exclusive := pair_le_sum _ hne
      omega
    | shared =>
      have hle : weight i held .shared t ≤ total i held .shared := le_sum _ t
      omega

/-! ## Runs of one lock -/

/-- What is known of an `SRWLOCK` as long as no call goes past its inner lock. -/
def SrwLock.Inv (l : SrwLock n) : Prop :=
  match l.word with
  | .boxed i => Consistent i l.held
  | _ => ∀ m t, l.held m t = 0

theorem consistent_new : Consistent (newSrwInner n) fun _ _ => 0 := by
  have htotal : ∀ m, total (newSrwInner n) (fun _ _ => 0) m = 0 := by
    intro m
    apply Finset.sum_eq_zero
    intro t _
    cases m <;> rfl
  refine ⟨fun _ => trivial, Or.inl ⟨htotal _, ?_⟩⟩
  rw [htotal]
  rfl

theorem SrwLock.inv_init {l : SrwLock n} (h : (srwLock n).init l) : l.Inv := by
  obtain ⟨w, rfl | rfl⟩ := h
  · exact consistent_new
  · exact fun _ _ => rfl

theorem Consistent.acquire (h : Consistent i held) (hidle : i.pc t = .idle) :
    Consistent (i.goto t m.acquire) held := by
  have hmoved : Consistent (i.goto t m.acquire)
      (Function.update held m (Function.update (held m) t (held m t))) := h.moved
    (by cases m <;> trivial) (by rw [hidle]; cases m <;> rfl)
    (by rw [hidle]; cases m <;> intro m' _ <;> cases m' <;> rfl)
  rwa [Function.update_eq_self, Function.update_eq_self] at hmoved

theorem Consistent.release (h : Consistent i held) (hidle : i.pc t = .idle)
    (hpos : 0 < held m t) :
    Consistent (i.goto t m.release)
      (Function.update held m (Function.update (held m) t (held m t - 1))) := by
  apply h.moved
  · cases m <;> trivial
  · rw [hidle]
    cases m <;> simp only [Mode.heldAt, Mode.release, Srw.Pc.holdsExclusive, Srw.Pc.holdsShared,
      Bool.toNat_false, Bool.toNat_true] <;> omega
  · rw [hidle]
    cases m <;> intro m' hm <;> cases m' <;> first | rfl | exact absurd rfl hm

/-- The acquire that reached this point returns. -/
theorem Consistent.returned (h : Consistent i held) {pc : Srw.Pc} (hpc : i.pc t = pc)
    (hm : m.heldAt pc = true) (hother : ∀ m', m' ≠ m → m'.heldAt pc = false) :
    Consistent (i.goto t .idle)
      (Function.update held m (Function.update (held m) t (held m t + 1))) := by
  apply h.moved
  · trivial
  · rw [hpc, hm, Mode.heldAt_idle, Bool.toNat_true, Bool.toNat_false, Nat.zero_add]
    exact Nat.add_comm _ _
  · intro m' hne
    rw [hpc, hother m' hne, Mode.heldAt_idle]

theorem SrwLock.inv_settle {l : SrwLock n} (h : Consistent i l.held) : (l.settle t i).Inv := by
  unfold SrwLock.settle
  split
  · next hpc =>
    exact h.returned hpc rfl fun m' hne => by cases m' <;> first | rfl | exact absurd rfl hne
  · next hpc =>
    exact h.returned hpc rfl fun m' hne => by cases m' <;> first | rfl | exact absurd rfl hne
  · exact h

theorem SrwLock.next_inside {l l' : SrwLock n} {a : Srw.Action n}
    (hn : l.next (t, .inside a) = some l') :
    ∃ i i', l.word = .boxed i ∧ i.next (t, a) = some i' ∧ l' = l.settle t i' := by
  cases a with
  | call fn => cases hn
  | access | wakeOne u | spurious =>
    cases hw : l.word with
    | null | stray =>
      simp only [SrwLock.next, hw] at hn
      cases hn
    | boxed i =>
      simp only [SrwLock.next, hw, Option.map_eq_some_iff] at hn
      obtain ⟨i', hnext, rfl⟩ := hn
      exact ⟨i, i', rfl, hnext, rfl⟩

theorem SrwLock.inv_call {l l' : SrwLock n} {fn : SrwCall} (h : l.Inv)
    (hok : Consults .srwLock l (t, .call fn)) (hn : l.next (t, .call fn) = some l') : l'.Inv := by
  simp only [SrwLock.next, Option.ite_none_right_eq_some] at hn
  obtain ⟨hrest, hn⟩ := hn
  cases fn with
  | acquire m =>
    obtain ⟨i, hw⟩ := hok
    simp only [SrwLock.AtRest, hw] at hrest
    simp only [SrwLock.call, hw] at hn
    cases hn
    simp only [SrwLock.Inv, hw] at h ⊢
    exact h.acquire hrest
  | tryAcquireExclusive => exact hok.elim
  | release m =>
    simp only [SrwLock.call, Option.ite_none_right_eq_some] at hn
    obtain ⟨hpos, hn⟩ := hn
    cases hw : l.word with
    | boxed i =>
      simp only [SrwLock.AtRest, hw] at hrest
      simp only [hw] at hn
      cases hn
      simp only [SrwLock.Inv, hw] at h ⊢
      exact h.release hrest hpos
    | null | stray =>
      simp only [SrwLock.Inv, hw] at h
      rw [h m t] at hpos
      cases hpos

theorem SrwLock.inv_of_consults {l : SrwLock n}
    (h : (srwLock n).ReachableIf (Consults .srwLock) l) : l.Inv := by
  apply h.invariant
  · exact fun _ => SrwLock.inv_init
  · intro l a l' hinv hok hn
    obtain ⟨t, a⟩ := a
    cases a with
    | call fn => exact SrwLock.inv_call hinv hok hn
    | inside a =>
      obtain ⟨i, i', hw, hnext, rfl⟩ := SrwLock.next_inside hn
      simp only [SrwLock.Inv, hw] at hinv
      exact SrwLock.inv_settle (hinv.next hnext)

theorem SrwLock.Inv.excludes {l : SrwLock n} (h : l.Inv) : Excludes .srwLock l := by
  intro m t u ht hu
  unfold SrwLock.Holds at ht hu
  unfold SrwLock.Inv at h
  cases hw : l.word with
  | boxed i =>
    rw [hw] at h ht hu
    apply h.exclusion (m := m)
    · unfold weight
      rcases ht with ht | ht
      · omega
      · simp [ht]
    · unfold weight
      rcases hu with hu | hu
      · omega
      · simp [hu]
  | null | stray =>
    rw [hw] at h ht
    rcases ht with ht | ht
    · rw [h m t] at ht
      cases ht
    · exact ht.elim

/-- What is known of a `CRITICAL_SECTION` as long as no call goes past its inner lock: the inner lock
    is in a state of a run of its own. -/
structure CriticalSection.Inv (c : CriticalSection n) : Prop where
  passed : ∀ t, c.passed t = 0
  inner : ∀ i, c.word = .boxed i → (Recursive.machine n).ReachableIf Recursive.Bounded i

theorem CriticalSection.inv_init {c : CriticalSection n} (h : (criticalSection n).init c) :
    c.Inv := by
  obtain ⟨w, spin, flags, hnew, rfl | rfl | rfl⟩ := h
  · refine ⟨fun _ => rfl, ?_⟩
    intro i hi
    cases hi
    exact .start ⟨none, rfl⟩
  · exact ⟨fun _ => rfl, fun i hi => absurd hi (hnew i)⟩
  · exact ⟨fun _ => rfl, fun i hi => absurd hi (hnew i)⟩

theorem CriticalSection.Inv.setInner {c : CriticalSection n} (h : c.Inv) {i i' : Recursive.State n}
    (hw : c.word = .boxed i) {a : Fin n × Recursive.Action n} (hok : Recursive.Bounded i a)
    (hn : i.next a = some i') : CriticalSection.Inv { c with word := .boxed i' } := by
  refine ⟨h.passed, ?_⟩
  intro j hj
  cases hj
  exact (h.inner i hw).step hok hn

theorem CriticalSection.inv_call {c c' : CriticalSection n} {fn : SectionCall} (h : c.Inv)
    (hok : Consults .criticalSection c (t, .call fn)) (hn : c.next (t, .call fn) = some c') :
    c'.Inv := by
  simp only [CriticalSection.next, Option.ite_none_right_eq_some] at hn
  obtain ⟨-, hn⟩ := hn
  cases fn with
  | enter =>
    obtain ⟨i, hw⟩ := hok
    simp only [CriticalSection.call, hw, Option.map_eq_some_iff] at hn
    obtain ⟨i', hnext, rfl⟩ := hn
    exact h.setInner (a := (t, .acquire false)) hw trivial hnext
  | tryEnter => exact hok.elim
  | leave =>
    cases hw : c.word with
    | null =>
      simp [CriticalSection.call, hw, h.passed t] at hn
    | boxed i =>
      simp only [CriticalSection.call, hw, Option.ite_none_right_eq_some,
        Option.map_eq_some_iff] at hn
      obtain ⟨-, i', hnext, rfl⟩ := hn
      exact h.setInner (a := (t, .release)) hw trivial hnext
    | stray =>
      simp [CriticalSection.call, hw] at hn

theorem CriticalSection.next_inside {c c' : CriticalSection n} {a : Recursive.Action n}
    (hn : c.next (t, .inside a) = some c') :
    ∃ i i', c.word = .boxed i ∧ i.next (t, a) = some i' ∧ c' = c.settle t i i' := by
  cases a with
  | acquire timed | release => cases hn
  | access | clock expired | wakeOne u | wakeUp =>
    cases hw : c.word with
    | null | stray =>
      simp only [CriticalSection.next, hw] at hn
      cases hn
    | boxed i =>
      simp only [CriticalSection.next, hw, Option.map_eq_some_iff] at hn
      obtain ⟨i', hnext, rfl⟩ := hn
      exact ⟨i, i', rfl, hnext, rfl⟩

theorem CriticalSection.Inv.settle {c : CriticalSection n} (h : c.Inv) (i i' : Recursive.State n) :
    c.settle t i i' = { c with word := .boxed i' } := by
  have hdrop : c.drop t = c := by
    unfold CriticalSection.drop
    rw [h.passed t, Nat.zero_sub, ← h.passed t, Function.update_eq_self]
  unfold CriticalSection.settle
  rw [hdrop, ite_self]

theorem CriticalSection.inv_of_consults {c : CriticalSection n}
    (h : (criticalSection n).ReachableIf (Consults .criticalSection) c) : c.Inv := by
  apply h.invariant
  · exact fun _ => CriticalSection.inv_init
  · intro c a c' hinv hok hn
    obtain ⟨t, a⟩ := a
    cases a with
    | call fn => exact CriticalSection.inv_call hinv hok hn
    | inside a =>
      obtain ⟨i, i', hw, hnext, rfl⟩ := CriticalSection.next_inside hn
      rw [hinv.settle]
      exact hinv.setInner hw (hok i hw) hnext

theorem CriticalSection.Inv.excludes {c : CriticalSection n} (h : c.Inv) :
    Excludes .criticalSection c := by
  intro t u ht hu
  unfold CriticalSection.Holds at ht hu
  rw [h.passed] at ht hu
  have ht := ht.resolve_left (Nat.lt_irrefl 0)
  have hu := hu.resolve_left (Nat.lt_irrefl 0)
  cases hw : c.word with
  | boxed i =>
    rw [hw] at ht hu
    exact (Recursive.inv_of_bounded (h.inner i hw)).exclusive.exclusion t u ht hu
  | null | stray =>
    rw [hw] at ht
    exact ht.elim

/-- **The exported locks exclude** in every run of every number of threads on every set of locks, as
    long as no call goes past an inner lock. -/
theorem exported_locks_exclude {ι : Type} [DecidableEq ι] (n : Nat) (kind : ι → Kind)
    (s : ∀ i, Lock n (kind i))
    (h : (lockApi n kind).ReachableIf (fun s a => Consults (kind a.1) (s a.1) a.2) s) (i : ι) :
    Excludes (kind i) (s i) := by
  have hone : (lockMachine n (kind i)).ReachableIf (Consults (kind i)) (s i) := by
    apply Machine.ReachableIf.component (M := fun i => lockMachine n (kind i))
    exact h
  generalize s i = l at hone ⊢
  generalize kind i = k at l hone ⊢
  cases k with
  | srwLock => exact (SrwLock.inv_of_consults hone).excludes
  | criticalSection => exact (CriticalSection.inv_of_consults hone).excludes

/-! ## Past the inner lock

Four locks, one for each way: a static `SRWLOCK`, an initialised one that is tried, a
`CRITICAL_SECTION` set up with a spin count, and one that is tried. -/

def fourKinds : Fin 4 → Kind
  | 0 | 1 => .srwLock
  | 2 | 3 => .criticalSection

def fourLocks : ∀ i, Lock 2 (fourKinds i)
  | 0 => SrwLock.unused .null
  | 1 => SrwLock.unused (initializeSrwLock .null)
  | 2 => CriticalSection.unused (initializeCriticalSectionAndSpinCount .null 4000)
  | 3 => CriticalSection.unused (initializeCriticalSection .null)

/-- Both threads acquire each of the four locks exclusively. -/
def bothAcquire : List (Σ i, LockAction 2 (fourKinds i)) :=
  [⟨0, (0, .call (.acquire .exclusive))⟩, ⟨0, (1, .call (.acquire .exclusive))⟩,
    ⟨1, (0, .call .tryAcquireExclusive)⟩, ⟨1, (1, .call .tryAcquireExclusive)⟩,
    ⟨2, (0, .call .enter)⟩, ⟨2, (1, .call .enter)⟩,
    ⟨3, (0, .call .tryEnter)⟩, ⟨3, (1, .call .tryEnter)⟩]

def bothInside : ∀ i, Lock 2 (fourKinds i) :=
  ((lockApi 2 fourKinds).exec fourLocks bothAcquire).getD fourLocks

theorem bothInside_reachable : (lockApi 2 fourKinds).Reachable bothInside := by
  have hinit : (lockApi 2 fourKinds).init fourLocks := by
    intro i
    match i with
    | 0 => exact ⟨.null, Or.inr rfl⟩
    | 1 => exact ⟨.null, Or.inl rfl⟩
    | 2 => exact ⟨.null, 4000, 0, nofun, Or.inr (Or.inl rfl)⟩
    | 3 => exact ⟨.null, 0, 0, nofun, Or.inl rfl⟩
  exact Machine.reachable_of_exec (l := bothAcquire) hinit rfl

theorem exported_locks_let_both_in :
    (lockApi 2 fourKinds).Reachable bothInside ∧ ∀ i, ¬ Excludes (fourKinds i) (bothInside i) := by
  refine ⟨bothInside_reachable, ?_⟩
  intro i
  match i with
  | 0 | 1 =>
    intro h
    exact absurd (h .exclusive 0 1 (Or.inl Nat.one_pos) (Or.inl Nat.one_pos)) (by decide)
  | 2 | 3 =>
    intro h
    exact absurd (h 0 1 (Or.inl Nat.one_pos) (Or.inl Nat.one_pos)) (by decide)

/-- The well set up one of each kind: thread 0 enters the section and acquires the `SRWLOCK`. -/
def goodKinds : Bool → Kind
  | false => .srwLock
  | true => .criticalSection

def goodLocks : ∀ i, Lock 2 (goodKinds i)
  | false => SrwLock.unused (initializeSrwLock .null)
  | true => CriticalSection.unused (initializeCriticalSection .null)

theorem goodLocks_init : (lockApi 2 goodKinds).init goodLocks := by
  intro i
  cases i with
  | false => exact ⟨.null, Or.inl rfl⟩
  | true => exact ⟨.null, 0, 0, nofun, Or.inl rfl⟩

/-- Thread 0 has acquired the `SRWLOCK` exclusively and is on its way into the section. -/
def oneInside : ∀ i, Lock 2 (goodKinds i) :=
  ((lockApi 2 goodKinds).exec goodLocks
    [⟨false, (0, .call (.acquire .exclusive))⟩, ⟨false, (0, .inside .access)⟩,
      ⟨false, (0, .inside .access)⟩, ⟨true, (0, .call .enter)⟩]).getD goodLocks

theorem exported_locks_exclude_oneInside :
    (oneInside false).held .exclusive 0 = 1 ∧ Excludes (goodKinds false) (oneInside false) := by
  refine ⟨rfl, ?_⟩
  apply exported_locks_exclude 2 goodKinds oneInside
  have h₀ : (lockApi 2 goodKinds).ReachableIf
      (fun s a => Consults (goodKinds a.1) (s a.1) a.2) goodLocks := .start goodLocks_init
  have h₁ := h₀.step (a := ⟨false, (0, .call (.acquire .exclusive))⟩) (by exact ⟨_, rfl⟩) rfl
  have h₂ := h₁.step (a := ⟨false, (0, .inside .access)⟩) (by trivial) rfl
  have h₃ := h₂.step (a := ⟨false, (0, .inside .access)⟩) (by trivial) rfl
  exact h₃.step (a := ⟨true, (0, .call .enter)⟩) (by exact ⟨_, rfl⟩) rfl

end WinCompat.Sync.Exported
