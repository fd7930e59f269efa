import Mathlib.Data.Nat.Bitwise
import WinCompat.Lib.Count
import WinCompat.Lib.Machine

/-!
# `SrwInner` — the slim reader/writer lock on one futex word

`ntapi/src/sync.rs`, `SrwInner`. Bit 31 of the word is the writer flag, the other bits count the
readers. Every atomic access of `acquire_*` / `release_*` is one step of one thread, and a thread
is where it is in the source: `exLoad` has the `load` at the top of `acquire_exclusive` ahead of
it, `shCas s` has loaded `s` and has the `compare_exchange` ahead of it, and so on.

An SRW lock is not recursive: a thread that holds it has only the matching release to call. That
is what `Pc.call` enforces, and it is why the number of threads bounds the number of readers.

`futex_wait` sleeps only when the word still has the expected value; it may also return for no
reason (`spurious`). `futex_wake(addr, 1)` wakes one sleeper if there is one, and which one is in
the label. With fewer than `2^31 - 1` threads `futex_wake(addr, i32::MAX)` wakes them all.
-/

namespace WinCompat.Sync.Srw

open Lib

/-- `SRW_WRITER`: the writer-held flag. -/
def srwWriter : BitVec 32 := 1 <<< 31

/-- `SRW_READER_MASK`: the reader count. -/
def srwReaderMask : BitVec 32 := (1 <<< 31) - 1

/-- Where a thread is in `SrwInner`'s code. -/
inductive Pc
  -- Outside the lock's code, holding nothing.
  | idle
  -- `acquire_exclusive`: about to load the word.
  | exLoad
  -- `acquire_exclusive`: loaded 0, about to `compare_exchange(0, SRW_WRITER)`.
  | exCas
  -- `acquire_exclusive`: loaded `s ≠ 0`, about to `futex_wait(s)`.
  | exWait (s : BitVec 32)
  -- `acquire_exclusive`: asleep in `futex_wait`.
  | exAsleep
  -- `acquire_exclusive` has returned.
  | exHeld
  -- `acquire_shared`: about to load the word.
  | shLoad
  -- `acquire_shared`: loaded `s` without the flag, about to `compare_exchange(s, s + 1)`.
  | shCas (s : BitVec 32)
  -- `acquire_shared`: loaded `s` with the flag, about to `futex_wait(s)`.
  | shWait (s : BitVec 32)
  -- `acquire_shared`: asleep in `futex_wait`.
  | shAsleep
  -- `acquire_shared` has returned.
  | shHeld
  -- `release_exclusive`: about to store 0.
  | exStore
  -- `release_exclusive`: stored 0, about to `futex_wake(i32::MAX)`.
  | exWake
  -- `release_shared`: about to `fetch_sub(1)`.
  | shSub
  -- `release_shared`: took the last reader out, about to `futex_wake(1)`.
  | shWake
  deriving DecidableEq

namespace Pc

/-- Where `release_shared` goes after its `fetch_sub` returned `prev`: the last reader out has a
    `futex_wake` ahead of it. -/
def afterSub (prev : BitVec 32) : Pc :=
  if prev &&& srwReaderMask = 1 then shWake else idle

/-- The thread's last acquire was exclusive and its release has not yet changed the word. -/
def holdsExclusive : Pc → Bool
  | exHeld | exStore => true
  | _ => false

/-- The thread's last acquire was shared and its release has not yet changed the word. -/
def holdsShared : Pc → Bool
  | shHeld | shSub => true
  | _ => false

def asleep : Pc → Bool
  | exAsleep | shAsleep => true
  | _ => false

/-- Awake inside one of the two acquire loops. -/
def acquiring : Pc → Bool
  | exLoad | exCas | exWait _ | shLoad | shCas _ | shWait _ => true
  | _ => false

/-- Between a releasing write and the `futex_wake` that follows it. -/
def waking : Pc → Bool
  | exWake | shWake => true
  | _ => false

/-- `futex_wait` returning: a sleeper is back at the top of its loop, nobody else moves. -/
def wakeUp : Pc → Pc
  | exAsleep => exLoad
  | shAsleep => shLoad
  | pc => pc

end Pc

/-- The four lock functions. -/
inductive LockFn
  | acquireExclusive
  | acquireShared
  | releaseExclusive
  | releaseShared
  deriving DecidableEq

/-- Where a call begins, for the functions the thread may call where it is: the two acquires
    when it holds nothing, otherwise the release of what it holds. -/
def Pc.call : Pc → LockFn → Option Pc
  | .idle, .acquireExclusive => some .exLoad
  | .idle, .acquireShared => some .shLoad
  | .exHeld, .releaseExclusive => some .exStore
  | .shHeld, .releaseShared => some .shSub
  | _, _ => none

/-- The lock word and every thread's program point. -/
structure State (n : Nat) where
  word : BitVec 32
  pc : Fin n → Pc

/-- What the next step is. -/
inductive Action (n : Nat)
  -- The thread calls a lock function.
  | call (fn : LockFn)
  -- The thread performs its next atomic access.
  | access
  -- The thread performs its `futex_wake(1)`, which wakes `u` (`none`: nobody sleeps).
  | wakeOne (u : Option (Fin n))
  -- The sleeping thread's `futex_wait` returns for no reason.
  | spurious
  deriving DecidableEq

variable {n : Nat}

namespace State

def goto (s : State n) (t : Fin n) (pc : Pc) : State n :=
  { s with pc := Function.update s.pc t pc }

def setWord (s : State n) (w : BitVec 32) : State n := { s with word := w }

@[simp] theorem goto_word (s : State n) (t : Fin n) (pc : Pc) : (s.goto t pc).word = s.word := rfl
@[simp] theorem setWord_word (s : State n) (w : BitVec 32) : (s.setWord w).word = w := rfl
@[simp] theorem setWord_pc (s : State n) (w : BitVec 32) : (s.setWord w).pc = s.pc := rfl
@[simp] theorem goto_pc (s : State n) (t : Fin n) (pc : Pc) :
    (s.goto t pc).pc = Function.update s.pc t pc := rfl

/-- The word and the program point of `t` after its next atomic access; `none` where the code
    has no access that is a plain step of one thread. -/
def accessed (s : State n) (t : Fin n) : Option (State n) :=
  match s.pc t with
  -- acquire_exclusive
  | .exLoad => some (s.goto t (if s.word = 0 then .exCas else .exWait s.word))
  | .exCas =>
      if s.word = 0 then some ((s.setWord srwWriter).goto t .exHeld)
      else some (s.goto t .exLoad)
  | .exWait v => some (s.goto t (if s.word = v then .exAsleep else .exLoad))
  -- acquire_shared
  | .shLoad =>
      some (s.goto t (if s.word &&& srwWriter = 0 then .shCas s.word else .shWait s.word))
  | .shCas v =>
      if s.word = v then some ((s.setWord (v + 1)).goto t .shHeld)
      else some (s.goto t .shLoad)
  | .shWait v => some (s.goto t (if s.word = v then .shAsleep else .shLoad))
  -- release_exclusive
  | .exStore => some ((s.setWord 0).goto t .exWake)
  | .exWake => some { s with pc := Function.update (fun u => (s.pc u).wakeUp) t .idle }
  -- release_shared: `prev` is the word before the subtraction
  | .shSub => some ((s.setWord (s.word - 1)).goto t (.afterSub s.word))
  | _ => none

/-- The state after one step. -/
def next (s : State n) : Fin n × Action n → Option (State n)
  | (t, .call fn) => ((s.pc t).call fn).map (s.goto t)
  | (t, .access) => s.accessed t
  | (t, .wakeOne (some u)) =>
      if s.pc t = .shWake ∧ (s.pc u).asleep then
        some ((s.goto u (s.pc u).wakeUp).goto t .idle)
      else none
  | (t, .wakeOne none) =>
      if s.pc t = .shWake ∧ ∀ u, (s.pc u).asleep = false then some (s.goto t .idle) else none
  | (t, .spurious) =>
      if (s.pc t).asleep then some (s.goto t (s.pc t).wakeUp) else none

end State

/-- Any number of threads on a lock made by `SrwInner::new`. -/
def srw (n : Nat) : Machine (State n) (Fin n × Action n) where
  init s := s.word = 0 ∧ ∀ t, s.pc t = .idle
  next := State.next

/-! ## What a step can do

`Step` lists the effects a step has on the word and on who holds the lock; everything below is
derived from it and never unfolds `next` again for that purpose. -/

/-- The effect of one step on the word and the holders, `t` being the thread that moves. -/
inductive Effect (s s' : State n) : Prop
  -- Nobody starts or stops holding and the word stays.
  | quiet (hw : s'.word = s.word)
      (hx : ∀ u, (s'.pc u).holdsExclusive = (s.pc u).holdsExclusive)
      (hs : ∀ u, (s'.pc u).holdsShared = (s.pc u).holdsShared)
  -- The writer's `compare_exchange` succeeds.
  | lockExclusive (t : Fin n) (ht : s.pc t = .exCas) (hw : s.word = 0)
      (he : s' = (s.setWord srwWriter).goto t .exHeld)
  -- A reader's `compare_exchange` succeeds.
  | lockShared (t : Fin n) (ht : s.pc t = .shCas s.word)
      (he : s' = (s.setWord (s.word + 1)).goto t .shHeld)
  -- The writer stores 0.
  | unlockExclusive (t : Fin n) (ht : s.pc t = .exStore)
      (he : s' = (s.setWord 0).goto t .exWake)
  -- A reader subtracts itself.
  | unlockShared (t : Fin n) (ht : s.pc t = .shSub)
      (he : s' = (s.setWord (s.word - 1)).goto t (.afterSub s.word))

theorem Effect.of_goto {s : State n} {t : Fin n} {pc : Pc}
    (hx : pc.holdsExclusive = (s.pc t).holdsExclusive)
    (hs : pc.holdsShared = (s.pc t).holdsShared) : Effect s (s.goto t pc) := by
  refine .quiet rfl (fun u => ?_) (fun u => ?_) <;>
    · simp only [State.goto_pc, Function.update_apply]
      split
      · next h => subst h; assumption
      · rfl

@[simp] theorem Pc.afterSub_holdsExclusive (v : BitVec 32) :
    (afterSub v).holdsExclusive = false := by unfold afterSub; split <;> rfl

@[simp] theorem Pc.afterSub_holdsShared (v : BitVec 32) :
    (afterSub v).holdsShared = false := by unfold afterSub; split <;> rfl

@[simp] theorem Pc.wakeUp_holdsExclusive (pc : Pc) :
    pc.wakeUp.holdsExclusive = pc.holdsExclusive := by cases pc <;> rfl

@[simp] theorem Pc.wakeUp_holdsShared (pc : Pc) :
    pc.wakeUp.holdsShared = pc.holdsShared := by cases pc <;> rfl

/-- Where a call can have happened and where it led. -/
theorem Pc.call_cases {pc pc' : Pc} {fn : LockFn} (h : pc.call fn = some pc') :
    (pc = .idle ∧ pc' = .exLoad) ∨ (pc = .idle ∧ pc' = .shLoad) ∨
      (pc = .exHeld ∧ pc' = .exStore) ∨ (pc = .shHeld ∧ pc' = .shSub) := by
  cases pc <;> cases fn <;> cases h <;> simp

theorem accessed_effect {s s' : State n} {t : Fin n} (h : s.accessed t = some s') :
    Effect s s' := by
  cases hp : s.pc t with
  | idle | exAsleep | exHeld | shAsleep | shHeld | shWake => simp [State.accessed, hp] at h
  | exLoad | exWait _ | shLoad | shWait _ =>
    simp only [State.accessed, hp] at h
    cases h
    exact .of_goto (by rw [hp]; split <;> rfl) (by rw [hp]; split <;> rfl)
  | exCas =>
    simp only [State.accessed, hp] at h
    split at h
    · next hw => cases h; exact .lockExclusive t hp hw rfl
    · cases h; exact .of_goto (by rw [hp]; rfl) (by rw [hp]; rfl)
  | shCas v =>
    simp only [State.accessed, hp] at h
    split at h
    · next hw => cases h; subst hw; exact .lockShared t hp rfl
    · cases h; exact .of_goto (by rw [hp]; rfl) (by rw [hp]; rfl)
  | exStore =>
    simp only [State.accessed, hp, Option.some.injEq] at h
    exact .unlockExclusive t hp h.symm
  | exWake =>
    simp only [State.accessed, hp] at h
    cases h
    refine .quiet rfl (fun u => ?_) (fun u => ?_) <;>
      · simp only [Function.update_apply]
        split
        · next h => subst h; rw [hp]; rfl
        · simp
  | shSub =>
    simp only [State.accessed, hp, Option.some.injEq] at h
    exact .unlockShared t hp h.symm

variable {a : Fin n × Action n}

theorem next_effect {s s' : State n} (h : s.next a = some s') : Effect s s' := by
  obtain ⟨t, a⟩ := a
  cases a with
  | call fn =>
    simp only [State.next, Option.map_eq_some_iff] at h
    obtain ⟨pc, hc, rfl⟩ := h
    refine .of_goto ?_ ?_ <;>
      · obtain ⟨e, rfl⟩ | ⟨e, rfl⟩ | ⟨e, rfl⟩ | ⟨e, rfl⟩ := Pc.call_cases hc <;> rw [e] <;> rfl
  | access => exact accessed_effect h
  | wakeOne u =>
    cases u with
    | none =>
      simp only [State.next] at h
      split at h
      · next hc => cases h; exact .of_goto (by rw [hc.1]; rfl) (by rw [hc.1]; rfl)
      · cases h
    | some u =>
      simp only [State.next] at h
      split at h
      · next hc =>
        cases h
        refine .quiet rfl (fun v => ?_) (fun v => ?_) <;>
          · simp only [State.goto_pc, Function.update_apply]
            split
            · next h => subst h; rw [hc.1]; rfl
            · split
              · next h => subst h; simp
              · rfl
      · cases h
  | spurious =>
    simp only [State.next] at h
    split at h
    · cases h; exact .of_goto (by simp) (by simp)
    · cases h

/-! ## The word, bit by bit -/

theorem toNat_zero : (0 : BitVec 32).toNat = 0 := rfl

theorem toNat_one : (1 : BitVec 32).toNat = 1 := rfl

theorem and_srwWriter_eq_zero (w : BitVec 32) : w &&& srwWriter = 0 ↔ w.toNat < 2 ^ 31 := by
  have hw := w.isLt
  have hnat : (w &&& srwWriter).toNat = (w.toNat.testBit 31).toNat * 2 ^ 31 := by
    rw [BitVec.toNat_and]
    exact Nat.and_two_pow w.toNat 31
  have hbit : w.toNat.testBit 31 = decide (2 ^ 31 ≤ w.toNat) := by
    rw [Nat.testBit_eq_decide_div_mod_eq]
    congr 1
    apply propext
    omega
  rw [← BitVec.toNat_inj, hnat, hbit]
  by_cases h : 2 ^ 31 ≤ w.toNat <;> simp

theorem and_srwReaderMask_eq_one (w : BitVec 32) :
    w &&& srwReaderMask = 1 ↔ w.toNat % 2 ^ 31 = 1 := by
  have hnat : (w &&& srwReaderMask).toNat = w.toNat % 2 ^ 31 := by
    rw [BitVec.toNat_and]
    exact Nat.and_two_pow_sub_one_eq_mod w.toNat 31
  rw [← BitVec.toNat_inj, hnat]
  rfl

/-! ## The holders and the word -/

/-- How many threads hold the lock exclusively. -/
def State.writers (s : State n) : Nat := countWhere Pc.holdsExclusive s.pc

/-- How many threads hold the lock shared. -/
def State.readers (s : State n) : Nat := countWhere Pc.holdsShared s.pc

/-- The word is the reader count while there is no writer, and the flag alone under one. -/
def Encoded (s : State n) : Prop :=
  (s.writers = 0 ∧ s.word.toNat = s.readers) ∨
    (s.writers = 1 ∧ s.readers = 0 ∧ s.word = srwWriter)

/-- What a thread remembers of a word it has loaded. -/
def PcOk : Pc → Prop
  | .exWait v => v ≠ 0
  | .shCas v => v.toNat < 2 ^ 31
  | .shWait v => ¬ v.toNat < 2 ^ 31
  | _ => True

/-- A sleeper is owed a wake-up while the word is 0: somebody is about to call `futex_wake`, or
    somebody is awake in an acquire loop (and will change the word, whose release wakes). -/
def NoLostWakeup (s : State n) : Prop :=
  s.word = 0 → (∃ t, (s.pc t).asleep) → ∃ t, (s.pc t).waking ∨ (s.pc t).acquiring

/-- The word encodes who holds the lock, and a sleeper on a free lock has somebody to wake it. -/
structure Inv (s : State n) : Prop where
  pcOk : ∀ t, PcOk (s.pc t)
  encoded : Encoded s
  noLostWakeup : NoLostWakeup s

theorem Pc.wakeUp_asleep (pc : Pc) : pc.wakeUp.asleep = false := by cases pc <;> rfl

theorem Pc.wakeUp_acquiring {pc : Pc} (h : pc.asleep = true) : pc.wakeUp.acquiring = true := by
  cases pc <;> first | rfl | cases h

theorem PcOk.wakeUp {pc : Pc} : PcOk pc.wakeUp ↔ PcOk pc := by cases pc <;> rfl

theorem pcOk_goto {s : State n} (h : ∀ t, PcOk (s.pc t)) {t : Fin n} {pc : Pc} (hpc : PcOk pc) :
    ∀ u, PcOk ((s.goto t pc).pc u) := by
  intro u
  simp only [State.goto_pc, Function.update_apply]
  split
  · exact hpc
  · exact h u

theorem pcOk_next {s s' : State n} (h : ∀ t, PcOk (s.pc t)) (hn : s.next a = some s') :
    ∀ t, PcOk (s'.pc t) := by
  obtain ⟨t, a⟩ := a
  cases a with
  | call fn =>
    simp only [State.next, Option.map_eq_some_iff] at hn
    obtain ⟨pc, hc, rfl⟩ := hn
    refine pcOk_goto h ?_
    obtain ⟨-, rfl⟩ | ⟨-, rfl⟩ | ⟨-, rfl⟩ | ⟨-, rfl⟩ := Pc.call_cases hc <;> trivial
  | access =>
    cases hp : s.pc t <;>
      simp only [State.next, State.accessed, hp, Option.some.injEq, reduceCtorEq] at hn
    case exLoad =>
      subst hn
      refine pcOk_goto h ?_
      split
      · trivial
      · assumption
    case shLoad =>
      subst hn
      refine pcOk_goto h ?_
      split <;> rename_i hw <;> rw [and_srwWriter_eq_zero] at hw <;> exact hw
    case exWait v => subst hn; exact pcOk_goto h (by split <;> trivial)
    case shWait v => subst hn; exact pcOk_goto h (by split <;> trivial)
    case exCas =>
      split at hn <;> cases hn
      · exact pcOk_goto (s := s.setWord srwWriter) h trivial
      · exact pcOk_goto h trivial
    case shCas v =>
      split at hn <;> cases hn
      · exact pcOk_goto (s := s.setWord (v + 1)) h trivial
      · exact pcOk_goto h trivial
    case exStore => subst hn; exact pcOk_goto (s := s.setWord 0) h trivial
    case shSub =>
      subst hn
      exact pcOk_goto (s := s.setWord (s.word - 1)) h (by unfold Pc.afterSub; split <;> trivial)
    case exWake =>
      subst hn
      intro u
      simp only [Function.update_apply]
      split
      · trivial
      · exact PcOk.wakeUp.mpr (h u)
  | wakeOne u =>
    cases u with
    | none =>
      simp only [State.next] at hn
      split at hn <;> cases hn
      exact pcOk_goto h trivial
    | some u =>
      simp only [State.next] at hn
      split at hn <;> cases hn
      exact pcOk_goto (pcOk_goto h (PcOk.wakeUp.mpr (h u))) trivial
  | spurious =>
    simp only [State.next] at hn
    split at hn <;> cases hn
    exact pcOk_goto h (PcOk.wakeUp.mpr (h t))

theorem encoded_of_effect {s s' : State n} (hn : n < 2 ^ 31 - 1) (hpc : ∀ t, PcOk (s.pc t))
    (h : Encoded s) (he : Effect s s') : Encoded s' := by
  cases he with
  | quiet hw hx hs =>
    have e₁ : s'.writers = s.writers := countWhere_congr hx
    have e₂ : s'.readers = s.readers := countWhere_congr hs
    unfold Encoded
    rw [e₁, e₂, hw]
    exact h
  | lockExclusive t ht hw he =>
    have e₁ := countWhere_update Pc.holdsExclusive s.pc t .exHeld
    have e₂ := countWhere_update Pc.holdsShared s.pc t .exHeld
    simp only [ht, Pc.holdsExclusive, Pc.holdsShared, Bool.toNat_true, Bool.toNat_false] at e₁ e₂
    have hzero : s.writers = 0 ∧ s.readers = 0 := by
      rcases h with ⟨h₁, h₂⟩ | ⟨-, -, h₃⟩
      · rw [hw] at h₂; exact ⟨h₁, h₂.symm⟩
      · rw [hw] at h₃; exact absurd h₃ (by decide)
    subst he
    refine Or.inr ⟨?_, ?_, rfl⟩ <;>
      · simp only [State.writers, State.readers, State.goto_pc, State.setWord_pc] at hzero ⊢
        omega
  | lockShared t ht he =>
    have e₁ := countWhere_update Pc.holdsExclusive s.pc t .shHeld
    have e₂ := countWhere_update Pc.holdsShared s.pc t .shHeld
    have hlt : s.readers < n := by
      have := countWhere_lt_card (p := Pc.holdsShared) (f := s.pc) (i := t) (by rw [ht]; rfl)
      simpa [State.readers] using this
    simp only [ht, Pc.holdsExclusive, Pc.holdsShared, Bool.toNat_true, Bool.toNat_false] at e₁ e₂
    have hflag : s.word.toNat < 2 ^ 31 := by have := hpc t; rw [ht] at this; exact this
    subst he
    rcases h with ⟨h₁, h₂⟩ | ⟨-, -, h₃⟩
    · refine Or.inl ⟨?_, ?_⟩
      · simp only [State.writers, State.goto_pc, State.setWord_pc] at h₁ ⊢; omega
      · simp only [State.readers, State.goto_word, State.setWord_word, State.goto_pc,
          State.setWord_pc, BitVec.toNat_add, toNat_one] at h₂ hlt ⊢
        omega
    · rw [h₃] at hflag; exact absurd hflag (by decide)
  | unlockExclusive t ht he =>
    have e₁ := countWhere_update Pc.holdsExclusive s.pc t .exWake
    have e₂ := countWhere_update Pc.holdsShared s.pc t .exWake
    have hpos : 0 < s.writers := countWhere_pos (i := t) (by rw [ht]; rfl)
    simp only [ht, Pc.holdsExclusive, Pc.holdsShared, Bool.toNat_true, Bool.toNat_false] at e₁ e₂
    rcases h with ⟨h₁, -⟩ | ⟨h₁, h₂, -⟩
    · omega
    · subst he
      refine Or.inl ⟨?_, ?_⟩ <;>
        · simp only [State.writers, State.readers, State.goto_pc, State.setWord_pc,
            State.goto_word, State.setWord_word, toNat_zero] at h₁ h₂ ⊢
          omega
  | unlockShared t ht he =>
    have e₁ := countWhere_update Pc.holdsExclusive s.pc t (.afterSub s.word)
    have e₂ := countWhere_update Pc.holdsShared s.pc t (.afterSub s.word)
    have hpos : 0 < s.readers := countWhere_pos (i := t) (by rw [ht]; rfl)
    simp only [Pc.afterSub_holdsExclusive, Pc.afterSub_holdsShared, ht, Bool.toNat_false] at e₁ e₂
    simp only [Pc.holdsExclusive, Pc.holdsShared, Bool.toNat_true, Bool.toNat_false] at e₁ e₂
    rcases h with ⟨h₁, h₂⟩ | ⟨-, h₂, -⟩
    · subst he
      refine Or.inl ⟨?_, ?_⟩
      · simp only [State.writers, State.goto_pc, State.setWord_pc] at h₁ ⊢; omega
      · have := s.word.isLt
        simp only [State.readers, State.goto_word, State.setWord_word, State.goto_pc,
          State.setWord_pc, BitVec.toNat_sub, toNat_one] at h₂ hpos ⊢
        omega
    · omega

/-! ## No lost wake-up

A thread falls asleep only on a non-zero word, so while the word is 0 the sleepers can only become
fewer; and a step that makes the word 0 leaves its own thread with a `futex_wake` to perform. -/

theorem noLostWakeup_of_mover {s : State n} {t : Fin n} {pc : Pc}
    (h : pc.waking = true ∨ pc.acquiring = true) : NoLostWakeup (s.goto t pc) :=
  fun _ _ => ⟨t, by rwa [State.goto_pc, Function.update_self]⟩

theorem noLostWakeup_of_word {s : State n} (h : s.word ≠ 0) : NoLostWakeup s :=
  fun h₀ => absurd h₀ h

theorem noLostWakeup_goto {s : State n} {t : Fin n} {pc : Pc} (h : NoLostWakeup s)
    (ht : (s.pc t).waking = false ∧ (s.pc t).acquiring = false) (ha : pc.asleep = false) :
    NoLostWakeup (s.goto t pc) := by
  rintro hw ⟨u, hu⟩
  have hut : u ≠ t := by
    rintro rfl
    simp only [State.goto_pc, Function.update_self, ha] at hu
    cases hu
  rw [State.goto_pc, Function.update_of_ne hut] at hu
  obtain ⟨v, hv⟩ := h hw ⟨u, hu⟩
  have hvt : v ≠ t := by
    rintro rfl
    simp [ht.1, ht.2] at hv
  exact ⟨v, by rwa [State.goto_pc, Function.update_of_ne hvt]⟩

theorem noLostWakeup_accessed {s s' : State n} {t : Fin n} (hpc : ∀ t, PcOk (s.pc t))
    (hn : s.accessed t = some s') : NoLostWakeup s' := by
  cases hp : s.pc t <;> simp only [State.accessed, hp, Option.some.injEq, reduceCtorEq] at hn
  case exLoad =>
    subst hn
    exact noLostWakeup_of_mover (Or.inr (by split <;> rfl))
  case shLoad =>
    subst hn
    exact noLostWakeup_of_mover (Or.inr (by split <;> rfl))
  case exCas =>
    split at hn <;> cases hn
    · exact noLostWakeup_of_word (by simp [srwWriter])
    · exact noLostWakeup_of_mover (Or.inr rfl)
  case shCas v =>
    have hv := hpc t
    rw [hp] at hv
    split at hn <;> cases hn
    · refine noLostWakeup_of_word fun h₀ => ?_
      have := congrArg BitVec.toNat h₀
      simp only [State.goto_word, State.setWord_word, BitVec.toNat_add, toNat_one,
        toNat_zero] at this
      simp only [PcOk] at hv
      omega
    · exact noLostWakeup_of_mover (Or.inr rfl)
  case exWait v =>
    have hv := hpc t
    rw [hp] at hv
    subst hn
    split
    · next hw => exact noLostWakeup_of_word (by rw [State.goto_word, hw]; exact hv)
    · exact noLostWakeup_of_mover (Or.inr rfl)
  case shWait v =>
    have hv := hpc t
    rw [hp] at hv
    subst hn
    split
    · next hw =>
      refine noLostWakeup_of_word ?_
      rw [State.goto_word, hw]
      rintro rfl
      exact hv (by decide)
    · exact noLostWakeup_of_mover (Or.inr rfl)
  case exStore => subst hn; exact noLostWakeup_of_mover (Or.inl rfl)
  case exWake =>
    -- every sleeper has been woken
    subst hn
    rintro - ⟨u, hu⟩
    exfalso
    simp only [Function.update_apply] at hu
    split at hu
    · cases hu
    · rw [Pc.wakeUp_asleep] at hu; cases hu
  case shSub =>
    subst hn
    by_cases hmask : s.word &&& srwReaderMask = 1
    · exact noLostWakeup_of_mover (Or.inl (by rw [Pc.afterSub, if_pos hmask]; rfl))
    · -- not the last reader out, so the word has not become 0
      refine noLostWakeup_of_word fun h₀ => hmask ?_
      rw [and_srwReaderMask_eq_one]
      have h₁ := congrArg BitVec.toNat h₀
      have h₂ := s.word.isLt
      simp only [State.goto_word, State.setWord_word, BitVec.toNat_sub, toNat_one,
        toNat_zero] at h₁
      omega

theorem noLostWakeup_next {s s' : State n} (hi : Inv s) (hn : s.next a = some s') :
    NoLostWakeup s' := by
  obtain ⟨t, a⟩ := a
  cases a with
  | call fn =>
    simp only [State.next, Option.map_eq_some_iff] at hn
    obtain ⟨pc, hc, rfl⟩ := hn
    obtain ⟨e, rfl⟩ | ⟨e, rfl⟩ | ⟨e, rfl⟩ | ⟨e, rfl⟩ := Pc.call_cases hc <;>
      exact noLostWakeup_goto hi.noLostWakeup (by rw [e]; exact ⟨rfl, rfl⟩) rfl
  | access => exact noLostWakeup_accessed hi.pcOk hn
  | wakeOne u =>
    cases u with
    | none =>
      -- nobody sleeps
      simp only [State.next] at hn
      split at hn <;> cases hn
      next hc =>
      rintro - ⟨u, hu⟩
      simp only [State.goto_pc, Function.update_apply] at hu
      split at hu
      · cases hu
      · rw [hc.2 u] at hu; cases hu
    | some u =>
      -- the thread just woken is back at the top of its acquire loop
      simp only [State.next] at hn
      split at hn <;> cases hn
      next hc =>
      have hut : u ≠ t := by
        rintro rfl
        rw [hc.1] at hc
        exact absurd hc.2 (by decide)
      refine fun _ _ => ⟨u, Or.inr ?_⟩
      rw [State.goto_pc, Function.update_of_ne hut, State.goto_pc, Function.update_self]
      exact Pc.wakeUp_acquiring hc.2
  | spurious =>
    simp only [State.next] at hn
    split at hn <;> cases hn
    next ha =>
    exact noLostWakeup_of_mover (Or.inr (Pc.wakeUp_acquiring ha))

/-! ## Every run -/

theorem inv_start {s : State n} (h : (srw n).init s) : Inv s := by
  obtain ⟨hw, hidle⟩ := h
  have hzero : ∀ p : Pc → Bool, p .idle = false → countWhere p s.pc = 0 :=
    fun p hp => countWhere_eq_zero_of fun t => by rw [hidle t, hp]
  refine ⟨fun t => by rw [hidle t]; trivial, Or.inl ⟨hzero _ rfl, ?_⟩, ?_⟩
  · rw [hw]; exact (hzero _ rfl).symm
  · rintro - ⟨t, ht⟩
    rw [hidle t] at ht
    cases ht

theorem inv_next (hn : n < 2 ^ 31 - 1) {s s' : State n} (hi : Inv s) (h : s.next a = some s') :
    Inv s' :=
  ⟨pcOk_next hi.pcOk h, encoded_of_effect hn hi.pcOk hi.encoded (next_effect h),
    noLostWakeup_next hi h⟩

theorem inv_reachable (hn : n < 2 ^ 31 - 1) {s : State n} (h : (srw n).Reachable s) : Inv s :=
  h.invariant (fun _ => inv_start) (fun _ _ _ => inv_next hn)

/-- The word that stands for a set of holders: the flag under a writer, else the readers. -/
def encode (pc : Fin n → Pc) : BitVec 32 :=
  if ∃ t, (pc t).holdsExclusive then srwWriter else BitVec.ofNat 32 (countWhere Pc.holdsShared pc)

theorem Encoded.exclusion {s : State n} (h : Encoded s) :
    (∀ t, (s.pc t).holdsExclusive = false) ∨
      ∃ t, (s.pc t).holdsExclusive ∧ (∀ u, (s.pc u).holdsExclusive → u = t) ∧
        ∀ u, (s.pc u).holdsShared = false := by
  rcases h with ⟨h₁, -⟩ | ⟨h₁, h₂, -⟩
  · exact Or.inl (countWhere_eq_zero h₁)
  · refine Or.inr ?_
    have hex : ∃ t, (s.pc t).holdsExclusive = true := by
      by_contra hne
      simp only [not_exists, Bool.not_eq_true] at hne
      have : s.writers = 0 := countWhere_eq_zero_of hne
      omega
    obtain ⟨t, ht⟩ := hex
    refine ⟨t, ht, fun u hu => ?_, countWhere_eq_zero h₂⟩
    by_contra hne
    have := two_le_countWhere (f := s.pc) hne hu ht
    exact absurd h₁ (by unfold State.writers; omega)

theorem Encoded.word_eq {s : State n} (h : Encoded s) : s.word = encode s.pc := by
  unfold encode
  rcases h with ⟨h₁, h₂⟩ | ⟨h₁, -, h₃⟩
  · rw [if_neg (by simpa using countWhere_eq_zero h₁), ← BitVec.toNat_inj, h₂,
      BitVec.toNat_ofNat, Nat.mod_eq_of_lt]
    · rfl
    · have := s.word.isLt
      rw [h₂] at this
      exact this
  · rw [if_pos, h₃]
    by_contra hne
    simp only [not_exists, Bool.not_eq_true] at hne
    have : s.writers = 0 := countWhere_eq_zero_of hne
    omega

/-- **SRW safety and no lost wake-up.** In every state reached by fewer than `2^31 - 1` threads:
    at most one of them holds the lock exclusively, and then none shares it; the word is exactly
    the encoding of the holders; and a sleeper facing a free word has a wake-up coming. -/
theorem srw_exclusion_and_wakeup (n : Nat) (hn : n < 2 ^ 31 - 1) (s : State n)
    (h : (srw n).Reachable s) :
    ((∀ t, (s.pc t).holdsExclusive = false) ∨
      ∃ t, (s.pc t).holdsExclusive ∧ (∀ u, (s.pc u).holdsExclusive → u = t) ∧
        ∀ u, (s.pc u).holdsShared = false) ∧
    s.word = encode s.pc ∧
    (s.word = 0 → (∃ t, (s.pc t).asleep) → ∃ t, (s.pc t).waking ∨ (s.pc t).acquiring) :=
  have hi := inv_reachable hn h
  ⟨hi.encoded.exclusion, hi.encoded.word_eq, hi.noLostWakeup⟩

/-- Thread 0 takes the lock exclusively; thread 1 wants it exclusively and thread 2 shared, and both
    fall asleep. -/
def contend : List (Fin 3 × Action 3) :=
  [(0, .call .acquireExclusive), (0, .access), (0, .access),
    (1, .call .acquireExclusive), (1, .access), (1, .access),
    (2, .call .acquireShared), (2, .access), (2, .access)]

/-- The holder excludes the two sleepers, and once it has stored 0 somebody is about to wake them. -/
theorem srw_exclusion_and_wakeup_three :
    ∃ s s' : State 3, (srw 3).exec ⟨0, fun _ => .idle⟩ contend = some s ∧
      (srw 3).exec s [(0, .call .releaseExclusive), (0, .access)] = some s' ∧
      (s.pc 0).holdsExclusive ∧ (∀ u, (s.pc u).holdsShared = false) ∧ s.word = encode s.pc ∧
      s'.word = 0 ∧ (s'.pc 1).asleep ∧ (s'.pc 2).asleep ∧
      ∃ t, (s'.pc t).waking ∨ (s'.pc t).acquiring := by
  refine ⟨_, _, rfl, rfl, rfl, ?_⟩
  have hs := Machine.reachable_of_exec (M := srw 3) (s := ⟨0, fun _ => .idle⟩) (l := contend)
    ⟨rfl, fun _ => rfl⟩ rfl
  have hs' := Machine.Reachable.exec (M := srw 3) (l := [(0, .call .releaseExclusive), (0, .access)])
    hs rfl
  obtain ⟨hexclusive, hword, -⟩ := srw_exclusion_and_wakeup 3 (by decide) _ hs
  obtain ⟨-, -, hwakes⟩ := srw_exclusion_and_wakeup 3 (by decide) _ hs'
  refine ⟨?_, hword, rfl, rfl, rfl, hwakes rfl ⟨1, rfl⟩⟩
  obtain hnone | ⟨_, -, -, hshared⟩ := hexclusive
  · cases hnone 0
  · exact hshared

end WinCompat.Sync.Srw
