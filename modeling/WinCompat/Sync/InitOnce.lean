import WinCompat.Lib.Machine

/-!
# `InitOnceBeginInitialize` and `InitOnceComplete`

`win32-kernel32/src/extras.rs`. Nothing is kept in the guest's `INIT_ONCE`: a global set under a
mutex has the addresses for which `InitOnceComplete` was ever called, and a begin looks whether its
address is in there. The look and the answer are two steps, since the mutex is let go in between.

`initialised` and `completed` are the history of an address, which the code does not see: whether
the structure that is there now has been completed without `INIT_ONCE_INIT_FAILED`, and whether any
structure that was ever there has been completed in whatever way. A program takes an address into
use again only when no thread is busy with the structure that was there.
-/

namespace WinCompat.Sync.InitOnce

open Lib

/-- The address of an `INIT_ONCE`. -/
abbrev Addr := BitVec 64

/-- `INIT_ONCE_DONE`: made by whoever looks first. -/
abbrev Done := Option (Finset Addr)

def Done.set (done : Done) : Finset Addr := done.getD ∅

/-- `init_once_begin_initialize`: the set, and what goes to `*pending`. -/
def initOnceBeginInitialize (done : Done) (init : Addr) (_flags : BitVec 32) : Done × Bool :=
  (some done.set, !decide (init ∈ done.set))

/-- `init_once_complete`. -/
def initOnceComplete (done : Done) (init : Addr) (_flags : BitVec 32) : Done :=
  some (insert init done.set)

/-- `INIT_ONCE_INIT_FAILED` -/
def initFailed (flags : BitVec 32) : Bool := flags &&& 4 ≠ 0

inductive Pc
  | idle
  /-- In `InitOnceBeginInitialize`, past the look at the set. -/
  | answering (init : Addr) (pending : Bool)
  deriving DecidableEq

structure State (n : Nat) where
  done : Done
  pc : Fin n → Pc
  /-- The `pending = TRUE` answers of the thread that it has not completed yet. -/
  running : Fin n → Addr → Nat
  initialised : Addr → Bool
  completed : Addr → Bool

inductive Action
  /-- `InitOnceBeginInitialize`, as far as the look. -/
  | begin_ (init : Addr) (flags : BitVec 32)
  /-- It writes `*pending` and returns. -/
  | answer
  | complete (init : Addr) (flags : BitVec 32)
  /-- A new `INIT_ONCE` takes the place of the one that was there. -/
  | recreate (init : Addr)
  deriving DecidableEq

variable {n : Nat}

/-- The thread has been told to run the initialiser, or is about to be told so, and has not
    completed. -/
def State.Busy (s : State n) (t : Fin n) (a : Addr) : Prop :=
  0 < s.running t a ∨ s.pc t = .answering a true

instance (s : State n) (t : Fin n) (a : Addr) : Decidable (s.Busy t a) :=
  inferInstanceAs (Decidable (_ ∨ _))

/-- No thread is in a call for the address or runs an initialiser for it. -/
def State.Unused (s : State n) (a : Addr) : Prop :=
  ∀ t, s.running t a = 0 ∧ ∀ pending, s.pc t ≠ .answering a pending

instance (s : State n) (a : Addr) : Decidable (s.Unused a) :=
  inferInstanceAs (Decidable (∀ t, s.running t a = 0 ∧ ∀ pending, s.pc t ≠ .answering a pending))

def State.setRunning (s : State n) (t : Fin n) (a : Addr) (k : Nat) : State n :=
  { s with running := Function.update s.running t (Function.update (s.running t) a k) }

def State.next (s : State n) : Fin n × Action → Option (State n)
  | (t, .begin_ init flags) =>
    if s.pc t = .idle then
      let r := initOnceBeginInitialize s.done init flags
      some { s with done := r.1, pc := Function.update s.pc t (.answering init r.2) }
    else none
  | (t, .answer) =>
    match s.pc t with
    | .answering init pending =>
      some { s.setRunning t init (s.running t init + pending.toNat) with
        pc := Function.update s.pc t .idle }
    | .idle => none
  | (t, .complete init flags) =>
    if s.pc t = .idle ∧ 0 < s.running t init then
      some { s.setRunning t init (s.running t init - 1) with
        done := initOnceComplete s.done init flags
        initialised := Function.update s.initialised init
          (s.initialised init || !initFailed flags)
        completed := Function.update s.completed init true }
    else none
  | (_, .recreate init) =>
    if s.Unused init then
      some { s with initialised := Function.update s.initialised init false }
    else none

/-- Nothing has been initialised yet. -/
def State.start (n : Nat) : State n where
  done := none
  pc _ := .idle
  running _ _ := 0
  initialised _ := false
  completed _ := false

def machine (n : Nat) : Machine (State n) (Fin n × Action) where
  init s := s = .start n
  next := State.next

/-! ## What one-time initialisation is -/

/-- Initialisation runs once, and whoever asks is told the truth about it. -/
structure Once (s : State n) : Prop where
  /-- One initialiser at a time. -/
  exclusive : ∀ a t u, s.Busy t a → s.Busy u a → t = u
  /-- A thread is told to initialise exactly as long as nobody has done it. -/
  answers : ∀ t a pending, s.pc t = .answering a pending →
    (pending = true ↔ s.initialised a = false)

/-- The thread begins where the set of completed addresses gives the right answer: the structure is
    initialised if one at its address was ever completed, and unless it is, no other thread is busy
    with it. Every other step is clean. -/
def Clean (s : State n) : Fin n × Action → Prop
  | (t, .begin_ init _) => (s.completed init = true → s.initialised init = true) ∧
    (s.initialised init = true ∨ ∀ u, u ≠ t → ¬ s.Busy u init)
  | _ => True

/-! ## The invariant -/

/-- `Once` is kept because the set of completed addresses is exactly what was completed. -/
structure Inv (s : State n) : Prop extends Once s where
  done : ∀ a, a ∈ s.done.set ↔ s.completed a = true
  completed : ∀ a, s.initialised a = true → s.completed a = true

variable {s s' : State n} {t : Fin n} {a : Addr}

theorem inv_start : Inv (State.start n) := by
  constructor
  · constructor
    · intro a t u ht
      simp [State.Busy, State.start] at ht
    · intro t a pending hpc
      cases hpc
  · intro a
    simp [State.start, Done.set]
  · intro a h
    cases h

/-- What a begin answers. -/
theorem Inv.pending (h : Inv s) (a : Addr) (flags : BitVec 32) :
    (initOnceBeginInitialize s.done a flags).2 = !s.completed a := by
  have hdone := h.done a
  unfold initOnceBeginInitialize
  by_cases hmem : a ∈ s.done.set
  · simp [hmem, hdone.mp hmem]
  · have hnot : s.completed a = false := by
      rw [← Bool.not_eq_true]
      exact fun hc => hmem (hdone.mpr hc)
    simp [hmem, hnot]

theorem Inv.begin_ (h : Inv s) {flags : BitVec 32} (hclean : Clean s (t, .begin_ a flags))
    (hn : s.next (t, .begin_ a flags) = some s') : Inv s' := by
  simp only [State.next, Option.ite_none_right_eq_some, Option.some.injEq] at hn
  obtain ⟨hidle, rfl⟩ := hn
  rw [h.pending]
  obtain ⟨hused, halone⟩ := hclean
  have hcomplete : s.completed a = s.initialised a := by
    rw [Bool.eq_iff_iff]
    exact ⟨hused, h.completed a⟩
  rw [hcomplete]
  -- Only `t` may have become busy, and then nobody else is.
  have hbusy : ∀ u b, State.Busy { s with
      done := (initOnceBeginInitialize s.done a flags).1
      pc := Function.update s.pc t (.answering a (!s.initialised a)) } u b →
      s.Busy u b ∨ u = t ∧ b = a ∧ ∀ v, v ≠ t → ¬ s.Busy v a := by
    intro u b hu
    by_cases hut : u = t
    · subst hut
      simp only [State.Busy, Function.update_self, Pc.answering.injEq, Bool.not_eq_true'] at hu
      rcases hu with hu | ⟨rfl, hfresh⟩
      · exact Or.inl (Or.inl hu)
      · exact Or.inr ⟨rfl, rfl, halone.resolve_left (by rw [hfresh]; exact Bool.false_ne_true)⟩
    · simp only [State.Busy, Function.update_of_ne hut] at hu
      exact Or.inl hu
  constructor
  · constructor
    · intro b u v hu hv
      rcases hbusy u b hu with hu' | ⟨hut, hba, hnone⟩
      · rcases hbusy v b hv with hv' | ⟨hvt, hba, hnone⟩
        · exact h.exclusive b u v hu' hv'
        · by_contra hne
          exact hnone u (fun heq => hne (heq.trans hvt.symm)) (hba ▸ hu')
      · rcases hbusy v b hv with hv' | ⟨hvt, -, -⟩
        · by_contra hne
          exact hnone v (fun heq => hne (hut.trans heq.symm)) (hba ▸ hv')
        · exact hut.trans hvt.symm
    · intro u b pending hu
      by_cases hut : u = t
      · subst hut
        simp only [Function.update_self, Pc.answering.injEq] at hu
        obtain ⟨rfl, rfl⟩ := hu
        simp
      · simp only [Function.update_of_ne hut] at hu
        exact h.answers u b pending hu
  · exact h.done
  · exact h.completed

theorem Inv.answer (h : Inv s) (hn : s.next (t, .answer) = some s') : Inv s' := by
  cases hpc : s.pc t with
  | idle =>
    simp only [State.next, hpc] at hn
    cases hn
  | answering a pending =>
    simp only [State.next, hpc, Option.some.injEq] at hn
    subst hn
    have hbusy : ∀ u b, State.Busy { s.setRunning t a (s.running t a + pending.toNat) with
        pc := Function.update s.pc t .idle } u b → s.Busy u b := by
      intro u b hu
      by_cases hut : u = t
      · subst hut
        by_cases hba : b = a
        · subst hba
          simp only [State.Busy, State.setRunning, Function.update_self, reduceCtorEq,
            or_false] at hu
          cases pending with
          | true => exact Or.inr hpc
          | false => exact Or.inl hu
        · simp only [State.Busy, State.setRunning, Function.update_self,
            Function.update_of_ne hba, reduceCtorEq, or_false] at hu
          exact Or.inl hu
      · simp only [State.Busy, State.setRunning, Function.update_of_ne hut] at hu
        exact hu
    constructor
    · constructor
      · intro b u v hu hv
        exact h.exclusive b u v (hbusy u b hu) (hbusy v b hv)
      · intro u b p hu
        by_cases hut : u = t
        · subst hut
          simp at hu
        · simp only [Function.update_of_ne hut] at hu
          exact h.answers u b p hu
    · exact h.done
    · exact h.completed

theorem Inv.complete (h : Inv s) {flags : BitVec 32}
    (hn : s.next (t, .complete a flags) = some s') : Inv s' := by
  simp only [State.next, Option.ite_none_right_eq_some, Option.some.injEq] at hn
  obtain ⟨⟨hidle, hrun⟩, rfl⟩ := hn
  have hbusy : ∀ u b, State.Busy { s.setRunning t a (s.running t a - 1) with
      done := initOnceComplete s.done a flags
      initialised := Function.update s.initialised a (s.initialised a || !initFailed flags)
      completed := Function.update s.completed a true } u b → s.Busy u b := by
    intro u b hu
    simp only [State.Busy, State.setRunning] at hu
    refine hu.imp_left ?_
    intro hpos
    by_cases hut : u = t
    · subst hut
      by_cases hba : b = a
      · subst hba
        exact hrun
      · simpa [hba] using hpos
    · simpa [hut] using hpos
  constructor
  · constructor
    · intro b u v hu hv
      exact h.exclusive b u v (hbusy u b hu) (hbusy v b hv)
    · intro u b pending hu
      have hold := h.answers u b pending hu
      by_cases hba : b = a
      · subst hba
        have hne : pending = false := by
          rw [← Bool.not_eq_true]
          intro hp
          subst hp
          have hut := h.exclusive b u t (Or.inr hu) (Or.inl hrun)
          subst hut
          have hcall : s.pc u = .answering b true := hu
          rw [hidle] at hcall
          cases hcall
        subst hne
        have hdone : s.initialised b = true := by simpa using hold
        simp [hdone]
      · simpa [hba] using hold
  · intro b
    by_cases hba : b = a
    · subst hba
      simp [initOnceComplete, Done.set]
    · simpa [initOnceComplete, Done.set, hba] using h.done b
  · intro b hb
    by_cases hba : b = a
    · subst hba
      simp
    · simp only [Function.update_of_ne hba] at hb ⊢
      exact h.completed b hb

theorem Inv.recreate (h : Inv s) (hn : s.next (t, .recreate a) = some s') : Inv s' := by
  simp only [State.next, Option.ite_none_right_eq_some, Option.some.injEq] at hn
  obtain ⟨hunused, rfl⟩ := hn
  constructor
  · constructor
    · exact h.exclusive
    · intro u b pending hu
      have hba : b ≠ a := by
        intro hba
        subst hba
        exact (hunused u).2 pending hu
      simpa [hba] using h.answers u b pending hu
  · exact h.done
  · intro b hb
    by_cases hba : b = a
    · subst hba
      simp at hb
    · simp only [Function.update_of_ne hba] at hb
      exact h.completed b hb

theorem Inv.step (h : Inv s) {c : Fin n × Action} (hclean : Clean s c)
    (hn : (machine n).next s c = some s') : Inv s' := by
  obtain ⟨t, c⟩ := c
  cases c with
  | begin_ a flags => exact h.begin_ hclean hn
  | answer => exact h.answer hn
  | complete a flags => exact h.complete hn
  | recreate a => exact h.recreate (t := t) hn

theorem Inv.step_not_clean (h : Inv s) {c : Fin n × Action} (hnot : ¬ Clean s c)
    (hn : (machine n).next s c = some s') : ¬ Once s' := by
  obtain ⟨t, c⟩ := c
  cases c with
  | answer | complete a flags | recreate a => exact absurd trivial hnot
  | begin_ a flags =>
    simp only [machine, State.next, Option.ite_none_right_eq_some, Option.some.injEq] at hn
    obtain ⟨hidle, rfl⟩ := hn
    rw [h.pending]
    intro honce
    have hanswer := honce.answers t a (!s.completed a) (by simp)
    have hcomplete : s.completed a = s.initialised a := by
      cases hc : s.completed a <;> cases hi : s.initialised a <;> simp_all
    apply hnot
    refine ⟨fun hc => hcomplete ▸ hc, ?_⟩
    by_cases hinit : s.initialised a = true
    · exact Or.inl hinit
    · refine Or.inr ?_
      intro u hu hbusy
      apply hu
      apply honce.exclusive a u t
      · simpa [State.Busy, hu] using hbusy
      · right
        simp [hcomplete, hinit]

theorem inv_of_clean (h : (machine n).ReachableIf Clean s) : Inv s := by
  apply h.invariant
  · intro s hs
    cases hs
    exact inv_start
  · exact fun _ _ _ hinv hclean hn => hinv.step hclean hn

/-- **One-time initialisation runs once exactly while every begin is clean.** Whatever the threads
    do next, the property survives the step if and only if the step is clean. -/
theorem runs_once_iff_clean (h : (machine n).ReachableIf Clean s) :
    Once s ∧ ∀ c s', (machine n).next s c = some s' → (Once s' ↔ Clean s c) := by
  have hinv := inv_of_clean h
  refine ⟨hinv.toOnce, ?_⟩
  intro c s' hn
  constructor
  · intro honce
    by_contra hnot
    exact hinv.step_not_clean hnot hn honce
  · intro hclean
    exact (hinv.step hclean hn).toOnce

/-- Thread 0 initialises, and thread 1 asks afterwards. -/
def oneAfterOther : State 2 :=
  ((machine 2).exec (.start 2) [(0, .begin_ 0x1000 0), (0, .answer), (0, .complete 0x1000 0),
    (1, .begin_ 0x1000 0)]).getD (.start 2)

theorem oneAfterOther_clean : (machine 2).ReachableIf Clean oneAfterOther := by
  have h₀ : (machine 2).ReachableIf Clean (.start 2) := .start rfl
  have h₁ := h₀.step (a := (0, .begin_ 0x1000 0)) (by exact ⟨nofun, Or.inr (by decide)⟩) rfl
  have h₂ := h₁.step (a := (0, .answer)) (by trivial) rfl
  have h₃ := h₂.step (a := (0, .complete 0x1000 0)) (by trivial) rfl
  exact h₃.step (a := (1, .begin_ 0x1000 0)) (by exact ⟨fun _ => rfl, Or.inl rfl⟩) rfl

theorem runs_once_iff_clean_oneAfterOther :
    Once oneAfterOther ∧ ∀ c s', (machine 2).next oneAfterOther c = some s' →
      (Once s' ↔ Clean oneAfterOther c) :=
  runs_once_iff_clean oneAfterOther_clean

/-! ## Three runs that are not clean -/

/-- Two threads begin, and both are told to initialise. -/
def bothBegin : List (Fin 2 × Action) :=
  [(0, .begin_ 0x1000 0), (0, .answer), (1, .begin_ 0x1000 0), (1, .answer)]

/-- An initialiser fails, and the next thread is told that there is nothing left to do. -/
def failedOnce : List (Fin 2 × Action) :=
  [(0, .begin_ 0x1000 0), (0, .answer), (0, .complete 0x1000 4), (1, .begin_ 0x1000 0)]

/-- A new structure where an initialised one has been. -/
def recreated : List (Fin 2 × Action) :=
  [(0, .begin_ 0x1000 0), (0, .answer), (0, .complete 0x1000 0), (0, .recreate 0x1000),
    (1, .begin_ 0x1000 0)]

theorem not_once :
    (∃ s, (machine 2).exec (.start 2) bothBegin = some s ∧ s.running 0 0x1000 = 1 ∧
      s.running 1 0x1000 = 1 ∧ ¬ Once s) ∧
    ∀ run ∈ [failedOnce, recreated], ∃ s, (machine 2).exec (.start 2) run = some s ∧
      s.initialised 0x1000 = false ∧ s.pc 1 = .answering 0x1000 false ∧ ¬ Once s := by
  constructor
  · refine ⟨_, rfl, rfl, rfl, ?_⟩
    intro h
    exact absurd (h.exclusive 0x1000 0 1 (by decide) (by decide)) (by decide)
  · intro run hrun
    rcases List.mem_pair.mp hrun with rfl | rfl
    · refine ⟨_, rfl, rfl, rfl, ?_⟩
      intro h
      exact absurd (h.answers 1 0x1000 false rfl) (by decide)
    · refine ⟨_, rfl, rfl, rfl, ?_⟩
      intro h
      exact absurd (h.answers 1 0x1000 false rfl) (by decide)

end WinCompat.Sync.InitOnce
