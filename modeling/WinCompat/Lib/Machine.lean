import Mathlib.Data.BitVec

/-!
# Labelled machines, and what holds of every run

A machine is an initial condition and a partial successor function. Everything a scheduler,
an operating system or a peer may choose is in the label, so `next` itself is a function and
a run can be replayed by evaluation.

Two notions of "every run" are needed. `Reachable` is the plain one. `ReachableIf ok` counts
only the runs all of whose steps pass `ok` — a condition on the state *before* the step and on
the label — which is how a result that holds outside a known defect is stated.
-/

namespace WinCompat.Lib

universe u v w

/-- Two threads, as the examples have. -/
instance neZero_two : NeZero 2 := ⟨by decide⟩

/-- A transition system whose nondeterminism is in its labels. -/
structure Machine (σ : Type u) (α : Type v) where
  /-- The states a run may start in. -/
  init : σ → Prop
  /-- The state a label leads to, `none` when the label is not enabled. -/
  next : σ → α → Option σ

namespace Machine

variable {σ : Type u} {α : Type v} {M : Machine σ α}

/-- The states reached by runs all of whose steps pass `ok`. -/
inductive ReachableIf (M : Machine σ α) (ok : σ → α → Prop) : σ → Prop
  | start {s : σ} (h : M.init s) : ReachableIf M ok s
  | step {s s' : σ} {a : α} (h : ReachableIf M ok s) (hok : ok s a)
      (hn : M.next s a = some s') : ReachableIf M ok s'

/-- The states reached by any run. -/
def Reachable (M : Machine σ α) (s : σ) : Prop :=
  M.ReachableIf (fun _ _ => True) s

variable {ok : σ → α → Prop}

variable {P : σ → Prop}

theorem ReachableIf.invariant {s : σ} (h : M.ReachableIf ok s) (hinit : ∀ s, M.init s → P s)
    (hstep : ∀ s a s', P s → ok s a → M.next s a = some s' → P s') : P s := by
  induction h with
  | start h => exact hinit _ h
  | step _ hok hn ih => exact hstep _ _ _ ih hok hn

theorem ReachableIf.mono {ok ok' : σ → α → Prop} {s : σ} (h : M.ReachableIf ok s)
    (himp : ∀ s a, ok s a → ok' s a) : M.ReachableIf ok' s := by
  induction h with
  | start h => exact .start h
  | step _ hok hn ih => exact .step ih (himp _ _ hok) hn

theorem Reachable.invariant {s : σ} (h : M.Reachable s) (hinit : ∀ s, M.init s → P s)
    (hstep : ∀ s a s', P s → M.next s a = some s' → P s') : P s :=
  ReachableIf.invariant h hinit fun s a s' hp _ hn => hstep s a s' hp hn

/-! ## Continuing a run -/

/-- `s'` is reached from `s` by some labels. -/
def Run (M : Machine σ α) : σ → σ → Prop :=
  Relation.ReflTransGen fun s s' => ∃ a, M.next s a = some s'

theorem Run.refl {s : σ} : M.Run s s := Relation.ReflTransGen.refl

theorem Run.trans {s s₁ s' : σ} (h : M.Run s s₁) (h' : M.Run s₁ s') : M.Run s s' :=
  Relation.ReflTransGen.trans h h'

theorem Run.one {s : σ} (a : α) (s' : σ) (h : M.next s a = some s') : M.Run s s' :=
  Relation.ReflTransGen.single ⟨a, h⟩

variable {s s' : σ}

theorem Reachable.run (hs : M.Reachable s) (h : M.Run s s') : M.Reachable s' := by
  induction h with
  | refl => exact hs
  | tail _ hn ih => exact .step ih trivial hn.choose_spec

/-- `s'` is reached from `s` by labels that pass `ok`. -/
def RunIf (M : Machine σ α) (ok : σ → α → Prop) : σ → σ → Prop :=
  Relation.ReflTransGen fun s s' => ∃ a, ok s a ∧ M.next s a = some s'

theorem RunIf.invariant (h : M.RunIf ok s s') (hs : M.Reachable s) (hp : P s)
    (hstep : ∀ s a s', M.Reachable s → P s → ok s a → M.next s a = some s' → P s') :
    M.Reachable s' ∧ P s' := by
  induction h with
  | refl => exact ⟨hs, hp⟩
  | tail _ hn ih =>
    obtain ⟨a, hok, hn⟩ := hn
    exact ⟨.step ih.1 trivial hn, hstep _ a _ ih.1 ih.2 hok hn⟩

/-! ## Every state of a run, and every step -/

/-- `P` holds in `s` and in each state that the labels lead through. A label that is not enabled
    ends the run. -/
def Throughout (M : Machine σ α) (P : σ → Prop) : σ → List α → Prop
  | s, [] => P s
  | s, a :: rest => P s ∧ ∀ s', M.next s a = some s' → Throughout M P s' rest

/-- Each step that the labels take passes `ok`. -/
def Steps (M : Machine σ α) (ok : σ → α → Prop) : σ → List α → Prop
  | _, [] => True
  | s, a :: rest => ∀ s', M.next s a = some s' → ok s a ∧ Steps M ok s' rest

theorem throughout_iff_steps {I P : σ → Prop}
    (hstep : ∀ s a s', I s → P s → M.next s a = some s' → I s' ∧ (P s' ↔ ok s a)) :
    ∀ {l : List α} {s : σ}, I s → P s → (M.Throughout P s l ↔ M.Steps ok s l) := by
  intro l
  induction l with
  | nil => exact fun _ hp => iff_of_true hp trivial
  | cons a rest ih =>
    intro s hi hp
    refine (and_iff_right hp).trans (forall₂_congr fun s' hn => ?_)
    obtain ⟨hi', hiff⟩ := hstep s a s' hi hp hn
    constructor
    · intro h
      have hp' : P s' := by cases rest with
        | nil => exact h
        | cons => exact h.1
      exact ⟨hiff.mp hp', (ih hi' hp').mp h⟩
    · rintro ⟨hok, hrest⟩
      exact (ih hi' (hiff.mpr hok)).mpr hrest

/-! ## Machines side by side -/

/-- Machines that share nothing: a label names the one that moves. -/
def each {ι : Type w} [DecidableEq ι] {σ : ι → Type u} {α : ι → Type v}
    (M : ∀ i, Machine (σ i) (α i)) : Machine (∀ i, σ i) (Σ i, α i) where
  init s := ∀ i, (M i).init (s i)
  next s a := ((M a.1).next (s a.1) a.2).map (Function.update s a.1)

/-- What one of them has done is a run of its own. -/
theorem ReachableIf.component {ι : Type w} [DecidableEq ι] {σ : ι → Type u} {α : ι → Type v}
    {M : ∀ i, Machine (σ i) (α i)} {ok : ∀ i, σ i → α i → Prop} {s : ∀ i, σ i}
    (h : (each M).ReachableIf (fun s a => ok a.1 (s a.1) a.2) s) (i : ι) :
    (M i).ReachableIf (ok i) (s i) := by
  induction h with
  | start h => exact .start (h i)
  | @step s s' a _ hok hn ih =>
    obtain ⟨j, a⟩ := a
    simp only [each, Option.map_eq_some_iff] at hn
    obtain ⟨sj, hn, rfl⟩ := hn
    by_cases hij : i = j
    · subst hij
      rw [Function.update_self]
      exact .step ih hok hn
    · rw [Function.update_of_ne hij]
      exact ih

/-! ## Replaying a run -/

/-- Run the labels of a list in order. -/
def exec (M : Machine σ α) : σ → List α → Option σ
  | s, [] => some s
  | s, a :: rest => (M.next s a).bind (exec M · rest)

theorem ReachableIf.exec (hok : ∀ s a, ok s a) :
    ∀ {l : List α} {s s' : σ}, M.ReachableIf ok s → M.exec s l = some s' →
      M.ReachableIf ok s' := by
  intro l
  induction l with
  | nil => intro s s' hs h; simp only [Machine.exec, Option.some.injEq] at h; exact h ▸ hs
  | cons a rest ih =>
    intro s s' hs h
    simp only [Machine.exec, Option.bind_eq_some_iff] at h
    obtain ⟨s₁, hn, hrest⟩ := h
    exact ih (.step hs (hok s a) hn) hrest

variable {l : List α}

theorem Reachable.exec (hs : M.Reachable s) (h : M.exec s l = some s') : M.Reachable s' :=
  ReachableIf.exec (fun _ _ => trivial) hs h

theorem reachable_of_exec (hs : M.init s) (h : M.exec s l = some s') : M.Reachable s' :=
  Reachable.exec (.start hs) h

/-- Run labels each of which passes `ok`. -/
def execIf (M : Machine σ α) (ok : σ → α → Prop) [∀ s a, Decidable (ok s a)] :
    σ → List α → Option σ
  | s, [] => some s
  | s, a :: rest => if ok s a then (M.next s a).bind (execIf M ok · rest) else none

theorem exec_of_execIf [∀ s a, Decidable (ok s a)] (h : M.execIf ok s l = some s') :
    M.exec s l = some s' := by
  induction l generalizing s with
  | nil => exact h
  | cons a rest ih =>
    simp only [execIf] at h
    split at h
    · obtain ⟨s₁, hn, hrest⟩ := Option.bind_eq_some_iff.mp h
      exact Option.bind_eq_some_iff.mpr ⟨s₁, hn, ih hrest⟩
    · cases h

theorem reachableIf_of_execIf [∀ s a, Decidable (ok s a)] (hs : M.ReachableIf ok s)
    (h : M.execIf ok s l = some s') : M.ReachableIf ok s' := by
  induction l generalizing s with
  | nil =>
    cases h
    exact hs
  | cons a rest ih =>
    simp only [execIf] at h
    split at h
    · rename_i hok
      obtain ⟨s₁, hn, hrest⟩ := Option.bind_eq_some_iff.mp h
      exact ih (.step hs hok hn) hrest
    · cases h

end Machine

end WinCompat.Lib
