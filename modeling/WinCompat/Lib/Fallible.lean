import Mathlib.Data.BitVec

/-!
# Computations that may fail and keep what they did

`Fallible σ ε α` returns a value or an error, and a state in either case: a failure does not undo
the steps before it.
-/

namespace WinCompat.Lib

universe u v w

/-- The state comes with the value and with the error alike, so that what a failed computation has
    done already can be spoken of. -/
def Fallible (σ : Type u) (ε : Type v) (α : Type w) := σ → Except ε α × σ

namespace Fallible

variable {σ ε α β : Type}

protected def pure (a : α) : Fallible σ ε α := fun s => (.ok a, s)

/-- The first error ends the sequence, in the state where it was raised. -/
protected def bind (x : Fallible σ ε α) (k : α → Fallible σ ε β) : Fallible σ ε β := fun s =>
  match x s with
  | (.ok a, s') => k a s'
  | (.error e, s') => (.error e, s')

instance : Monad (Fallible σ ε) where
  pure := Fallible.pure
  bind := Fallible.bind

/-- Fails on the spot and changes nothing. -/
def throw (e : ε) : Fallible σ ε α := fun s => (.error e, s)

def get : Fallible σ ε σ := fun s => (.ok s, s)

def modify (f : σ → σ) : Fallible σ ε Unit := fun s => (.ok (), f s)

/-- A value and a new state, without a failure. -/
def run (f : σ → α × σ) : Fallible σ ε α := fun s => (.ok (f s).1, (f s).2)

/-- Succeeds unless there is an error. -/
def check : Option ε → Fallible σ ε Unit
  | none => Fallible.pure ()
  | some e => throw e

/-- A result that was computed without the state. -/
def lift : Except ε α → Fallible σ ε α
  | .ok a => Fallible.pure a
  | .error e => throw e

/-- The second, after what a failure of the first has left. -/
def orElse (x y : Fallible σ ε α) : Fallible σ ε α := fun s =>
  match x s with
  | (.ok a, s') => (.ok a, s')
  | (.error _, s') => y s'

theorem pure_apply (a : α) (s : σ) : (pure a : Fallible σ ε α) s = (.ok a, s) := rfl

theorem bind_ok {x : Fallible σ ε α} {k : α → Fallible σ ε β} {s s' : σ} {a : α}
    (h : x s = (.ok a, s')) : (x >>= k) s = k a s' := by
  show Fallible.bind x k s = k a s'
  unfold Fallible.bind
  rw [h]

theorem bind_error {x : Fallible σ ε α} {k : α → Fallible σ ε β} {s s' : σ} {e : ε}
    (h : x s = (.error e, s')) : (x >>= k) s = (.error e, s') := by
  show Fallible.bind x k s = (.error e, s')
  unfold Fallible.bind
  rw [h]

/-- The steps of a sequence may be grouped in any way. So a long function is cut into parts by an
    equation, and each part is proved about by itself. -/
theorem bind_assoc {γ : Type} (x : Fallible σ ε α) (f : α → Fallible σ ε β)
    (g : β → Fallible σ ε γ) : x >>= f >>= g = x >>= fun a => f a >>= g := by
  funext s
  cases hfirst : x s with
  | mk result s₁ =>
    cases result with
    | ok a =>
      rw [bind_ok hfirst]
      cases hsecond : f a s₁ with
      | mk result s₂ =>
        have hxf : (x >>= f) s = (result, s₂) := (bind_ok hfirst).trans hsecond
        cases result with
        | ok b => rw [bind_ok hxf, bind_ok hsecond]
        | error e => rw [bind_error hxf, bind_error hsecond]
    | error e =>
      rw [bind_error hfirst, bind_error (bind_error hfirst)]

/-! ## Running the first step -/

section Steps

variable {s : σ} {k : Unit → Fallible σ ε β}

@[simp] theorem bind_get (k : σ → Fallible σ ε β) : (get >>= k) s = k s s := bind_ok rfl

@[simp] theorem bind_modify {f : σ → σ} : (modify f >>= k) s = k () (f s) := bind_ok rfl

@[simp] theorem modify_apply (f : σ → σ) :
    (modify f : Fallible σ ε Unit) s = (.ok (), f s) := rfl

@[simp] theorem bind_run {f : σ → α × σ} (k : α → Fallible σ ε β) :
    (run f >>= k) s = k (f s).1 (f s).2 := bind_ok rfl

@[simp] theorem bind_pure (a : α) (k : α → Fallible σ ε β) : (pure a >>= k) s = k a s := bind_ok rfl

@[simp] theorem bind_throw (e : ε) (k : α → Fallible σ ε β) : (throw e >>= k) s = (.error e, s) :=
  bind_error rfl

@[simp] theorem bind_check_none : (check none >>= k) s = k () s := bind_ok rfl

@[simp] theorem bind_check_some (e : ε) : (check (some e) >>= k) s = (.error e, s) := bind_error rfl

@[simp] theorem bind_lift_ok (a : α) (k : α → Fallible σ ε β) :
    (lift (.ok a) >>= k) s = k a s := bind_ok rfl

@[simp] theorem bind_lift_error (e : ε) (k : α → Fallible σ ε β) :
    (lift (.error e) >>= k) s = (.error e, s) := bind_error rfl

end Steps

/-! ## When a computation succeeds -/

/-- It returns a value. The `succeeds_*` rules read off the steps of a sequence what that takes. -/
def Succeeds (x : Fallible σ ε α) (s : σ) : Prop := ∃ a s', x s = (.ok a, s')

section Succeeds

variable {s : σ} {k : Unit → Fallible σ ε β}

@[simp] theorem succeeds_pure (a : α) : Succeeds (pure a : Fallible σ ε α) s := ⟨a, s, rfl⟩

@[simp] theorem not_succeeds_throw (e : ε) : ¬Succeeds (throw e : Fallible σ ε α) s := by
  rintro ⟨a, s', h⟩
  cases h

@[simp] theorem succeeds_check {e : Option ε} : Succeeds (check e : Fallible σ ε Unit) s ↔ e = none := by
  cases e with
  | none => exact iff_of_true (succeeds_pure ()) rfl
  | some e => exact iff_of_false (not_succeeds_throw e) (Option.some_ne_none e)

@[simp] theorem succeeds_bind_pure {x : Fallible σ ε α} {f : α → β} :
    Succeeds (x >>= fun a => pure (f a)) s ↔ Succeeds x s := by
  cases heq : x s with
  | mk result s' =>
    unfold Succeeds
    cases result with
    | ok a => simp [bind_ok heq, pure_apply, heq]
    | error e => simp [bind_error heq, heq]

@[simp] theorem succeeds_bind_check {e : Option ε} :
    Succeeds (check e >>= k) s ↔ e = none ∧ Succeeds (k ()) s := by
  unfold Succeeds
  cases e <;> simp

@[simp] theorem succeeds_bind_run {f : σ → α × σ} {k : α → Fallible σ ε β} :
    Succeeds (run f >>= k) s ↔ Succeeds (k (f s).1) (f s).2 := by
  unfold Succeeds
  rw [bind_run]

@[simp] theorem succeeds_bind_lift {r : Except ε α} {k : α → Fallible σ ε β} :
    Succeeds (lift r >>= k) s ↔ ∃ a, r = .ok a ∧ Succeeds (k a) s := by
  unfold Succeeds
  cases r <;> simp

@[simp] theorem succeeds_modify {f : σ → σ} : Succeeds (modify f : Fallible σ ε Unit) s :=
  ⟨(), f s, rfl⟩

@[simp] theorem succeeds_bind_modify {f : σ → σ} :
    Succeeds (modify f >>= k) s ↔ Succeeds (k ()) (f s) := by
  unfold Succeeds
  rw [bind_modify]

theorem not_error_of_succeeds {x : Fallible σ ε α} (h : Succeeds x s) {e : ε} {s' : σ} :
    x s ≠ (.error e, s') := by
  obtain ⟨a, s₁, ha⟩ := h
  rw [ha]
  intro heq
  cases heq

theorem exists_error_of_not_succeeds {x : Fallible σ ε α} (h : ¬Succeeds x s) :
    ∃ e s', x s = (.error e, s') := by
  cases heq : x s with
  | mk result s' =>
    cases result with
    | ok a => exact absurd ⟨a, s', heq⟩ h
    | error e => exact ⟨e, s', rfl⟩

/-- A sequence succeeds when its first part does and the rest does from the state this leaves. -/
theorem succeeds_bind_iff {x : Fallible σ ε α} {k : α → Fallible σ ε β} :
    Succeeds (x >>= k) s ↔ ∃ a s', x s = (.ok a, s') ∧ Succeeds (k a) s' := by
  cases heq : x s with
  | mk result s' =>
    unfold Succeeds
    cases result with
    | ok a => simp [bind_ok heq]
    | error e => simp [bind_error heq]

end Succeeds

/-! ## What a computation keeps, however it ends -/

/-- The property is kept whether the computation succeeds or fails. -/
def Keeps (I : σ → Prop) (x : Fallible σ ε α) : Prop := ∀ s, I s → I (x s).2

section Keeps

variable {I : σ → Prop} {x : Fallible σ ε α} {k : α → Fallible σ ε β}

theorem keeps_pure (a : α) : Keeps I (pure a : Fallible σ ε α) := fun _ h => h

theorem keeps_throw (e : ε) : Keeps I (throw e : Fallible σ ε α) := fun _ h => h

theorem keeps_check (e : Option ε) : Keeps I (check e) := by
  cases e with
  | none => exact keeps_pure ()
  | some e => exact keeps_throw e

theorem keeps_modify {f : σ → σ} (h : ∀ s, I s → I (f s)) :
    Keeps I (modify f : Fallible σ ε Unit) := h

/-- A sequence keeps what its parts keep. The second part is asked about every value, since what the
    first returns is not known. -/
theorem Keeps.bind (hx : Keeps I x) (hk : ∀ a, Keeps I (k a)) : Keeps I (x >>= k) := by
  intro s hs
  cases heq : x s with
  | mk result s' =>
    have hs' : I s' := by simpa [heq] using hx s hs
    cases result with
    | error e =>
      rw [bind_error heq]
      exact hs'
    | ok a =>
      rw [bind_ok heq]
      exact hk a s' hs'

/-- What is done with the state may depend on it. -/
theorem keeps_get {k : σ → Fallible σ ε β} (h : ∀ s, I s → I (k s s).2) :
    Keeps I (get >>= k) := by
  intro s hs
  rw [bind_get]
  exact h s hs

/-- The property is kept if the computation fails. -/
def KeepsOnError (I : σ → Prop) (x : Fallible σ ε α) : Prop :=
  ∀ s e s', I s → x s = (.error e, s') → I s'

theorem Keeps.onError (h : Keeps I x) : KeepsOnError I x := by
  intro s e s' hs heq
  simpa [heq] using h s hs

/-- Of the parts before the one that fails all must keep the property, so the first has to keep it
    outright. -/
theorem KeepsOnError.bind (hx : Keeps I x) (hk : ∀ a, KeepsOnError I (k a)) :
    KeepsOnError I (x >>= k) := by
  intro s e s' hs heq
  cases hfirst : x s with
  | mk result s₁ =>
    have hs₁ : I s₁ := by simpa [hfirst] using hx s hs
    cases result with
    | ok a =>
      rw [bind_ok hfirst] at heq
      exact hk a s₁ e s' hs₁ heq
    | error e₁ =>
      rw [bind_error hfirst] at heq
      cases heq
      exact hs₁

/-- A second part that always succeeds is never what fails, so nothing is asked of it. -/
theorem KeepsOnError.then (hx : KeepsOnError I x) (hk : ∀ a s, Succeeds (k a) s) :
    KeepsOnError I (x >>= k) := by
  intro s e s' hs heq
  cases hfirst : x s with
  | mk result s₁ =>
    cases result with
    | ok a =>
      rw [bind_ok hfirst] at heq
      exact absurd heq (not_error_of_succeeds (hk a s₁))
    | error e₁ =>
      rw [bind_error hfirst] at heq
      cases heq
      exact hx s e s' hs hfirst

end Keeps

end Fallible

end WinCompat.Lib
