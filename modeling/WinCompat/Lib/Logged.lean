import Mathlib.Data.BitVec

/-!
# Partial computations with a log

`Logged ω α` is what a program that may give up returns, and what it has logged until then. A
program's value is that of the program without the log (`value_bind`), and something is in the log
of a sequence if one of the parts that were run has logged it (`mem_log_bind`).
-/

namespace WinCompat.Lib

/-- A value unless the program has given up, and all that was logged until then. -/
structure Logged (ω α : Type) where
  value : Option α
  log : List ω

namespace Logged

variable {ω α β : Type}

protected def pure (a : α) : Logged ω α := ⟨some a, []⟩

/-- Once a part has given up the rest is not run, and logs nothing. -/
protected def bind (x : Logged ω α) (k : α → Logged ω β) : Logged ω β :=
  match x.value with
  | none => ⟨none, x.log⟩
  | some a => ⟨(k a).value, x.log ++ (k a).log⟩

instance : Monad (Logged ω) where
  pure := Logged.pure
  bind := Logged.bind

/-- Logs one entry. -/
def tell (w : ω) : Logged ω Unit := ⟨some (), [w]⟩

def ofOption (o : Option α) : Logged ω α := ⟨o, []⟩

/-- Go on with what has become of the program. -/
def attempt (x : Logged ω α) : Logged ω (Option α) := ⟨some x.value, x.log⟩

@[simp] theorem value_pure (a : α) : (pure a : Logged ω α).value = some a := rfl

@[simp] theorem log_pure (a : α) : (pure a : Logged ω α).log = [] := rfl

@[simp] theorem value_tell (w : ω) : (tell w).value = some () := rfl

@[simp] theorem log_tell (w : ω) : (tell w).log = [w] := rfl

@[simp] theorem value_ofOption (o : Option α) : (ofOption o : Logged ω α).value = o := rfl

@[simp] theorem log_ofOption (o : Option α) : (ofOption o : Logged ω α).log = [] := rfl

@[simp] theorem value_attempt (x : Logged ω α) : x.attempt.value = some x.value := rfl

@[simp] theorem log_attempt (x : Logged ω α) : x.attempt.log = x.log := rfl

@[simp] theorem value_bind (x : Logged ω α) (k : α → Logged ω β) :
    (x >>= k).value = x.value.bind fun a => (k a).value := by
  show (Logged.bind x k).value = _
  unfold Logged.bind
  cases x.value with
  | none => rfl
  | some a => rfl

/-- The second part counts only at the value that the first has returned, which is what ties an
    entry of the log to the point in the program where it was made. -/
@[simp] theorem mem_log_bind {x : Logged ω α} {k : α → Logged ω β} {w : ω} :
    w ∈ (x >>= k).log ↔ w ∈ x.log ∨ ∃ a, x.value = some a ∧ w ∈ (k a).log := by
  show w ∈ (Logged.bind x k).log ↔ _
  unfold Logged.bind
  cases hx : x.value with
  | none => simp
  | some a => simp

end Logged

end WinCompat.Lib
