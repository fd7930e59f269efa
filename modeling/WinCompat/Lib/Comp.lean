import Mathlib.Data.BitVec

/-!
# Computations that may fail, crash or run out of fuel

`Comp σ ε α` is a computation over a state: it returns a value, reports an error, crashes, or —
because recursion is by fuel — gives up. Three judgements are enough to reason about one.

`Meets` is total: the computation neither crashes nor gives up, and what it returns satisfies a
postcondition. `Only` says what it returns if it returns anything but for want of fuel; it needs no
fuel arithmetic, and `Meets` discharges the other case at the end (`Only.eq`). `Partial` is about
returned values alone, and is how one shows that a computation does *not* return something.
Each has a rule for `pure` and one for `bind`. `Becomes` is for a loop that is entered with something
in hand: the rest of the computation is the loop's.
-/

namespace WinCompat.Lib

universe u v w

inductive Outcome (ε : Type u) (α : Type v)
  | ok (a : α)
  | err (e : ε)
  | panic
  | outOfFuel
  deriving DecidableEq

namespace Outcome

variable {ε α β : Type}

protected def bind (x : Outcome ε α) (k : α → Outcome ε β) : Outcome ε β :=
  match x with
  | .ok a => k a
  | .err e => .err e
  | .panic => .panic
  | .outOfFuel => .outOfFuel

instance : Monad (Outcome ε) where
  pure := .ok
  bind := Outcome.bind

theorem bind_eq_ok {x : Outcome ε α} {k : α → Outcome ε β} {b : β} (h : (x >>= k) = .ok b) :
    ∃ a, x = .ok a ∧ k a = .ok b := by
  cases x with
  | ok a => exact ⟨a, rfl, h⟩
  | err e => cases h
  | panic => cases h
  | outOfFuel => cases h

def toOption : Outcome ε α → Option α
  | .ok a => some a
  | _ => none

/-- It returns something that `p` accepts. -/
def okWith (x : Outcome ε α) (p : α → Bool) : Bool :=
  match x with
  | .ok a => p a
  | _ => false

theorem exists_of_okWith {x : Outcome ε α} {p : α → Bool} (h : x.okWith p = true) :
    ∃ a, x = .ok a ∧ p a = true := by
  cases x with
  | ok a => exact ⟨a, rfl, h⟩
  | _ => cases h

end Outcome

def Comp (σ : Type u) (ε : Type v) (α : Type w) := σ → Outcome ε (α × σ)

namespace Comp

variable {σ ε α β : Type}

protected def pure (a : α) : Comp σ ε α := fun s => .ok (a, s)

protected def bind (x : Comp σ ε α) (k : α → Comp σ ε β) : Comp σ ε β := fun s =>
  match x s with
  | .ok (a, s') => k a s'
  | .err e => .err e
  | .panic => .panic
  | .outOfFuel => .outOfFuel

instance : Monad (Comp σ ε) where
  pure := Comp.pure
  bind := Comp.bind

def throw (e : ε) : Comp σ ε α := fun _ => .err e

def panic : Comp σ ε α := fun _ => .panic

def outOfFuel : Comp σ ε α := fun _ => .outOfFuel

def get : Comp σ ε σ := fun s => .ok (s, s)

def modify (f : σ → σ) : Comp σ ε Unit := fun s => .ok ((), f s)

/-- A result that is read off the state. -/
def read (f : σ → Outcome ε α) : Comp σ ε α := fun s => f s >>= fun a => .ok (a, s)

variable {a : α}

theorem read_eq_ok {f : σ → Outcome ε α} {s s' : σ} (h : read f s = .ok (a, s')) :
    f s = .ok a ∧ s = s' := by
  obtain ⟨b, hb, heq⟩ := Outcome.bind_eq_ok h
  cases heq
  exact ⟨hb, rfl⟩

variable {x : Comp σ ε α} {k : α → Comp σ ε β}

/-- A bind that returns has a first part that does. -/
theorem bind_eq_ok {s s'' : σ} {b : β} (h : (x >>= k) s = .ok (b, s'')) :
    ∃ a s', x s = .ok (a, s') ∧ k a s' = .ok (b, s'') := by
  have h : Comp.bind x k s = .ok (b, s'') := h
  unfold Comp.bind at h
  cases hx : x s with
  | ok r =>
    rw [hx] at h
    exact ⟨r.1, r.2, rfl, h⟩
  | err e => rw [hx] at h; cases h
  | panic => rw [hx] at h; cases h
  | outOfFuel => rw [hx] at h; cases h

theorem bind_ok {s s' : σ} (h : x s = .ok (a, s')) : (x >>= k) s = k a s' := by
  show Comp.bind x k s = k a s'
  unfold Comp.bind
  rw [h]

theorem bind_bind {γ : Type} (x : Comp σ ε α) (k : α → Comp σ ε β) (l : β → Comp σ ε γ) :
    x >>= k >>= l = x >>= fun a => k a >>= l := by
  funext s
  show Comp.bind (Comp.bind x k) l s = Comp.bind x (fun a => Comp.bind (k a) l) s
  unfold Comp.bind
  cases x s <;> rfl

/-! ## Total correctness -/

/-- `x` returns something that satisfies `Q`, or reports an error. -/
def Meets (x : Comp σ ε α) (s : σ) (Q : α → σ → Prop) : Prop :=
  match x s with
  | .ok (a, s') => Q a s'
  | .err _ => True
  | .panic | .outOfFuel => False

variable {s : σ}

theorem Meets.pure {Q : α → σ → Prop} (h : Q a s) : Meets (Pure.pure a : Comp σ ε α) s Q := h

theorem Meets.throw {Q : α → σ → Prop} {e : ε} : Meets (Comp.throw e) s Q := trivial

variable {R : β → σ → Prop}

theorem Meets.bind {Q : α → σ → Prop} (hx : Meets x s Q) (hk : ∀ a s', Q a s' → Meets (k a) s' R) :
    Meets (x >>= k) s R := by
  unfold Meets at hx ⊢
  show match Comp.bind x k s with
    | .ok (a, s') => R a s'
    | .err _ => True
    | .panic | .outOfFuel => False
  unfold Comp.bind
  cases h : x s with
  | ok r => rw [h] at hx; exact hk r.1 r.2 hx
  | err e => trivial
  | panic => rw [h] at hx; exact hx
  | outOfFuel => rw [h] at hx; exact hx

theorem Meets.mono {Q R : α → σ → Prop} (hx : Meets x s Q) (h : ∀ a s', Q a s' → R a s') :
    Meets x s R := by
  unfold Meets at hx ⊢
  cases hs : x s with
  | ok r => rw [hs] at hx; exact h r.1 r.2 hx
  | err e => trivial
  | panic => rw [hs] at hx; exact hx
  | outOfFuel => rw [hs] at hx; exact hx

/-! ## Results up to fuel -/

/-- `x` returns `a` in a state with `Q`, unless it runs out of fuel. -/
def Only (x : Comp σ ε α) (s : σ) (a : α) (Q : σ → Prop) : Prop :=
  (∃ s', x s = .ok (a, s') ∧ Q s') ∨ x s = .outOfFuel

variable {Q : σ → Prop}

theorem Only.of_eq {s s' : σ} (h : x s = .ok (a, s')) (hq : Q s') :
    Only x s a Q := Or.inl ⟨s', h, hq⟩

theorem Only.pure (hq : Q s) : Only (Pure.pure a : Comp σ ε α) s a Q := .of_eq rfl hq

theorem Only.outOfFuel : Only (Comp.outOfFuel : Comp σ ε α) s a Q := Or.inr rfl

theorem Only.bind {b : β} {Q R : σ → Prop} (hx : Only x s a Q) (hk : ∀ s', Q s' → Only (k a) s' b R) :
    Only (x >>= k) s b R := by
  rcases hx with ⟨s', h, hq⟩ | h
  · unfold Only
    rw [bind_ok h]
    exact hk s' hq
  · refine Or.inr ?_
    show Comp.bind x k s = _
    unfold Comp.bind
    rw [h]

theorem Only.eq {R : α → σ → Prop} (hx : Only x s a Q) (hm : Meets x s R) :
    ∃ s', x s = .ok (a, s') ∧ Q s' := by
  rcases hx with h | h
  · exact h
  · unfold Meets at hm
    rw [h] at hm
    exact hm.elim

theorem Only.unique {s s' : σ} {a b : α} (hx : Only x s a Q) (h : x s = .ok (b, s')) :
    b = a ∧ Q s' := by
  rcases hx with ⟨t, ht, hq⟩ | ht
  · rw [h] at ht
    cases ht
    exact ⟨rfl, hq⟩
  · rw [h] at ht
    cases ht

/-! ## Returned values -/

/-- Whatever `x` returns satisfies `Q`. -/
def Partial (x : Comp σ ε α) (s : σ) (Q : α → σ → Prop) : Prop :=
  ∀ a s', x s = .ok (a, s') → Q a s'

theorem Partial.pure {Q : α → σ → Prop} (h : Q a s) : Partial (Pure.pure a : Comp σ ε α) s Q := by
  intro b s' hb
  cases hb
  exact h

theorem Partial.outOfFuel {Q : α → σ → Prop} : Partial (Comp.outOfFuel : Comp σ ε α) s Q := by
  intro b s' hb
  cases hb

theorem Partial.throw {Q : α → σ → Prop} {e : ε} : Partial (Comp.throw e : Comp σ ε α) s Q := by
  intro b s' hb
  cases hb

theorem Partial.bind {Q : α → σ → Prop} (hx : Partial x s Q)
    (hk : ∀ a s', Q a s' → Partial (k a) s' R) : Partial (x >>= k) s R := by
  intro b s'' hb
  have hb : Comp.bind x k s = .ok (b, s'') := hb
  unfold Comp.bind at hb
  cases h : x s with
  | ok r => rw [h] at hb; exact hk r.1 r.2 (hx r.1 r.2 h) b s'' hb
  | err e => rw [h] at hb; cases hb
  | panic => rw [h] at hb; cases hb
  | outOfFuel => rw [h] at hb; cases hb

theorem Partial.mono {Q R : α → σ → Prop} (hx : Partial x s Q) (h : ∀ a s', Q a s' → R a s') :
    Partial x s R :=
  fun a s' hs => h a s' (hx a s' hs)

theorem Partial.true : Partial x s fun _ _ => True :=
  fun _ _ _ => trivial

theorem Partial.bind_any {Q : β → σ → Prop} (h : ∀ a s', Partial (k a) s' Q) :
    Partial (x >>= k) s Q :=
  .bind .true fun a s' _ => h a s'

theorem Partial.bind_only (hx : Only x s a Q) (hk : ∀ s', Q s' → Partial (k a) s' R) :
    Partial (x >>= k) s R := by
  refine Partial.bind (Q := fun b s' => b = a ∧ Q s') (fun _ _ h => hx.unique h) ?_
  rintro b s' ⟨rfl, hq⟩
  exact hk s' hq

/-! ## Loops that go on -/

/-- Up to fuel, `x` goes on as `y` does, with some fuel and in a state with `Q`. -/
def Becomes (x : Comp σ ε α) (s : σ) (Q : σ → Prop) (y : Nat → Comp σ ε α) : Prop :=
  x s = .outOfFuel ∨ ∃ fuel s', Q s' ∧ x s = y fuel s'

theorem Becomes.refl (y : Nat → Comp σ ε α) (fuel : Nat) (hq : Q s) :
    Becomes (y fuel) s Q y := Or.inr ⟨fuel, s, hq, rfl⟩

variable {y : Nat → Comp σ ε α}

theorem Becomes.outOfFuel : Becomes (Comp.outOfFuel : Comp σ ε α) s Q y := Or.inl rfl

theorem Becomes.bind_only {Q R : σ → Prop} {y : Nat → Comp σ ε β} (hx : Only x s a Q)
    (hk : ∀ s', Q s' → Becomes (k a) s' R y) : Becomes (x >>= k) s R y := by
  rcases hx with ⟨s', h, hq⟩ | h
  · unfold Becomes
    rw [bind_ok h]
    exact hk s' hq
  · refine Or.inl ?_
    show Comp.bind x k s = _
    unfold Comp.bind
    rw [h]

/-- One loop after another. -/
theorem Becomes.trans {Q R : σ → Prop} {y z : Nat → Comp σ ε α} (hx : Becomes x s Q y)
    (hy : ∀ fuel s', Q s' → Becomes (y fuel) s' R z) : Becomes x s R z := by
  rcases hx with h | ⟨fuel, s', hq, h⟩
  · exact Or.inl h
  · unfold Becomes
    rw [h]
    exact hy fuel s' hq

theorem Becomes.only {Q R : σ → Prop} (hx : Becomes x s Q y)
    (hy : ∀ fuel s', Q s' → Only (y fuel) s' a R) : Only x s a R := by
  rcases hx with h | ⟨fuel, s', hq, h⟩
  · exact Or.inr h
  · unfold Only
    rw [h]
    exact hy fuel s' hq

theorem Becomes.returned {R : α → σ → Prop} (hx : Becomes x s Q y)
    (hy : ∀ fuel s', Q s' → Partial (y fuel) s' R) : Partial x s R := by
  intro a t ht
  rcases hx with h | ⟨fuel, s', hq, h⟩
  · rw [h] at ht
    cases ht
  · rw [h] at ht
    exact hy fuel s' hq a t ht

/-! ## Exact conditions -/

/-- Up to fuel, `x` returns `a`, and then in a state with `Q`, exactly when `G` holds. -/
structure Exactly (x : Comp σ ε α) (s : σ) (a : α) (Q : σ → Prop) (G : Prop) : Prop where
  only : G → Only x s a Q
  back : Partial x s fun b _ => b = a → G

theorem Exactly.of_only (h : Only x s a Q) :
    Exactly x s a Q True := ⟨fun _ => h, fun _ _ _ _ => trivial⟩

variable {G : Prop}

theorem Exactly.outOfFuel :
    Exactly (Comp.outOfFuel : Comp σ ε α) s a Q G := ⟨fun _ => .outOfFuel, .outOfFuel⟩

/-- `x` never returns `a`. -/
theorem Exactly.of_ne (h : Partial x s fun b _ => b ≠ a) (hg : ¬ G) : Exactly x s a Q G :=
  ⟨fun hh => absurd hh hg, fun b t hb he => absurd he (h b t hb)⟩

theorem Exactly.congr {G H : Prop} (h : Exactly x s a Q G) (hi : G ↔ H) : Exactly x s a Q H :=
  ⟨fun hh => h.only (hi.2 hh), fun b t hb he => hi.1 (h.back b t hb he)⟩

/-- In sequence: a wrong value of the first part has to show in the result. -/
theorem Exactly.bind {b : β} {Q R : σ → Prop} {G H : Prop} (hx : Exactly x s a Q G)
    (hk : G → ∀ s', Q s' → Exactly (k a) s' b R H)
    (hne : ∀ a' s', a' ≠ a → Partial (k a') s' fun b' _ => b' ≠ b) :
    Exactly (x >>= k) s b R (G ∧ H) := by
  refine ⟨?_, ?_⟩
  · rintro ⟨hg, hh⟩
    exact (hx.only hg).bind fun s' hq => (hk hg s' hq).only hh
  · refine Partial.bind (Q := fun a' s' => x s = .ok (a', s')) (fun _ _ h => h) ?_
    intro a' s' hs b' t hb he
    by_cases ha : a' = a
    · subst ha
      have hg := hx.back a' s' hs rfl
      have hq := ((hx.only hg).unique hs).2
      exact ⟨hg, (hk hg s' hq).back b' t hb he⟩
    · exact absurd he (hne a' s' ha b' t hb)

/-- In sequence, when the first part can only return one value. -/
theorem Exactly.bind_only {b : β} {Q R : σ → Prop} (hx : Only x s a Q)
    (hk : ∀ s', Q s' → Exactly (k a) s' b R G) : Exactly (x >>= k) s b R G := by
  refine ⟨fun hg => hx.bind fun s' hq => (hk s' hq).only hg, ?_⟩
  refine Partial.bind (Q := fun a' s' => x s = .ok (a', s')) (fun _ _ h => h) ?_
  intro a' s' hs
  obtain ⟨rfl, hq⟩ := hx.unique hs
  exact (hk s' hq).back

theorem Exactly.bind_inj {Q R : σ → Prop} {f : α → β} (hf : Function.Injective f)
    (hx : Exactly x s a Q G) (hk : ∀ s', Q s' → Only (k a) s' (f a) R)
    (hall : ∀ a' s', Partial (k a') s' fun b _ => b = f a') : Exactly (x >>= k) s (f a) R G := by
  refine (Exactly.bind hx (H := True) ?_ ?_).congr (and_iff_left trivial)
  · exact fun _ s' hq => .of_only (hk s' hq)
  · intro a' s' hne
    refine (hall a' s').mono ?_
    intro b _ hb h
    exact hne (hf (hb.symm.trans h))

end Comp

end WinCompat.Lib
