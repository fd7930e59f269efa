import Mathlib.Data.List.Pairwise
import WinCompat.Lib.Machine

/-!
# Programs that call each other

A `Proc` is a program made of atomic actions on a state and of calls. It is run in two ways. `run`
is the sequential one, with the calls answered by a function. In `System` any number of threads
interleave, each with a stack of calls in progress; a call may be to foreign code, which answers
what it likes after making calls of its own.

An action sees what its own frame holds beside the state that all frames share. `Meets` says that
every action of a program is of a kind that the discipline allows. `Disciplined` is what then holds
of all frames together: two frames never hold what is not `apart`.
-/

namespace WinCompat.Lib

/-- A program over states `τ` that makes calls in `κ`, is answered in `β` and returns an `α`. -/
inductive Proc (τ κ β α : Type) : Type
  | ret (a : α)
  | act (upd : τ → τ) (k : τ → Proc τ κ β α)
  | call (c : κ) (k : β → Proc τ κ β α)

namespace Proc

variable {τ ℓ σ κ β α γ ε : Type}

protected def bind : Proc τ κ β α → (α → Proc τ κ β γ) → Proc τ κ β γ
  | ret a, f => f a
  | act upd k, f => act upd fun s => Proc.bind (k s) f
  | call c k, f => call c fun b => Proc.bind (k b) f

/-- However its actions find the state, the program makes no call and returns `a`. -/
def Returns (a : α) : Proc τ κ β α → Prop
  | ret a' => a' = a
  | act _ k => ∀ s, Returns a (k s)
  | call _ _ => False

/-- The sequential reading. A call leaves what the caller holds alone. -/
def run (callee : κ → σ → Option (β × σ)) : Proc (ℓ × σ) κ β α → ℓ × σ → Option (α × ℓ × σ)
  | ret a, s => some (a, s)
  | act upd k, s => run callee (k s) (upd s)
  | call c k, s => (callee c s.2).bind fun r => run callee (k r.1) (s.1, r.2)

theorem run_bind (callee : κ → σ → Option (β × σ)) (f : α → Proc (ℓ × σ) κ β γ) :
    ∀ (p : Proc (ℓ × σ) κ β α) (s : ℓ × σ),
      run callee (p.bind f) s = (run callee p s).bind fun r => run callee (f r.1) r.2 := by
  intro p
  induction p with
  | ret a =>
    intro s
    rfl
  | act upd k ih =>
    intro s
    exact ih s (upd s)
  | call c k ih =>
    intro s
    simp only [Proc.bind, run, Option.bind_assoc]
    congr 1
    funext r
    exact ih r.1 (s.1, r.2)

end Proc

/-! ## Programs that may fail -/

/-- A program whose result may be an error. What it did before the error stays done. -/
def Attempt (τ κ β ε α : Type) : Type := Proc τ κ β (Except ε α)

namespace Attempt

variable {τ ℓ σ κ β α γ ε : Type}

protected def bind (x : Attempt τ κ β ε α) (f : α → Attempt τ κ β ε γ) : Attempt τ κ β ε γ :=
  Proc.bind x fun
    | .ok a => f a
    | .error e => .ret (.error e)

instance : Monad (Attempt τ κ β ε) where
  pure a := Proc.ret (.ok a)
  bind := Attempt.bind

def throw (e : ε) : Attempt τ κ β ε α := Proc.ret (.error e)

def ofExcept (r : Except ε α) : Attempt τ κ β ε α := Proc.ret r

/-- One atomic action. -/
def atomically (f : τ → Except ε α × τ) : Attempt τ κ β ε α :=
  Proc.act (fun s => (f s).2) fun s => Proc.ret (f s).1

/-- After an error, clean up and return it. -/
def onError (x : Attempt τ κ β ε α) (cleanup : Attempt τ κ β ε Unit) : Attempt τ κ β ε α :=
  Proc.bind x fun
    | .ok a => Proc.ret (.ok a)
    | .error e => cleanup.bind fun _ => throw e

def call (c : κ) : Attempt τ κ β ε β := Proc.call c fun b => Proc.ret (.ok b)

/-- Run a program that may fail. -/
def run (callee : κ → σ → Option (β × σ)) (x : Attempt (ℓ × σ) κ β ε α) (s : ℓ × σ) :
    Option (Except ε α × ℓ × σ) :=
  Proc.run callee x s

variable {callee : κ → σ → Option (β × σ)}

theorem run_atomically (f : ℓ × σ → Except ε α × (ℓ × σ)) (s : ℓ × σ) :
    run callee (atomically f : Attempt (ℓ × σ) κ β ε α) s = some (f s) := rfl

theorem run_call (c : κ) (s : ℓ × σ) :
    run callee (call c : Attempt (ℓ × σ) κ β ε β) s =
      (callee c s.2).map fun r => (.ok r.1, s.1, r.2) := by
  show (callee c s.2).bind _ = _
  cases callee c s.2 <;> rfl

theorem run_bind (x : Attempt (ℓ × σ) κ β ε α) (f : α → Attempt (ℓ × σ) κ β ε γ) (s : ℓ × σ) :
    run callee (x >>= f) s = (run callee x s).bind fun r =>
      match r.1 with
      | .ok a => run callee (f a) r.2
      | .error e => some (.error e, r.2) := by
  refine (Proc.run_bind callee _ x s).trans ?_
  show (Proc.run callee x s).bind _ = (Proc.run callee x s).bind _
  congr 1
  funext r
  cases r.1 <;> rfl

/-- How a bind can have ended. -/
theorem run_bind_cases {x : Attempt (ℓ × σ) κ β ε α} {f : α → Attempt (ℓ × σ) κ β ε γ}
    {s s' : ℓ × σ} {r : Except ε γ} (h : run callee (x >>= f) s = some (r, s')) :
    (∃ a s₁, run callee x s = some (.ok a, s₁) ∧ run callee (f a) s₁ = some (r, s')) ∨
      (∃ e, run callee x s = some (.error e, s') ∧ r = .error e) := by
  rw [run_bind] at h
  cases hx : run callee x s with
  | none =>
    rw [hx] at h
    cases h
  | some p =>
    obtain ⟨q, s₁⟩ := p
    rw [hx] at h
    cases q with
    | ok a => exact Or.inl ⟨a, s₁, rfl, h⟩
    | error e =>
      cases h
      exact Or.inr ⟨e, rfl, rfl⟩

theorem run_bind_ok {x : Attempt (ℓ × σ) κ β ε α} (f : α → Attempt (ℓ × σ) κ β ε γ) {a : α}
    {s s₁ : ℓ × σ} (h : run callee x s = some (.ok a, s₁)) :
    run callee (x >>= f) s = run callee (f a) s₁ := by
  rw [run_bind, h]
  rfl

theorem run_bind_error {x : Attempt (ℓ × σ) κ β ε α} (f : α → Attempt (ℓ × σ) κ β ε γ) {e : ε}
    {s s₁ : ℓ × σ} (h : run callee x s = some (.error e, s₁)) :
    run callee (x >>= f) s = some (.error e, s₁) := by
  rw [run_bind, h]
  rfl

/-- The run ends, with a value as `good` wants it or with an error as `bad` does. -/
def Achieves (callee : κ → σ → Option (β × σ)) (x : Attempt (ℓ × σ) κ β ε α) (s : ℓ × σ)
    (good : α → ℓ × σ → Prop) (bad : ε → ℓ × σ → Prop) : Prop :=
  ∃ r s', run callee x s = some (r, s') ∧
    match r with
    | .ok a => good a s'
    | .error e => bad e s'

namespace Achieves

variable {x : Attempt (ℓ × σ) κ β ε α} {s s' : ℓ × σ} {good good' : α → ℓ × σ → Prop}
  {bad bad' : ε → ℓ × σ → Prop}

theorem pure {a : α} (h : good a s) :
    Achieves callee (Pure.pure a : Attempt (ℓ × σ) κ β ε α) s good bad := ⟨.ok a, s, rfl, h⟩

theorem mono (h : Achieves callee x s good bad) (hgood : ∀ a s', good a s' → good' a s')
    (hbad : ∀ e s', bad e s' → bad' e s') : Achieves callee x s good' bad' := by
  obtain ⟨r, s', hrun, hr⟩ := h
  refine ⟨r, s', hrun, ?_⟩
  cases r with
  | ok a => exact hgood a s' hr
  | error e => exact hbad e s' hr

/-- One program after the other. -/
theorem bind {f : α → Attempt (ℓ × σ) κ β ε γ} {last : γ → ℓ × σ → Prop}
    (h : Achieves callee x s good bad)
    (hf : ∀ a s', good a s' → Achieves callee (f a) s' last bad) :
    Achieves callee (x >>= f) s last bad := by
  obtain ⟨r, s₁, hrun, hr⟩ := h
  cases r with
  | error e => exact ⟨.error e, s₁, run_bind_error f hrun, hr⟩
  | ok a =>
    obtain ⟨r', s₂, hrun', hr'⟩ := hf a s₁ hr
    refine ⟨r', s₂, ?_, hr'⟩
    rw [run_bind_ok f hrun]
    exact hrun'

theorem of_run (h : Achieves callee x s good bad) {a : α}
    (hrun : run callee x s = some (.ok a, s')) : good a s' := by
  obtain ⟨r, s₁, hrun', hr⟩ := h
  cases hrun.symm.trans hrun'
  exact hr

end Achieves

end Attempt

/-! ## What a program's actions may do -/

/-- What each action may do, what is kept of the shared state and of each frame, what keeps two
    frames apart, and what a frame may call. A step is only ever taken by a frame that is
    permitted it beside every other frame. -/
structure Discipline (ℓ σ κ : Type) where
  step : κ → ℓ × σ → ℓ × σ → Prop
  shared : σ → Prop
  frame : ℓ → σ → Prop
  apart : ℓ → ℓ → Prop
  permit : κ → ℓ → σ → ℓ → Prop
  calls : ℓ → κ → Prop

variable {ℓ σ κ β α γ ε : Type}

/-- Every action of the program, taken for the call `c` by a frame that holds `l`, is a step of the
    discipline; and what the program returns with what it then holds satisfies `post`. -/
def Meets (D : Discipline ℓ σ κ) (c : κ) (post : α → ℓ → Prop) : Proc (ℓ × σ) κ β α → ℓ → Prop
  | .ret a, l => post a l
  | .act upd k, l => ∀ s, D.shared s → D.frame l s →
      D.step c (l, s) (upd (l, s)) ∧ Meets D c post (k (l, s)) (upd (l, s)).1
  | .call d k, l => D.calls l d ∧ ∀ b, Meets D c post (k b) l

namespace Meets

variable {D : Discipline ℓ σ κ} {c : κ}

theorem mono {post post' : α → ℓ → Prop} (himp : ∀ a l, post a l → post' a l) :
    ∀ (p : Proc (ℓ × σ) κ β α) {l : ℓ}, Meets D c post p l → Meets D c post' p l := by
  intro p
  induction p with
  | ret a =>
    intro l h
    exact himp a l h
  | act upd k ih =>
    intro l h s hshared hframe
    obtain ⟨hstep, hrest⟩ := h s hshared hframe
    exact ⟨hstep, ih (l, s) hrest⟩
  | call d k ih =>
    intro l h
    exact ⟨h.1, fun b => ih b (h.2 b)⟩

theorem bind {post : γ → ℓ → Prop} (f : α → Proc (ℓ × σ) κ β γ) :
    ∀ (p : Proc (ℓ × σ) κ β α) {l : ℓ}, Meets D c (fun a l' => Meets D c post (f a) l') p l →
      Meets D c post (p.bind f) l := by
  intro p
  induction p with
  | ret a =>
    intro l h
    exact h
  | act upd k ih =>
    intro l h s hshared hframe
    obtain ⟨hstep, hrest⟩ := h s hshared hframe
    exact ⟨hstep, ih (l, s) hrest⟩
  | call d k ih =>
    intro l h
    exact ⟨h.1, fun b => ih b (h.2 b)⟩

/-! ### Programs that may fail -/

/-- What a program that may fail satisfies, when its value satisfies `good` and its error `bad`. -/
def Ends (good : α → ℓ → Prop) (bad : ε → ℓ → Prop) : Except ε α → ℓ → Prop
  | .ok a, l => good a l
  | .error e, l => bad e l

variable {l : ℓ}

theorem attempt_bind {good : α → ℓ → Prop} {bad : ε → ℓ → Prop} {post : Except ε γ → ℓ → Prop}
    (x : Attempt (ℓ × σ) κ β ε α) (f : α → Attempt (ℓ × σ) κ β ε γ)
    (hx : Meets D c (Ends good bad) x l) (hf : ∀ a l', good a l' → Meets D c post (f a) l')
    (he : ∀ e l', bad e l' → post (.error e) l') :
    Meets D c post ((x >>= f : Attempt (ℓ × σ) κ β ε γ)) l := by
  apply bind
  refine mono ?_ x hx
  intro r l' hr
  cases r with
  | ok a => exact hf a l' hr
  | error e => exact he e l' hr

theorem attempt_onError {good : α → ℓ → Prop} {bad bad' : ε → ℓ → Prop}
    (x : Attempt (ℓ × σ) κ β ε α) (cleanup : Attempt (ℓ × σ) κ β ε Unit)
    (hx : Meets D c (Ends good bad) x l)
    (hc : ∀ e l', bad e l' → Meets D c (Ends (fun _ => bad' e) bad') cleanup l') :
    Meets D c (Ends good bad') (x.onError cleanup) l := by
  apply bind
  refine mono ?_ x hx
  intro r l' hr
  cases r with
  | ok a => exact hr
  | error e =>
    exact attempt_bind cleanup _ (hc e l' hr) (fun _ _ h => h) fun _ _ h => h

theorem attempt_atomically {post : Except ε α → ℓ → Prop} (g : ℓ × σ → Except ε α × (ℓ × σ))
    (h : ∀ s, D.shared s → D.frame l s → D.step c (l, s) (g (l, s)).2 ∧
      post (g (l, s)).1 (g (l, s)).2.1) :
    Meets D c post (Attempt.atomically g : Attempt (ℓ × σ) κ β ε α) l := h

theorem attempt_call {post : Except ε β → ℓ → Prop} (d : κ) (hc : D.calls l d)
    (h : ∀ b, post (.ok b) l) : Meets D c post (Attempt.call d : Attempt (ℓ × σ) κ β ε β) l :=
  ⟨hc, h⟩

/-- A weaker discipline asks less of the same program. -/
theorem weaken {D' : Discipline ℓ σ κ} {post : α → ℓ → Prop}
    (hshared : ∀ s, D'.shared s → D.shared s) (hframe : ∀ l s, D'.frame l s → D.frame l s)
    (hstep : ∀ l s l' s', D.step c (l, s) (l', s') → D'.step c (l, s) (l', s'))
    (hcalls : ∀ l d, D.calls l d → D'.calls l d) :
    ∀ (p : Proc (ℓ × σ) κ β α) {l : ℓ}, Meets D c post p l → Meets D' c post p l := by
  intro p
  induction p with
  | ret a =>
    intro l h
    exact h
  | act upd k ih =>
    intro l h s hs hf
    obtain ⟨hone, hrest⟩ := h s (hshared s hs) (hframe l s hf)
    exact ⟨hstep l s _ _ hone, ih (l, s) hrest⟩
  | call d k ih =>
    intro l h
    exact ⟨hcalls l d h.1, fun b => ih b (h.2 b)⟩

/-! ### Results alone -/

variable (ℓ σ κ) in
/-- It asks nothing: what is left to say of a program is what it returns, whatever its actions find
    and its calls are answered. -/
def anything : Discipline ℓ σ κ where
  step _ _ _ := True
  shared _ := True
  frame _ _ := True
  apart _ _ := True
  permit _ _ _ _ := True
  calls _ _ := True

theorem trivially : ∀ (p : Proc (ℓ × σ) κ β α) {l : ℓ},
    Meets (anything ℓ σ κ) c (fun _ _ => True) p l := by
  intro p
  induction p with
  | ret a => exact fun {_} => trivial
  | act upd k ih => exact fun {l} s _ _ => ⟨trivial, ih (l, s)⟩
  | call d k ih => exact fun {_} => ⟨trivial, fun b => ih b⟩

theorem attempt_trivially (x : Attempt (ℓ × σ) κ β ε α) :
    Meets (anything ℓ σ κ) c (Ends (fun _ _ => True) fun _ _ => True) x l := by
  refine mono ?_ x (trivially x)
  intro r l' _
  cases r with
  | ok a => trivial
  | error e => trivial

/-- What comes first may be anything. -/
theorem attempt_after {good : γ → ℓ → Prop} (x : Attempt (ℓ × σ) κ β ε α)
    (f : α → Attempt (ℓ × σ) κ β ε γ)
    (hf : ∀ a l', Meets (anything ℓ σ κ) c (Ends good fun _ _ => True) (f a) l') :
    Meets (anything ℓ σ κ) c (Ends good fun _ _ => True)
      ((x >>= f : Attempt (ℓ × σ) κ β ε γ)) l :=
  attempt_bind x f (attempt_trivially x) (fun a l' _ => hf a l') fun _ _ _ => trivial

theorem also {post post' : α → ℓ → Prop} : ∀ (p : Proc (ℓ × σ) κ β α) {l : ℓ}, Meets D c post p l →
    Meets (anything ℓ σ κ) c post' p l → Meets D c (fun a l' => post a l' ∧ post' a l') p l := by
  intro p
  induction p with
  | ret a => exact fun {_} h h' => ⟨h, h'⟩
  | act upd k ih =>
    intro l h h' s hshared hframe
    obtain ⟨hstep, hrest⟩ := h s hshared hframe
    exact ⟨hstep, ih (l, s) hrest (h' s trivial trivial).2⟩
  | call d k ih => exact fun {_} h h' => ⟨h.1, fun b => ih b (h.2 b) (h'.2 b)⟩

theorem attempt_also {good good' : α → ℓ → Prop} {bad : ε → ℓ → Prop} (x : Attempt (ℓ × σ) κ β ε α)
    (h : Meets D c (Ends good bad) x l)
    (h' : Meets (anything ℓ σ κ) c (Ends good' fun _ _ => True) x l) :
    Meets D c (Ends (fun a l' => good a l' ∧ good' a l') bad) x l := by
  refine mono ?_ x (also x h h')
  intro r l' hr
  cases r with
  | ok a => exact hr
  | error e => exact hr.1

end Meets

theorem Meets.run {D : Discipline ℓ σ κ} {c : κ} {post : α → ℓ → Prop}
    {callee : κ → σ → Option (β × σ)} {I : ℓ → σ → Prop}
    (hI : ∀ l s, I l s → D.shared s ∧ D.frame l s)
    (hstep : ∀ l s l' s', I l s → D.step c (l, s) (l', s') → I l' s')
    (hcall : ∀ l s d b s', I l s → D.calls l d → callee d s = some (b, s') → I l s') :
    ∀ (p : Proc (ℓ × σ) κ β α) {l l' : ℓ} {s s' : σ} {a : α}, Meets D c post p l → I l s →
      Proc.run callee p (l, s) = some (a, l', s') → post a l' ∧ I l' s' := by
  intro p
  induction p with
  | ret a =>
    intro l l' s s' a' hp hi hrun
    cases hrun
    exact ⟨hp, hi⟩
  | act upd k ih =>
    intro l l' s s' a' hp hi hrun
    obtain ⟨hs, hrest⟩ := hp s (hI l s hi).1 (hI l s hi).2
    exact ih (l, s) hrest (hstep _ _ _ _ hi hs) hrun
  | call d k ih =>
    intro l l' s s' a' hp hi hrun
    simp only [Proc.run] at hrun
    cases hd : callee d s with
    | none =>
      rw [hd] at hrun
      cases hrun
    | some r =>
      rw [hd] at hrun
      exact ih r.1 (hp.2 r.1) (hcall l s d r.1 r.2 hi hp.1 hd) hrun

theorem Meets.result {c : κ} {post : α → ℓ → Prop} {callee : κ → σ → Option (β × σ)}
    {p : Proc (ℓ × σ) κ β α} {l l' : ℓ} {s s' : σ} {a : α}
    (h : Meets (Meets.anything ℓ σ κ) c post p l)
    (hrun : Proc.run callee p (l, s) = some (a, l', s')) : post a l' := by
  have hfree := Meets.run (D := Meets.anything ℓ σ κ) (I := fun _ _ => True)
    (fun _ _ _ => ⟨trivial, trivial⟩) (fun _ _ _ _ _ _ => trivial)
    (fun _ _ _ _ _ _ _ _ => trivial) p h trivial hrun
  exact hfree.1

/-! ## Threads -/

/-- A call in progress. -/
structure Frame (ℓ σ κ β : Type) where
  call : κ
  own : ℓ
  prog : Proc (ℓ × σ) κ β β

structure Threads (ℓ σ κ β : Type) where
  shared : σ
  /-- The calls a thread is in, the innermost first. -/
  stack : Nat → List (Frame ℓ σ κ β)

def Threads.setStack (T : Threads ℓ σ κ β) (t : Nat) (fs : List (Frame ℓ σ κ β)) :
    Threads ℓ σ κ β :=
  ⟨T.shared, fun u => if u = t then fs else T.stack u⟩

inductive Event (κ β : Type)
  /-- The thread's own code, or foreign code it has called, makes a call. -/
  | start (t : Nat) (c : κ)
  | act (t : Nat)
  /-- The call that the innermost program makes begins. -/
  | enter (t : Nat)
  | leave (t : Nat)
  /-- Foreign code answers. -/
  | reply (t : Nat) (b : β)

/-- The programs behind the calls: none for foreign code. `fresh` is what a frame starts with. -/
structure System (ℓ σ κ β : Type) where
  fresh : ℓ
  body : κ → Option (Proc (ℓ × σ) κ β β)
  /-- The shared state at the start. -/
  start : σ → Prop

namespace System

variable (S : System ℓ σ κ β)

/-- The thread may make a call of its own: it is in no call, or in foreign code. -/
def atLarge : List (Frame ℓ σ κ β) → Bool
  | [] => true
  | f :: _ =>
    match f.prog with
    | .call c _ => (S.body c).isNone
    | _ => false

/-- What is left on the stack when a call returns `b`: a frame that entered it goes on. -/
def resume (b : β) : List (Frame ℓ σ κ β) → List (Frame ℓ σ κ β)
  | [] => []
  | f :: rest =>
    match f.prog with
    | .call c k => if (S.body c).isSome then { f with prog := k b } :: rest else f :: rest
    | _ => f :: rest

def next (T : Threads ℓ σ κ β) : Event κ β → Option (Threads ℓ σ κ β)
  | .start t c =>
    match S.body c with
    | none => none
    | some p => if S.atLarge (T.stack t) then some (T.setStack t (⟨c, S.fresh, p⟩ :: T.stack t)) else none
  | .act t =>
    match T.stack t with
    | [] => none
    | f :: rest =>
      match f.prog with
      | .act upd k =>
        let s := upd (f.own, T.shared)
        some (Threads.setStack ⟨s.2, T.stack⟩ t (⟨f.call, s.1, k (f.own, T.shared)⟩ :: rest))
      | _ => none
  | .enter t =>
    match T.stack t with
    | [] => none
    | f :: rest =>
      match f.prog with
      | .call c _ => (S.body c).map fun p => T.setStack t (⟨c, S.fresh, p⟩ :: f :: rest)
      | _ => none
  | .leave t =>
    match T.stack t with
    | [] => none
    | f :: rest =>
      match f.prog with
      | .ret b => some (T.setStack t (S.resume b rest))
      | _ => none
  | .reply t b =>
    match T.stack t with
    | [] => none
    | f :: rest =>
      match f.prog with
      | .call c k =>
        if (S.body c).isNone then some (T.setStack t ({ f with prog := k b } :: rest)) else none
      | _ => none

theorem next_act {T : Threads ℓ σ κ β} {t : Nat} {f : Frame ℓ σ κ β} {rest : List (Frame ℓ σ κ β)}
    {upd : ℓ × σ → ℓ × σ} {k : ℓ × σ → Proc (ℓ × σ) κ β β} (hstack : T.stack t = f :: rest)
    (hprog : f.prog = .act upd k) :
    S.next T (.act t) = some (Threads.setStack ⟨(upd (f.own, T.shared)).2, T.stack⟩ t
      (⟨f.call, (upd (f.own, T.shared)).1, k (f.own, T.shared)⟩ :: rest)) := by
  simp only [next, hstack, hprog]

/-- What an event does, and when it can happen. -/
inductive Step (T : Threads ℓ σ κ β) : Event κ β → Threads ℓ σ κ β → Prop
  | start {t : Nat} {c : κ} {p : Proc (ℓ × σ) κ β β} :
      S.body c = some p → S.atLarge (T.stack t) →
        Step T (.start t c) (T.setStack t (⟨c, S.fresh, p⟩ :: T.stack t))
  | act {t : Nat} {f : Frame ℓ σ κ β} {rest : List (Frame ℓ σ κ β)} {upd : ℓ × σ → ℓ × σ}
      {k : ℓ × σ → Proc (ℓ × σ) κ β β} : T.stack t = f :: rest → f.prog = .act upd k →
        Step T (.act t) (Threads.setStack ⟨(upd (f.own, T.shared)).2, T.stack⟩ t
          (⟨f.call, (upd (f.own, T.shared)).1, k (f.own, T.shared)⟩ :: rest))
  | enter {t : Nat} {f : Frame ℓ σ κ β} {rest : List (Frame ℓ σ κ β)} {c : κ}
      {k : β → Proc (ℓ × σ) κ β β} {p : Proc (ℓ × σ) κ β β} : T.stack t = f :: rest →
        f.prog = .call c k → S.body c = some p →
        Step T (.enter t) (T.setStack t (⟨c, S.fresh, p⟩ :: f :: rest))
  | leave {t : Nat} {f : Frame ℓ σ κ β} {rest : List (Frame ℓ σ κ β)} {b : β} :
      T.stack t = f :: rest → f.prog = .ret b →
        Step T (.leave t) (T.setStack t (S.resume b rest))
  | reply {t : Nat} {f : Frame ℓ σ κ β} {rest : List (Frame ℓ σ κ β)} {b : β} {c : κ}
      {k : β → Proc (ℓ × σ) κ β β} : T.stack t = f :: rest → f.prog = .call c k →
        (S.body c).isNone → Step T (.reply t b) (T.setStack t ({ f with prog := k b } :: rest))

theorem next_step {T T' : Threads ℓ σ κ β} {ev : Event κ β} (h : S.next T ev = some T') :
    S.Step T ev T' := by
  cases ev with
  | start t c =>
    simp only [next] at h
    split at h
    · cases h
    · rename_i p hp
      split_ifs at h with hlarge
      cases h
      exact .start hp hlarge
  | act t =>
    simp only [next] at h
    split at h
    · cases h
    · rename_i f rest hstack
      split at h
      · rename_i upd k hprog
        cases h
        exact .act hstack hprog
      · cases h
  | enter t =>
    simp only [next] at h
    split at h
    · cases h
    · rename_i f rest hstack
      split at h
      · rename_i c k hprog
        obtain ⟨p, hp, rfl⟩ := Option.map_eq_some_iff.mp h
        exact .enter hstack hprog hp
      · cases h
  | leave t =>
    simp only [next] at h
    split at h
    · cases h
    · rename_i f rest hstack
      split at h
      · rename_i b hprog
        cases h
        exact .leave hstack hprog
      · cases h
  | reply t b =>
    simp only [next] at h
    split at h
    · cases h
    · rename_i f rest hstack
      split at h
      · rename_i c k hprog
        split_ifs at h with hforeign
        cases h
        exact .reply hstack hprog hforeign
      · cases h

/-- Only an action changes what is shared. -/
theorem next_shared {T T' : Threads ℓ σ κ β} {ev : Event κ β} (h : S.next T ev = some T') :
    T'.shared = T.shared ∨ ∃ t f rest upd k, ev = .act t ∧ T.stack t = f :: rest ∧
      f.prog = .act upd k ∧ T'.shared = (upd (f.own, T.shared)).2 := by
  cases S.next_step h with
  | start hbody hlarge => exact .inl rfl
  | act hstack hprog => exact .inr ⟨_, _, _, _, _, rfl, hstack, hprog, rfl⟩
  | enter hstack hprog hbody => exact .inl rfl
  | leave hstack hprog => exact .inl rfl
  | reply hstack hprog hforeign => exact .inl rfl

def machine : Machine (Threads ℓ σ κ β) (Event κ β) where
  init T := S.start T.shared ∧ ∀ t, T.stack t = []
  next := S.next

end System

/-! ## What holds of all threads -/

namespace Discipline

variable (D : Discipline ℓ σ κ) (S : System ℓ σ κ β)

/-- The frame that takes the step is permitted it beside every other. -/
def Permits (T : Threads ℓ σ κ β) (ev : Event κ β) : Prop :=
  ∀ t f rest, ev = .act t → T.stack t = f :: rest →
    (∀ g ∈ rest, D.permit f.call f.own T.shared g.own) ∧
      ∀ u, u ≠ t → ∀ g ∈ T.stack u, D.permit f.call f.own T.shared g.own

/-- What makes a discipline hold of all threads: `own` and `others` say what one step keeps of the
    shared state, of the frame that takes it, and of any other. -/
structure Lawful : Prop where
  start : ∀ s, S.start s → D.shared s
  body : ∀ c p, S.body c = some p → Meets D c (fun _ _ => True) p S.fresh
  fresh : ∀ s, D.shared s → D.frame S.fresh s
  fresh_apart : ∀ l, D.apart S.fresh l
  symm : ∀ l k, D.apart l k → D.apart k l
  own : ∀ c l s l' s', D.shared s → D.frame l s → D.step c (l, s) (l', s') →
    D.shared s' ∧ D.frame l' s'
  others : ∀ c l s l' s' k, D.shared s → D.frame l s → D.frame k s → D.apart l k →
    D.permit c l s k → D.step c (l, s) (l', s') → D.frame k s' ∧ D.apart l' k

/-- All frames together. -/
structure Disciplined (T : Threads ℓ σ κ β) : Prop where
  shared : D.shared T.shared
  frame : ∀ t, ∀ f ∈ T.stack t, D.frame f.own T.shared
  same : ∀ t, (T.stack t).Pairwise fun f g => D.apart f.own g.own
  cross : ∀ t u, t ≠ u → ∀ f ∈ T.stack t, ∀ g ∈ T.stack u, D.apart f.own g.own
  meets : ∀ t, ∀ f ∈ T.stack t, Meets D f.call (fun _ _ => True) f.prog f.own
  calling : ∀ t, ∀ f ∈ (T.stack t).tail, ∃ d, D.calls f.own d

variable {D S} {T : Threads ℓ σ κ β} {t : Nat}

theorem stack_setStack_self (T : Threads ℓ σ κ β) (t : Nat) (fs : List (Frame ℓ σ κ β)) :
    (T.setStack t fs).stack t = fs := if_pos rfl

theorem stack_setStack_ne (T : Threads ℓ σ κ β) {t u : Nat} (fs : List (Frame ℓ σ κ β))
    (h : u ≠ t) : (T.setStack t fs).stack u = T.stack u := if_neg h

variable {rest : List (Frame ℓ σ κ β)} {f : Frame ℓ σ κ β}

/-- Each action is a step of the discipline. -/
theorem Disciplined.act (h : D.Disciplined T) {upd : ℓ × σ → ℓ × σ} {k : ℓ × σ → Proc (ℓ × σ) κ β β}
    (hstack : T.stack t = f :: rest) (hprog : f.prog = .act upd k) :
    D.step f.call (f.own, T.shared) (upd (f.own, T.shared)) := by
  have hf : f ∈ T.stack t := hstack ▸ List.mem_cons_self
  have hmeets := h.meets t f hf
  rw [hprog] at hmeets
  exact (hmeets T.shared h.shared (h.frame t f hf)).1

theorem Disciplined.setStack (h : D.Disciplined T) (hlaw : D.Lawful S)
    {fs : List (Frame ℓ σ κ β)} (hframe : ∀ f ∈ fs, D.frame f.own T.shared)
    (hsame : fs.Pairwise fun f g => D.apart f.own g.own)
    (hcross : ∀ u, u ≠ t → ∀ f ∈ fs, ∀ g ∈ T.stack u, D.apart f.own g.own)
    (hmeets : ∀ f ∈ fs, Meets D f.call (fun _ _ => True) f.prog f.own)
    (hcalling : ∀ f ∈ fs.tail, ∃ d, D.calls f.own d) : D.Disciplined (T.setStack t fs) := by
  constructor
  · exact h.shared
  · intro u f hf
    by_cases hu : u = t
    · subst hu
      rw [stack_setStack_self] at hf
      exact hframe f hf
    · rw [stack_setStack_ne T fs hu] at hf
      exact h.frame u f hf
  · intro u
    by_cases hu : u = t
    · subst hu
      rw [stack_setStack_self]
      exact hsame
    · rw [stack_setStack_ne T fs hu]
      exact h.same u
  · intro u v huv f hf g hg
    by_cases hu : u = t
    · subst hu
      rw [stack_setStack_self] at hf
      rw [stack_setStack_ne T fs (Ne.symm huv)] at hg
      exact hcross v (Ne.symm huv) f hf g hg
    · rw [stack_setStack_ne T fs hu] at hf
      by_cases hv : v = t
      · subst hv
        rw [stack_setStack_self] at hg
        exact hlaw.symm _ _ (hcross u hu g hg f hf)
      · rw [stack_setStack_ne T fs hv] at hg
        exact h.cross u v huv f hf g hg
  · intro u f hf
    by_cases hu : u = t
    · subst hu
      rw [stack_setStack_self] at hf
      exact hmeets f hf
    · rw [stack_setStack_ne T fs hu] at hf
      exact h.meets u f hf
  · intro u
    by_cases hu : u = t
    · subst hu
      rw [stack_setStack_self]
      exact hcalling
    · rw [stack_setStack_ne T fs hu]
      exact h.calling u

theorem Disciplined.push (h : D.Disciplined T) (hlaw : D.Lawful S) {c : κ}
    {p : Proc (ℓ × σ) κ β β} (hp : S.body c = some p)
    (htop : ∀ f rest, T.stack t = f :: rest → ∃ d, D.calls f.own d) :
    D.Disciplined (T.setStack t (⟨c, S.fresh, p⟩ :: T.stack t)) := by
  apply h.setStack hlaw
  · intro f hf
    rcases List.mem_cons.mp hf with rfl | hf
    · exact hlaw.fresh _ h.shared
    · exact h.frame t f hf
  · exact List.pairwise_cons.mpr ⟨fun g _ => hlaw.fresh_apart g.own, h.same t⟩
  · intro u hu f hf g hg
    rcases List.mem_cons.mp hf with rfl | hf
    · exact hlaw.fresh_apart g.own
    · exact h.cross t u (Ne.symm hu) f hf g hg
  · intro f hf
    rcases List.mem_cons.mp hf with rfl | hf
    · exact hlaw.body c p hp
    · exact h.meets t f hf
  · intro f hf
    cases hstack : T.stack t with
    | nil =>
      rw [hstack] at hf
      cases hf
    | cons g rest =>
      rw [hstack] at hf
      rcases List.mem_cons.mp hf with rfl | hf
      · exact htop f rest hstack
      · have htail := h.calling t f
        rw [hstack] at htail
        exact htail hf

theorem Disciplined.goOn (h : D.Disciplined T) (hlaw : D.Lawful S) {p : Proc (ℓ × σ) κ β β}
    (hstack : T.stack t = f :: rest) (hp : Meets D f.call (fun _ _ => True) p f.own) :
    D.Disciplined (T.setStack t ({ f with prog := p } :: rest)) := by
  have hframe := h.frame t
  have hsame := h.same t
  have hcross := h.cross t
  have hmeets := h.meets t
  have hcalling := h.calling t
  rw [hstack] at hframe hsame hcross hmeets hcalling
  obtain ⟨hhead, htail⟩ := List.pairwise_cons.mp hsame
  apply h.setStack hlaw
  · intro g hg
    rcases List.mem_cons.mp hg with rfl | hg
    · exact hframe f (List.mem_cons_self ..)
    · exact hframe g (List.mem_cons_of_mem _ hg)
  · exact List.pairwise_cons.mpr ⟨hhead, htail⟩
  · intro u hu g hg k hk
    rcases List.mem_cons.mp hg with rfl | hg
    · exact hcross u (Ne.symm hu) f (List.mem_cons_self ..) k hk
    · exact hcross u (Ne.symm hu) g (List.mem_cons_of_mem _ hg) k hk
  · intro g hg
    rcases List.mem_cons.mp hg with rfl | hg
    · exact hp
    · exact hmeets g (List.mem_cons_of_mem _ hg)
  · exact hcalling

theorem Disciplined.pop (h : D.Disciplined T) (hlaw : D.Lawful S) (hstack : T.stack t = f :: rest) :
    D.Disciplined (T.setStack t rest) := by
  have hframe := h.frame t
  have hsame := h.same t
  have hcross := h.cross t
  have hmeets := h.meets t
  have hcalling := h.calling t
  rw [hstack] at hframe hsame hcross hmeets hcalling
  apply h.setStack hlaw
  · exact fun g hg => hframe g (List.mem_cons_of_mem _ hg)
  · exact (List.pairwise_cons.mp hsame).2
  · exact fun u hu g hg => hcross u (Ne.symm hu) g (List.mem_cons_of_mem _ hg)
  · exact fun g hg => hmeets g (List.mem_cons_of_mem _ hg)
  · exact fun g hg => hcalling g (List.mem_of_mem_tail hg)

theorem Disciplined.stepped (h : D.Disciplined T) (hlaw : D.Lawful S)
    (hpermit : D.Permits T (.act t)) {upd : ℓ × σ → ℓ × σ} {k : ℓ × σ → Proc (ℓ × σ) κ β β}
    (hstack : T.stack t = f :: rest) (hprog : f.prog = .act upd k) :
    D.Disciplined (Threads.setStack ⟨(upd (f.own, T.shared)).2, T.stack⟩ t
      (⟨f.call, (upd (f.own, T.shared)).1, k (f.own, T.shared)⟩ :: rest)) := by
  have hmem : ∀ g ∈ f :: rest, g ∈ T.stack t := fun g hg => hstack ▸ hg
  have hf : f ∈ T.stack t := hmem f (List.mem_cons_self ..)
  have hrest : ∀ g ∈ rest, g ∈ T.stack t := fun g hg => hmem g (List.mem_cons_of_mem _ hg)
  have hsame := h.same t
  have hcalling := h.calling t
  rw [hstack] at hsame hcalling
  obtain ⟨hhead, htail⟩ := List.pairwise_cons.mp hsame
  obtain ⟨hpermitRest, hpermitCross⟩ := hpermit t f rest rfl hstack
  have hmeets := h.meets t f hf
  rw [hprog] at hmeets
  obtain ⟨hstep, hgoes⟩ := hmeets T.shared h.shared (h.frame t f hf)
  obtain ⟨hshared, hframe⟩ := hlaw.own _ _ _ _ _ h.shared (h.frame t f hf) hstep
  have hother : ∀ g : Frame ℓ σ κ β, D.frame g.own T.shared → D.apart f.own g.own →
      D.permit f.call f.own T.shared g.own →
      D.frame g.own (upd (f.own, T.shared)).2 ∧ D.apart (upd (f.own, T.shared)).1 g.own :=
    fun g hg ha hp => hlaw.others _ _ _ _ _ _ h.shared (h.frame t f hf) hg ha hp hstep
  have hbeside : ∀ g ∈ rest, D.frame g.own (upd (f.own, T.shared)).2 ∧
      D.apart (upd (f.own, T.shared)).1 g.own :=
    fun g hg => hother g (h.frame t g (hrest g hg)) (hhead g hg) (hpermitRest g hg)
  have hfar : ∀ u, u ≠ t → ∀ g ∈ T.stack u, D.frame g.own (upd (f.own, T.shared)).2 ∧
      D.apart (upd (f.own, T.shared)).1 g.own :=
    fun u hu g hg => hother g (h.frame u g hg) (h.cross t u (Ne.symm hu) f hf g hg)
      (hpermitCross u hu g hg)
  constructor
  · exact hshared
  · intro u g hg
    by_cases hu : u = t
    · subst hu
      rw [stack_setStack_self] at hg
      rcases List.mem_cons.mp hg with rfl | hg
      · exact hframe
      · exact (hbeside g hg).1
    · rw [stack_setStack_ne _ _ hu] at hg
      exact (hfar u hu g hg).1
  · intro u
    by_cases hu : u = t
    · subst hu
      rw [stack_setStack_self]
      exact List.pairwise_cons.mpr ⟨fun g hg => (hbeside g hg).2, htail⟩
    · rw [stack_setStack_ne _ _ hu]
      exact h.same u
  · intro u v huv g hg k' hk
    by_cases hu : u = t
    · subst hu
      rw [stack_setStack_self] at hg
      rw [stack_setStack_ne _ _ (Ne.symm huv)] at hk
      rcases List.mem_cons.mp hg with rfl | hg
      · exact (hfar v (Ne.symm huv) k' hk).2
      · exact h.cross u v huv g (hrest g hg) k' hk
    · rw [stack_setStack_ne _ _ hu] at hg
      by_cases hv : v = t
      · subst hv
        rw [stack_setStack_self] at hk
        rcases List.mem_cons.mp hk with rfl | hk
        · exact hlaw.symm _ _ (hfar u hu g hg).2
        · exact h.cross u v huv g hg k' (hrest k' hk)
      · rw [stack_setStack_ne _ _ hv] at hk
        exact h.cross u v huv g hg k' hk
  · intro u g hg
    by_cases hu : u = t
    · subst hu
      rw [stack_setStack_self] at hg
      rcases List.mem_cons.mp hg with rfl | hg
      · exact hgoes
      · exact h.meets u g (hrest g hg)
    · rw [stack_setStack_ne _ _ hu] at hg
      exact h.meets u g hg
  · intro u
    by_cases hu : u = t
    · subst hu
      rw [stack_setStack_self]
      exact hcalling
    · rw [stack_setStack_ne _ _ hu]
      exact h.calling u

theorem setStack_setStack (T : Threads ℓ σ κ β) (t : Nat) (fs gs : List (Frame ℓ σ κ β)) :
    (T.setStack t fs).setStack t gs = T.setStack t gs := by
  unfold Threads.setStack
  congr 1
  funext u
  by_cases hu : u = t
  · simp [hu]
  · simp [hu]

theorem Disciplined.called (h : D.Disciplined T) {c : κ} {k : β → Proc (ℓ × σ) κ β β}
    (hf : f ∈ T.stack t) (hprog : f.prog = .call c k) :
    D.calls f.own c ∧ ∀ b, Meets D f.call (fun _ _ => True) (k b) f.own := by
  have hmeets := h.meets t f hf
  rw [hprog] at hmeets
  exact hmeets

theorem Disciplined.returned (h : D.Disciplined T) (hlaw : D.Lawful S)
    (hstack : T.stack t = f :: rest) (b : β) : D.Disciplined (T.setStack t (S.resume b rest)) := by
  have hpop := h.pop hlaw hstack
  cases rest with
  | nil => exact hpop
  | cons g rest =>
    simp only [System.resume]
    split
    · rename_i c k hcall
      split_ifs with hbody
      · have hg : g ∈ T.stack t := hstack ▸ List.mem_cons_of_mem _ (List.mem_cons_self ..)
        have hon := hpop.goOn hlaw (stack_setStack_self T t (g :: rest)) ((h.called hg hcall).2 b)
        rw [setStack_setStack] at hon
        exact hon
      · exact hpop
    · exact hpop

theorem Disciplined.next (h : D.Disciplined T) (hlaw : D.Lawful S) {ev : Event κ β}
    {T' : Threads ℓ σ κ β} (hpermit : D.Permits T ev) (hn : S.next T ev = some T') :
    D.Disciplined T' := by
  cases S.next_step hn with
  | @start t c p hbody hlarge =>
    refine h.push hlaw hbody fun f rest hstack => ?_
    rw [hstack] at hlarge
    simp only [System.atLarge] at hlarge
    split at hlarge
    · rename_i d k hprog
      exact ⟨d, (h.called (hstack ▸ List.mem_cons_self ..) hprog).1⟩
    · cases hlarge
  | act hstack hprog => exact h.stepped hlaw hpermit hstack hprog
  | @enter t f rest c k p hstack hprog hbody =>
    rw [← hstack]
    refine h.push hlaw hbody fun g rest' hg => ?_
    cases hstack.symm.trans hg
    exact ⟨c, (h.called (hstack ▸ List.mem_cons_self ..) hprog).1⟩
  | @leave t f rest b hstack hprog => exact h.returned hlaw hstack b
  | @reply t f rest b c k hstack hprog hforeign =>
    exact h.goOn hlaw hstack ((h.called (hstack ▸ List.mem_cons_self ..) hprog).2 b)

theorem Lawful.disciplined (hlaw : D.Lawful S)
    (h : S.machine.ReachableIf D.Permits T) : D.Disciplined T := by
  apply h.invariant
  · intro T hinit
    have hempty : ∀ t (f : Frame ℓ σ κ β), f ∉ T.stack t := by
      intro t f hf
      rw [hinit.2 t] at hf
      cases hf
    constructor
    · exact hlaw.start _ hinit.1
    · exact fun t f hf => absurd hf (hempty t f)
    · intro t
      rw [hinit.2 t]
      exact List.Pairwise.nil
    · exact fun t _ _ f hf => absurd hf (hempty t f)
    · exact fun t f hf => absurd hf (hempty t f)
    · exact fun t f hf => absurd (List.mem_of_mem_tail hf) (hempty t f)
  · exact fun T ev T' hT hok hn => hT.next hlaw hok hn

end Discipline

end WinCompat.Lib
