import WinCompat.Gpu.Vulkan
import WinCompat.Lib.Fallible

/-!
# What a call has created and destroyed

The handles between two values of `Vk.next` are those that a call created. It has settled them if it
destroyed each of them, once (`Settled`). A call that creates an object, and destroys nothing before
each of its failures, settles a failure exactly if it fails before the object exists
(`settles_create_iff`).
-/

namespace WinCompat.Gpu

open Lib Lib.Fallible

def Event.destroys (id : Nat) : Event → Bool
  | .destroyed o => o.id == id
  | .submitted _ | .waited => false

/-- How often an object was destroyed. -/
def Vk.destroys (vk : Vk) (id : Nat) : Nat := vk.trace.countP (Event.destroys id)

def Vk.destroyAll (vk : Vk) (os : List Obj) : Vk := os.foldl Vk.destroy vk

/-- It was created and not destroyed since. -/
def Vk.Live (vk : Vk) (id : Nat) : Prop := id < vk.next ∧ vk.destroys id = 0

/-- What was created from `vk` to `vk'` has been destroyed, once. -/
def Settled (vk vk' : Vk) : Prop :=
  ∀ id, vk.next ≤ id → id < vk'.next → vk'.destroys id = vk.destroys id + 1

variable {vk vk' : Vk} {id : Nat}

@[simp] theorem Vk.next_fresh : vk.fresh.2.next = vk.next + 1 := rfl

@[simp] theorem Vk.fst_fresh : vk.fresh.1 = vk.next := rfl

@[simp] theorem Vk.next_log (e : Event) : (vk.log e).next = vk.next := rfl

@[simp] theorem Vk.next_destroy (o : Obj) : (vk.destroy o).next = vk.next := rfl

@[simp] theorem Vk.destroys_fresh : vk.fresh.2.destroys id = vk.destroys id := rfl

@[simp] theorem Vk.destroys_destroy (o : Obj) :
    (vk.destroy o).destroys id = vk.destroys id + if o.id = id then 1 else 0 := by
  simp [Vk.destroys, Event.destroys, List.countP_cons]

theorem Vk.next_destroyAll (os : List Obj) : (vk.destroyAll os).next = vk.next := by
  induction os generalizing vk with
  | nil => rfl
  | cons o os ih => exact ih.trans (Vk.next_destroy o)

theorem Vk.destroys_destroyAll (os : List Obj) :
    (vk.destroyAll os).destroys id = vk.destroys id + (os.map Obj.id).count id := by
  induction os generalizing vk with
  | nil => rfl
  | cons o os ih =>
    refine ih.trans ?_
    rw [Vk.destroys_destroy, List.map_cons, List.count_cons]
    simp only [beq_iff_eq]
    omega

/-- Nothing was created. -/
theorem Settled.of_next_le (h : vk'.next ≤ vk.next) : Settled vk vk' := by
  intro id hle hlt
  omega

theorem not_settled (id : Nat) (hle : vk.next ≤ id) (hlt : id < vk'.next)
    (heq : vk'.destroys id = vk.destroys id) : ¬Settled vk vk' := by
  intro h
  have hone := h id hle hlt
  omega

/-- Objects that are there, on a device that has destroyed nothing which it has not created. -/
structure Vk.Holds (vk : Vk) (ids : List Nat) : Prop where
  tidy : ∀ id, vk.next ≤ id → vk.destroys id = 0
  live : ∀ id ∈ ids, vk.Live id

namespace Vk.Holds

variable {ids : List Nat}

theorem ne_next (h : vk.Holds ids) : ∀ id ∈ ids, id < vk.next := fun id hid => (h.live id hid).1

theorem fresh (h : vk.Holds ids) : vk.fresh.2.Holds (vk.next :: ids) := by
  constructor
  · exact fun id hid => h.tidy id (Nat.le_of_succ_le hid)
  · intro id hid
    cases List.mem_cons.mp hid with
    | inl heq => exact heq ▸ ⟨Nat.lt_succ_self vk.next, h.tidy vk.next (Nat.le_refl _)⟩
    | inr hid => exact ⟨Nat.lt_succ_of_lt (h.live id hid).1, (h.live id hid).2⟩

theorem mono {ids' : List Nat} (h : vk.Holds ids) (hsub : ids' ⊆ ids) : vk.Holds ids' :=
  ⟨h.tidy, fun id hid => h.live id (hsub hid)⟩

theorem destroy {o : Obj} (h : vk.Holds ids) (hmade : o.id < vk.next) (hother : o.id ∉ ids) :
    (vk.destroy o).Holds ids := by
  constructor
  · intro id hid
    have hne : o.id ≠ id := fun heq => absurd hid (Nat.not_le.mpr (heq ▸ hmade))
    rw [destroys_destroy, if_neg hne]
    exact h.tidy id hid
  · intro id hid
    have hne : o.id ≠ id := fun heq => hother (heq ▸ hid)
    refine ⟨(h.live id hid).1, ?_⟩
    rw [destroys_destroy, if_neg hne]
    exact (h.live id hid).2

theorem destroyAll {os : List Obj} (h : vk.Holds ids) (hmade : ∀ o ∈ os, o.id < vk.next)
    (hother : ∀ o ∈ os, o.id ∉ ids) : (vk.destroyAll os).Holds ids := by
  induction os generalizing vk with
  | nil => exact h
  | cons o os ih =>
    obtain ⟨hfirst, hrest⟩ := List.forall_mem_cons.mp hmade
    obtain ⟨hne, hnes⟩ := List.forall_mem_cons.mp hother
    exact ih (h.destroy hfirst hne) hrest hnes

theorem log {e : Event} (h : vk.Holds ids) (he : ∀ id, e.destroys id = false) :
    (vk.log e).Holds ids := by
  have heq : ∀ id, (vk.log e).destroys id = vk.destroys id := by
    intro id
    simp [Vk.destroys, he]
  constructor
  · intro id hid
    exact (heq id).trans (h.tidy id hid)
  · intro id hid
    exact ⟨(h.live id hid).1, (heq id).trans (h.live id hid).2⟩

end Vk.Holds

/-! ## Calls -/

variable {ε α β : Type}

/-- If the call fails, then what it created is destroyed. -/
def Settles (x : Fallible Vk ε α) (vk : Vk) : Prop := ∀ e vk', x vk = (.error e, vk') → Settled vk vk'

/-- The object was created, and this often destroyed. -/
def Kept (id times : Nat) (vk : Vk) : Prop := id < vk.next ∧ vk.destroys id = times

/-- No failure of the call destroys something that was there before. -/
def Spares (x : Fallible Vk ε α) : Prop := ∀ id times, KeepsOnError (Kept id times) x

/-- However it ends, the call destroys nothing that was there before. -/
def Frames (x : Fallible Vk ε α) : Prop := ∀ id times, Keeps (Kept id times) x

theorem frames_pure (a : α) : Frames (pure a : Fallible Vk ε α) := fun _ _ => keeps_pure a

theorem frames_throw (e : ε) : Frames (throw e : Fallible Vk ε α) := fun _ _ => keeps_throw e

theorem frames_check (e : Option ε) : Frames (check e : Fallible Vk ε Unit) := fun _ _ =>
  keeps_check e

theorem frames_fresh : Frames (run Vk.fresh : Fallible Vk ε Nat) := fun _ _ _ h =>
  ⟨Nat.lt_succ_of_lt h.1, h.2⟩

theorem frames_log {e : Event} (he : ∀ id, e.destroys id = false) :
    Frames (modify (·.log e) : Fallible Vk ε Unit) := by
  intro id times vk h
  refine ⟨h.1, ?_⟩
  have hcount : (vk.log e).destroys id = vk.destroys id := by
    simp [Vk.destroys, he]
  exact hcount.trans h.2

variable {x : Fallible Vk ε α}

variable {k : α → Fallible Vk ε β}

theorem Frames.bind (hx : Frames x) (hk : ∀ a, Frames (k a)) : Frames (x >>= k) := fun id times =>
  (hx id times).bind fun a => hk a id times

theorem Frames.spares (h : Frames x) : Spares x := fun id times =>
  (h id times).onError

theorem Spares.bind (hx : Frames x) (hk : ∀ a, Spares (k a)) : Spares (x >>= k) := fun id times =>
  KeepsOnError.bind (hx id times) fun a => hk a id times

theorem Spares.then (hx : Spares x) (hk : ∀ a s, Succeeds (k a) s) :
    Spares (x >>= k) := fun id times => (hx id times).then hk

theorem Spares.of_total (h : ∀ vk, Succeeds x vk) : Spares x :=
  fun _ _ vk _ _ _ heq => absurd heq (not_error_of_succeeds (h vk))

theorem Frames.lift (x : Except ε α) : Frames (lift x : Fallible Vk ε α) := by
  cases x with
  | ok a => exact frames_pure a
  | error e => exact frames_throw e

theorem Settles.of_succeeds (h : Succeeds x vk) : Settles x vk :=
  fun _ _ heq => absurd heq (not_error_of_succeeds h)

theorem settles_throw (e : ε) : Settles (throw e : Fallible Vk ε α) vk := by
  intro e' vk' heq
  cases heq
  exact Settled.of_next_le (Nat.le_refl _)

/-- A call that goes on after it has created an object settles no failure. -/
theorem settles_fresh_iff {k : Nat → Fallible Vk ε β} (hk : ∀ id, Spares (k id)) :
    Settles (run Vk.fresh >>= k) vk ↔ Succeeds (k vk.next) vk.fresh.2 := by
  unfold Settles
  rw [bind_run]
  constructor
  · intro h
    by_contra hfails
    obtain ⟨e, vk', heq⟩ := exists_error_of_not_succeeds hfails
    have hkept : Kept vk.next (vk.destroys vk.next) vk' :=
      hk vk.next vk.next _ vk.fresh.2 e vk' ⟨Nat.lt_succ_self vk.next, rfl⟩ heq
    exact not_settled vk.next (Nat.le_refl _) hkept.1 hkept.2 (h e vk' heq)
  · intro h e vk' heq
    exact absurd heq (not_error_of_succeeds h)

theorem not_settles_fresh {x : Nat → Fallible Vk ε α} {k : Nat → α → Fallible Vk ε β}
    (hx : ∀ id, Frames (x id)) (hfails : ¬Succeeds (x vk.next) vk.fresh.2) :
    ¬Settles (run Vk.fresh >>= fun id => x id >>= k id) vk := by
  obtain ⟨e, vk', heq⟩ := exists_error_of_not_succeeds hfails
  have hkept : Kept vk.next (vk.destroys vk.next) vk' :=
    (hx vk.next).spares vk.next _ vk.fresh.2 e vk' ⟨Nat.lt_succ_self vk.next, rfl⟩ heq
  intro h
  unfold Settles at h
  rw [bind_run] at h
  exact not_settled vk.next (Nat.le_refl _) hkept.1 hkept.2 (h e vk' (bind_error heq))

theorem settles_check_iff {refusal : Option ε} {k : Unit → Fallible Vk ε β} :
    Settles (check refusal >>= k) vk ↔ refusal ≠ none ∨ Settles (k ()) vk := by
  cases refusal with
  | some e => exact iff_of_true (settles_throw e) (Or.inl (Option.some_ne_none e))
  | none => simp [Settles]

theorem settles_create_iff {refusal : Option ε} {k : Nat → Fallible Vk ε β}
    (hk : ∀ id, Spares (k id)) :
    Settles (do check refusal; let id ← run Vk.fresh; k id) vk ↔
      refusal ≠ none ∨ Succeeds (k vk.next) vk.fresh.2 := by
  rw [settles_check_iff, settles_fresh_iff hk]

end WinCompat.Gpu
