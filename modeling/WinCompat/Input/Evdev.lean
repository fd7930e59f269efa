import Mathlib.Algebra.BigOperators.Group.List.Basic
import Mathlib.Algebra.Order.Group.Int
import WinCompat.Lib.Machine

/-!
# Input events

`EvdevSource` of `input/src/evdev_backend.rs`, and `InputContext::poll` (`lib.rs`) over it. Each
event is kept with the device it is from, which the buffer of the source does not do.
-/

namespace WinCompat.Input

open Lib

/-! ## Events -/

/-- What `ev.kind()` tells apart. -/
inductive Kind
  | key (code : BitVec 16)
  | relAxis (code : BitVec 16)
  | other
  deriving DecidableEq

/-- `evdev::InputEvent` -/
structure Raw where
  kind : Kind
  value : Int
  deriving DecidableEq

inductive MouseButton
  | left | middle | right | other
  deriving DecidableEq

def MouseButton.fromCode (code : BitVec 16) : MouseButton :=
  if code = 0x110 then .left
  else if code = 0x112 then .middle
  else if code = 0x111 then .right
  else .other

inductive MouseAxis
  | wheel | hWheel
  deriving DecidableEq

inductive InputEvent
  | key (code : BitVec 16) (pressed : Bool)
  | mouseButton (button : MouseButton) (pressed : Bool)
  | mouseMove (x y : Int)
  | mouseAxis (axis : MouseAxis) (value : Int)
  deriving DecidableEq

def translateRelAxis (code : BitVec 16) (value : Int) : Option InputEvent :=
  if code = 0x00 then some (.mouseMove value 0)
  else if code = 0x01 then some (.mouseMove 0 value)
  else if code = 0x08 then some (.mouseAxis .wheel value)
  else if code = 0x06 then some (.mouseAxis .hWheel value)
  else if code = 0x0b then some (.mouseAxis .wheel value)
  else if code = 0x0c then some (.mouseAxis .hWheel value)
  else none

def translate (ev : Raw) : Option InputEvent :=
  match ev.kind with
  | .key code =>
      if 0x100 ≤ code then some (.mouseButton (.fromCode code) (ev.value ≠ 0))
      else some (.key code (ev.value ≠ 0))
  | .relAxis code => translateRelAxis code ev.value
  | .other => none

/-! ## The source -/

/-- What `GamepadSource::poll` answers. -/
inductive Gamepad
  | event | none | error
  deriving DecidableEq

/-- What `InputContext::poll` returns. -/
inductive Polled
  | evdev | gamepad | none | error
  deriving DecidableEq

structure State where
  /-- How many devices are open. -/
  devices : Nat
  /-- What a device has ready to be read. -/
  pending : Nat → List Raw
  buffer : List (Nat × InputEvent)
  /-- Everything that the devices have produced. -/
  produced : List (Nat × Raw)
  /-- The events that polls have returned. -/
  delivered : List (Nat × InputEvent)
  /-- What the last step has returned, if it was a poll. -/
  last : Option Polled

inductive Step
  | produce (d : Nat) (batch : List Raw)
  /-- `InputContext::poll`, with what the reads and the gamepads answer. -/
  | poll (fetch : Nat → Option Nat) (gamepad : Gamepad)

/-- `fetch_events` of a device, what it gives and what it leaves: one read of as many events as
    `fetch` says, the oldest first, or an error that gives none. A read that waits for an event is
    of a poll that has not returned yet. -/
def State.fetchEvents (s : State) (fetch : Nat → Option Nat) (d : Nat) : List Raw × List Raw :=
  match fetch d with
  | some n => ((s.pending d).take n, (s.pending d).drop n)
  | none => ([], s.pending d)

/-- `refill`: one `fetch_events` of each device. -/
def State.refill (s : State) (fetch : Nat → Option Nat) : State :=
  { s with
    pending := fun d => if d < s.devices then (s.fetchEvents fetch d).2 else s.pending d
    buffer := s.buffer ++ (List.range s.devices).flatMap fun d =>
      ((s.fetchEvents fetch d).1.filterMap translate).map fun e => (d, e) }

/-- `InputContext::poll` once the buffer is filled: `Vec::pop`, or else the gamepads. -/
def State.pop (s : State) (gamepad : Gamepad) : State :=
  match s.buffer.getLast? with
  | some e =>
      { s with buffer := s.buffer.dropLast, delivered := s.delivered ++ [e], last := some .evdev }
  | none =>
      { s with last := some (match gamepad with
        | .event => .gamepad
        | .none => .none
        | .error => .error) }

def next (s : State) : Step → Option State
  | .produce d batch =>
      if d < s.devices then
        some { s with
          pending := Function.update s.pending d (s.pending d ++ batch)
          produced := s.produced ++ batch.map fun r => (d, r)
          last := none }
      else none
  | .poll fetch gamepad =>
      some ((if s.buffer = [] then s.refill fetch else s).pop gamepad)

def machine : Machine State Step where
  init s := (∀ d, s.pending d = []) ∧ s.buffer = [] ∧ s.produced = [] ∧ s.delivered = [] ∧
    s.last = none
  next := next

/-! ## What is documented -/

/-- What a device has produced that is surfaced. -/
def surfaced (l : List (Nat × Raw)) : List (Nat × InputEvent) :=
  l.filterMap fun r => (translate r.2).map fun e => (r.1, e)

/-- The part of one device. -/
def of (d : Nat) (l : List (Nat × InputEvent)) : List InputEvent :=
  (l.filter (·.1 = d)).map Prod.snd

def InputEvent.on (axis : MouseAxis) : InputEvent → Int
  | .mouseAxis a value => if a = axis then value else 0
  | _ => 0

/-- The code of `REL_WHEEL` or `REL_HWHEEL`. -/
def MouseAxis.code : MouseAxis → BitVec 16
  | .wheel => 0x08
  | .hWheel => 0x06

def Raw.on (axis : MouseAxis) (r : Raw) : Int := if r.kind = .relAxis axis.code then r.value else 0

/-- The events of each device are returned once and in its order, all of them when there is nothing
    to return; and then the wheels have turned as far as the devices said. -/
structure Correct (s : State) : Prop where
  order : ∀ d, of d s.delivered <+: of d (surfaced s.produced)
  drained : s.last = some .none → ∀ d, of d s.delivered = of d (surfaced s.produced)
  wheels : s.last = some .none → ∀ axis, (s.delivered.map fun e => e.2.on axis).sum =
    (s.produced.map fun r => r.2.on axis).sum

/-- An event that turns a wheel a second time, in smaller steps. -/
def Raw.HighRes (r : Raw) : Prop :=
  (r.kind = .relAxis 0x0b ∨ r.kind = .relAxis 0x0c) ∧ r.value ≠ 0

def Raw.Surfaced (r : Raw) : Prop := (translate r).isSome = true

/-- The condition on a step. No device turns a wheel a second time. What one read gives of a device
    is the same from either end, because the buffer is emptied from its end. And when a device has
    an event to surface, the reads get as far as one on some device, or a gamepad answers. -/
def Clean (s : State) : Step → Prop
  | .produce _ batch => ∀ r ∈ batch, ¬ r.HighRes
  | .poll fetch gamepad => s.buffer = [] →
      (∀ d < s.devices, ((s.fetchEvents fetch d).1.filterMap translate).reverse =
        (s.fetchEvents fetch d).1.filterMap translate) ∧
      ((∃ d < s.devices, ∃ r ∈ s.pending d, r.Surfaced) → gamepad ≠ .none ∨
        ∃ d < s.devices, ∃ r ∈ (s.fetchEvents fetch d).1, r.Surfaced)

instance (r : Raw) : Decidable r.HighRes := by
  unfold Raw.HighRes
  infer_instance

instance (r : Raw) : Decidable r.Surfaced := by
  unfold Raw.Surfaced
  infer_instance

instance (s : State) (a : Step) : Decidable (Clean s a) := by
  cases a <;> unfold Clean <;> infer_instance

/-! ## Every run -/

variable {s s' : State} {d : Nat} {fetch : Nat → Option Nat}

theorem fetchEvents_append (s : State) (fetch : Nat → Option Nat) (d : Nat) :
    (s.fetchEvents fetch d).1 ++ (s.fetchEvents fetch d).2 = s.pending d := by
  unfold State.fetchEvents
  split
  · exact List.take_append_drop _ _
  · rfl

theorem surfaced_none_iff {l : List Raw} :
    l.filterMap translate = [] ↔ ¬ ∃ r ∈ l, r.Surfaced := by
  simp [Raw.Surfaced, Option.isSome_iff_ne_none]

theorem of_append (l l' : List (Nat × InputEvent)) : of d (l ++ l') = of d l ++ of d l' := by
  simp [of]

theorem of_tagged (d d' : Nat) (l : List InputEvent) :
    of d (l.map fun e => (d', e)) = if d' = d then l else [] := by
  by_cases h : d' = d
  · simp [of, h, List.filter_map, Function.comp_def]
  · simp [of, h, List.filter_map, Function.comp_def]

theorem surfaced_append (l l' : List (Nat × Raw)) :
    surfaced (l ++ l') = surfaced l ++ surfaced l' := by
  simp [surfaced]

theorem surfaced_tagged (d : Nat) (l : List Raw) :
    surfaced (l.map fun r => (d, r)) = (l.filterMap translate).map fun e => (d, e) := by
  simp [surfaced, List.filterMap_map, List.map_filterMap]

theorem of_flatMap (f : Nat → List InputEvent) (n : Nat) :
    of d ((List.range n).flatMap fun d' => (f d').map fun e => (d', e)) =
      if d < n then f d else [] := by
  induction n with
  | zero => simp [of]
  | succ n ih =>
    rw [List.range_succ, List.flatMap_append, of_append, ih]
    simp only [List.flatMap_cons, List.flatMap_nil, List.append_nil, of_tagged]
    obtain hlt | heq | hgt := Nat.lt_trichotomy n d
    · simp [Nat.not_lt.mpr (Nat.le_of_lt hlt), Nat.ne_of_lt hlt, Nat.not_lt.mpr hlt]
    · simp [heq]
    · simp [hgt, Nat.ne_of_gt hgt, Nat.lt_succ_of_lt hgt]

theorem perm_of_parts {l l' : List (Nat × InputEvent)} (h : ∀ d, of d l = of d l') : l.Perm l' := by
  have hcount : ∀ (l : List (Nat × InputEvent)) (p : Nat × InputEvent),
      l.count p = (of p.1 l).count p.2 := by
    intro l p
    induction l with
    | nil => rfl
    | cons q l ih =>
      rw [List.count_cons, ih]
      by_cases hd : q.1 = p.1
      · simp [of, hd, List.count_cons, Prod.ext_iff]
      · simp [of, hd, Prod.ext_iff]
  exact List.perm_iff_count.mpr fun p => by rw [hcount, hcount, h]

/-- The parts of each device follow on each other, and no wheel turns twice. -/
structure Kept (s : State) : Prop where
  parts : ∀ d, of d s.delivered ++ (of d s.buffer).reverse ++ (s.pending d).filterMap translate =
    of d (surfaced s.produced)
  closed : ∀ d, s.devices ≤ d → s.pending d = []
  lowRes : ∀ r ∈ s.produced, ¬ r.2.HighRes

/-- When the last poll has come back empty, nothing is left that would make an event. -/
structure Inv (s : State) : Prop extends Kept s where
  drained : s.last = some .none → s.buffer = [] ∧ ∀ d, (s.pending d).filterMap translate = []

theorem on_translate {r : Raw} (h : ¬ r.HighRes) (axis : MouseAxis) :
    ((translate r).map fun e => e.on axis).getD 0 = r.on axis := by
  obtain ⟨kind, value⟩ := r
  cases kind with
  | key code =>
    unfold translate
    dsimp only
    split <;> rfl
  | other => simp [translate, Raw.on]
  | relAxis code =>
    have hvalue : code = 0x0b ∨ code = 0x0c → value = 0 := by
      intro hcode
      by_contra hne
      exact h ⟨by simpa using hcode, hne⟩
    simp only [translate, translateRelAxis, Raw.on, Kind.relAxis.injEq]
    split_ifs <;> cases axis <;> simp_all [InputEvent.on, MouseAxis.code]

theorem Inv.correct (hs : Inv s) : Correct s := by
  have hdrained : s.last = some .none → ∀ d, of d s.delivered = of d (surfaced s.produced) := by
    intro hlast d
    obtain ⟨hbuffer, hpending⟩ := hs.drained hlast
    rw [← hs.parts d, hbuffer, hpending]
    simp [of]
  refine ⟨fun d => ?_, hdrained, fun hlast axis => ?_⟩
  · rw [← hs.parts d, List.append_assoc]
    exact List.prefix_append _ _
  · rw [((perm_of_parts (hdrained hlast)).map _).sum_eq]
    have hlow := hs.lowRes
    generalize s.produced = l at hlow
    clear hs hdrained hlast
    induction l with
    | nil => rfl
    | cons r l ih =>
      obtain ⟨hr, hrest⟩ := List.forall_mem_cons.mp hlow
      have hon := on_translate hr axis
      rw [List.map_cons, List.sum_cons, ← ih hrest, ← hon]
      cases ht : translate r.2 <;> simp [surfaced, ht]

/-- One event leaves the buffer at its end. -/
theorem Kept.pop (hs : Kept s) (gamepad : Gamepad)
    (hnone : gamepad = .none → s.buffer = [] → ∀ d, (s.pending d).filterMap translate = []) :
    Inv (s.pop gamepad) := by
  unfold State.pop
  cases hlast : s.buffer.getLast? with
  | none =>
    have hempty := List.getLast?_eq_none_iff.mp hlast
    refine ⟨⟨hs.parts, hs.closed, hs.lowRes⟩, fun hreturned => ⟨hempty, ?_⟩⟩
    cases gamepad with
    | none => exact hnone rfl hempty
    | event | error => simp at hreturned
  | some e =>
    refine ⟨⟨fun d => ?_, hs.closed, hs.lowRes⟩, nofun⟩
    have hparts := hs.parts d
    rw [← List.dropLast_append_getLast? e hlast, of_append, List.reverse_append] at hparts
    rw [← hparts, of_append]
    by_cases hd : e.1 = d <;> simp [of, hd]

theorem of_refill (hempty : s.buffer = []) (fetch : Nat → Option Nat) (d : Nat) :
    of d (s.refill fetch).buffer =
      if d < s.devices then (s.fetchEvents fetch d).1.filterMap translate else [] := by
  simp only [State.refill, hempty, List.nil_append]
  exact of_flatMap (fun d => (s.fetchEvents fetch d).1.filterMap translate) _

theorem Kept.refill (hs : Kept s) (hempty : s.buffer = [])
    (heven : ∀ d < s.devices, ((s.fetchEvents fetch d).1.filterMap translate).reverse =
      (s.fetchEvents fetch d).1.filterMap translate) :
    Kept (s.refill fetch) := by
  refine ⟨fun d => ?_, fun d hd => ?_, hs.lowRes⟩
  · have hparts := hs.parts d
    rw [hempty] at hparts
    refine Eq.trans ?_ hparts
    rw [of_refill hempty]
    simp only [State.refill, of, List.filter_nil, List.map_nil, List.reverse_nil, List.append_nil]
    by_cases hlt : d < s.devices
    · rw [if_pos hlt, if_pos hlt, heven d hlt, List.append_assoc, ← List.filterMap_append,
        fetchEvents_append]
    · simp [hlt]
  · have hge : ¬ d < s.devices := Nat.not_lt.mpr hd
    simp only [State.refill, hge, if_false]
    exact hs.closed d hd

theorem Kept.drained_of_refill (hs : Kept s) (hempty : s.buffer = [])
    (hreach : (∃ d < s.devices, ∃ r ∈ s.pending d, r.Surfaced) →
      ∃ d < s.devices, ∃ r ∈ (s.fetchEvents fetch d).1, r.Surfaced)
    (hbuffer : (s.refill fetch).buffer = []) (d : Nat) :
    ((s.refill fetch).pending d).filterMap translate = [] := by
  have hgiven : ¬ ∃ d < s.devices, ∃ r ∈ (s.fetchEvents fetch d).1, r.Surfaced := by
    rintro ⟨d', hd', hsurfaced⟩
    have hread := of_refill hempty fetch d'
    rw [hbuffer, if_pos hd'] at hread
    exact surfaced_none_iff.mp hread.symm hsurfaced
  rw [surfaced_none_iff]
  rintro ⟨r, hr, hsurfaced⟩
  by_cases hd : d < s.devices
  · simp only [State.refill, if_pos hd] at hr
    refine hgiven (hreach ⟨d, hd, r, ?_, hsurfaced⟩)
    rw [← fetchEvents_append s fetch d]
    exact List.mem_append_right _ hr
  · simp only [State.refill, if_neg hd, hs.closed d (Nat.not_lt.mp hd), List.not_mem_nil] at hr

theorem Inv.step (hs : Inv s) {a : Step} (hok : Clean s a) (hn : next s a = some s') : Inv s' := by
  cases a with
  | produce d batch =>
    simp only [next] at hn
    split at hn
    · next hd =>
      cases hn
      refine ⟨⟨fun d' => ?_, fun d' hd' => ?_, ?_⟩, nofun⟩
      · simp only [surfaced_append, surfaced_tagged, of_append, of_tagged, ← hs.parts d']
        by_cases h : d = d'
        · subst h
          simp
        · simp [h, Function.update_of_ne (Ne.symm h)]
      · dsimp only at hd' ⊢
        rw [Function.update_of_ne (by omega)]
        exact hs.closed d' hd'
      · intro r hr
        rcases List.mem_append.mp hr with hr | hr
        · exact hs.lowRes r hr
        · obtain ⟨r, hmem, rfl⟩ := List.mem_map.mp hr
          exact hok r hmem
    · cases hn
  | poll fetch gamepad =>
    cases hn
    by_cases hempty : s.buffer = []
    · obtain ⟨heven, hreach⟩ := hok hempty
      rw [if_pos hempty]
      refine (hs.toKept.refill hempty heven).pop gamepad fun hgamepad hbuffer d => ?_
      exact hs.toKept.drained_of_refill hempty
        (fun hready => (hreach hready).resolve_left (not_not_intro hgamepad)) hbuffer d
    · rw [if_neg hempty]
      exact hs.toKept.pop gamepad fun _ h => absurd h hempty

/-- **Input in order**: in every run that keeps to the condition, each device's events are returned
    once and in its order, nothing is returned only when there is nothing, and the wheels turn as
    far as the devices say. -/
theorem input_in_order (h : machine.ReachableIf Clean s) : Correct s := by
  refine (h.invariant (P := Inv) (fun s hinit => ?_) fun s a s' hs hok hn => hs.step hok hn).correct
  obtain ⟨hpending, hbuffer, hproduced, hdelivered, hlast⟩ := hinit
  refine ⟨⟨fun d => ?_, fun d _ => hpending d, ?_⟩, ?_⟩
  · simp [hpending, hbuffer, hproduced, hdelivered, surfaced, of]
  · simp [hproduced]
  · simp [hlast]

def start : State := ⟨2, fun _ => [], [], [], [], none⟩

def press : Raw := ⟨.key 0x1e, 1⟩

def release : Raw := ⟨.key 0x1e, 0⟩

theorem start_init : machine.init start := ⟨fun _ => rfl, rfl, rfl, rfl, rfl⟩

/-- A poll whose reads give one event each. -/
def pollOne : Step := .poll (fun _ => some 1) .none

/-- A key is pressed and let go and a wheel turned. Two polls return the press and the turn, the
    third reads on, and the last finds nothing. -/
def turnAndPress : List Step :=
  [.produce 0 [press, release], .produce 1 [⟨.relAxis 0x08, 1⟩], pollOne, pollOne, pollOne, pollOne]

theorem input_in_order_press : ∃ s, machine.exec start turnAndPress = some s ∧
    s.delivered = [(1, .mouseAxis .wheel 1), (0, .key 0x1e true), (0, .key 0x1e false)] ∧
    s.last = some .none ∧ Correct s :=
  ⟨_, rfl, rfl, rfl,
    input_in_order (Machine.reachableIf_of_execIf (l := turnAndPress) (.start start_init) rfl)⟩

/-- A key pressed and let go between two polls is let go first; and a step of the wheel that is also
    reported in smaller ones turns it by 121. -/
theorem input_out_of_order :
    (∃ s, machine.Reachable s ∧ s.delivered = [(0, .key 0x1e false)] ∧ ¬ Correct s) ∧
    ∃ s, machine.Reachable s ∧ (s.delivered.map fun e => e.2.on .wheel).sum = 121 ∧
      ¬ Correct s := by
  have hexec : ∀ {l s}, machine.exec start l = some s → machine.Reachable s :=
    Machine.reachable_of_exec start_init
  refine ⟨⟨_, hexec (l := [.produce 0 [press, release], .poll (fun _ => some 32) .none]) rfl, rfl,
    fun h => absurd (h.order 0) (by decide)⟩, _, hexec (l := [
    .produce 1 [⟨.relAxis 0x08, 1⟩, ⟨.relAxis 0x0b, 120⟩], .poll (fun _ => some 32) .none,
    .poll (fun _ => some 32) .none, .poll (fun _ => some 32) .none]) rfl, rfl,
    fun h => absurd (h.wheels rfl .wheel) (by decide)⟩

end WinCompat.Input
