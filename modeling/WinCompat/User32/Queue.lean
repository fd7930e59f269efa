import WinCompat.Lib.Machine
import WinCompat.User32.Model

/-!
# The message queue

What a thread has posted and fetched, without a queue: `posted` is every message that was posted, in
order, `removed` those that a fetching call has returned while some were left, `quit` the latest code
of `PostQuitMessage`. `Serves` says what a fetching call answers, from these and from the events of the
window that is polled; every run keeps it (`queue_serves`).
-/

namespace WinCompat.User32

open Lib

/-- A call of `GetMessageW` or `PeekMessageW`; `lpmsg` is whether the pointer is not null. -/
inductive Fetch
  | get (lpmsg : Bool) (hwnd : Hwnd) (min max : BitVec 32)
  | peek (lpmsg : Bool) (hwnd : Hwnd) (min max remove : BitVec 32)
  deriving DecidableEq

def Fetch.lpmsg : Fetch → Bool
  | .get lpmsg .. => lpmsg
  | .peek lpmsg .. => lpmsg

def Fetch.isGet : Fetch → Bool
  | .get .. => true
  | .peek .. => false

def State.fetch (s : State) : Fetch → Fetched × State
  | .get lpmsg hwnd min max => s.getMessageW lpmsg hwnd min max
  | .peek lpmsg hwnd min max remove => s.peekMessageW lpmsg hwnd min max remove

/-- What the host does to the window at an index of the table. -/
def State.updateHost (s : State) (i : Nat) (f : HostWindow → HostWindow) : State :=
  { s with windows := s.windows.modify i fun entry =>
      (entry.1, { entry.2 with window := entry.2.window.map f }) }

inductive Step
  | postMessage (hwnd : Hwnd) (msg : BitVec 32) (wParam lParam : BitVec 64)
  | postQuitMessage (exitCode : BitVec 32)
  | fetch (f : Fetch)
  | hostEvent (i : Nat) (e : WindowEvent)
  | hostLost (i : Nat)
  deriving DecidableEq

/-! ## Runs -/

structure QueueRun where
  state : State
  posted : List Msg := []
  removed : List Msg := []
  quit : Option (BitVec 32) := none
  deriving DecidableEq

namespace QueueRun

/-- The message that is next in the order of posting. -/
def next? (s : QueueRun) : Option Msg := s.posted[s.removed.length]?

def step (s : QueueRun) : Step → QueueRun
  | .postMessage hwnd msg wParam lParam =>
    { s with
      state := s.state.postMessageInternal hwnd msg wParam lParam
      posted := s.posted ++
        [{ hwnd := hwnd, message := msg, wParam := wParam, lParam := lParam }] }
  | .postQuitMessage exitCode =>
    { s with state := s.state.postQuitMessage exitCode, quit := some exitCode }
  | .fetch f =>
    { s with
      state := (s.state.fetch f).2
      removed := s.removed ++
        if f.lpmsg ∧ s.next?.isSome then (s.state.fetch f).1.msg.toList else [] }
  | .hostEvent i e =>
    { s with state := s.state.updateHost i fun w => { w with pending := w.pending ++ [e] } }
  | .hostLost i => { s with state := s.state.updateHost i fun w => { w with lost := true } }

end QueueRun

/-- The thread starts with any windows, nothing posted and no quit. -/
def queueRuns : Machine QueueRun Step where
  init s := ∃ windows, s = { state := { windows := windows } }
  next s a := some (s.step a)

/-! ## What a fetching call should answer -/

/-- The window that is polled: the first that owns a host window, read by its handle. -/
def State.polledWindow (s : State) : Option (Hwnd × HostWindow) :=
  s.hostOwner.bind fun hwnd =>
    ((s.windows.lookup hwnd).bind WindowEntry.window).map fun w => (hwnd, w)

/-- The message of an event. -/
def WindowEvent.toMsg (hwnd : Hwnd) (e : WindowEvent) : Msg :=
  (({} : State).translateEventToMsg hwnd e).1

structure Serves (s : QueueRun) : Prop where
  /-- What was removed is what was posted first, once each and in order. -/
  order : s.removed <+: s.posted
  /-- The oldest message that is left is returned, whatever the filter and the flag. -/
  oldest : ∀ f m, f.lpmsg = true → s.next? = some m →
    (s.state.fetch f).1 =
      { code := if f.isGet ∧ m.message = wmQuit then 0 else 1, msg := some m }
  /-- With none left, `GetMessageW` returns the quit message, for ever. -/
  quits : ∀ f c, f.lpmsg = true → f.isGet → s.next? = none → s.quit = some c →
    s.state.fetch f =
      ({ code := 0, msg := some { message := wmQuit, wParam := c.signExtend 64 } }, s.state)
  /-- Otherwise an event of the polled window is returned, and is then no longer pending. -/
  event : ∀ f hwnd w e rest, f.lpmsg = true → s.next? = none → s.quit = none →
    s.state.polledWindow = some (hwnd, w) → w.lost = false → w.pending = e :: rest →
    (s.state.fetch f).1 = { code := 1, msg := some (e.toMsg hwnd) } ∧
      ((s.state.fetch f).2.windows.lookup hwnd).bind WindowEntry.window =
        some { w with pending := rest }
  /-- There is no message only if that window has no event to give. -/
  idle : ∀ f, f.lpmsg = true → s.next? = none → s.quit = none →
    (∀ hwnd w, s.state.polledWindow = some (hwnd, w) → w.lost = true ∨ w.pending = []) →
    (s.state.fetch f).1 =
      if f.isGet then { code := 1, msg := some { message := wmNull } } else { code := 0 }
  /-- A null pointer is refused. -/
  refused : ∀ f, f.lpmsg = false →
    s.state.fetch f = ({ code := if f.isGet then -1 else 0 }, s.state)

/-! ## Polling -/

section Polling

variable {s : State} {hwnd : Hwnd} {w : HostWindow} {e : WindowEvent} {rest : List WindowEvent}

theorem translateEventToMsg_fst : (s.translateEventToMsg hwnd e).1 = e.toMsg hwnd := by
  cases e <;> rfl

theorem translateEventToMsg_window (h : Hwnd) :
    (((s.translateEventToMsg hwnd e).2.windows.lookup h).bind WindowEntry.window) =
      (s.windows.lookup h).bind WindowEntry.window := by
  cases e with
  | resize width height => exact Assoc.bind_lookup_adjust WindowEntry.window fun _ => rfl
  | _ => rfl

theorem translateEventToMsg_queue :
    (s.translateEventToMsg hwnd e).2.queue = s.queue ∧
      (s.translateEventToMsg hwnd e).2.quitCode = s.quitCode := by
  cases e <;> exact ⟨rfl, rfl⟩

theorem pollHostEvent_none (h : s.polledWindow = none) : s.pollHostEvent = (none, s) := by
  cases howner : s.hostOwner with
  | none => simp [State.pollHostEvent, howner]
  | some hwnd =>
    unfold State.polledWindow at h
    rw [howner, Option.bind_some, Option.map_eq_none_iff] at h
    simp only [State.pollHostEvent, howner, h]

/-- The polled window after a poll. -/
def State.polled (s : State) (hwnd : Hwnd) (w : HostWindow) : State :=
  s.updateWindow hwnd fun entry => { entry with window := some w.pollEvent.2 }

theorem pollHostEvent_some (h : s.polledWindow = some (hwnd, w)) :
    s.pollHostEvent = match w.pollEvent.1 with
      | none => (none, s.polled hwnd w)
      | some e => (some (e.toMsg hwnd), ((s.polled hwnd w).translateEventToMsg hwnd e).2) := by
  obtain ⟨h, howner, hmap⟩ := Option.bind_eq_some_iff.mp h
  obtain ⟨win, hwin, heq⟩ := Option.map_eq_some_iff.mp hmap
  cases heq
  unfold State.pollHostEvent
  simp only [howner, hwin]
  cases w.pollEvent.1 with
  | none => rfl
  | some e =>
    simp only [translateEventToMsg_fst]
    rfl

theorem pollHostEvent_event (hpolled : s.polledWindow = some (hwnd, w)) (hlost : w.lost = false)
    (hpending : w.pending = e :: rest) :
    s.pollHostEvent.1 = some (e.toMsg hwnd) ∧
      (s.pollHostEvent.2.windows.lookup hwnd).bind WindowEntry.window =
        some { w with pending := rest } := by
  have hpoll : w.pollEvent = (some e, { w with pending := rest }) := by
    unfold HostWindow.pollEvent
    rw [hlost, hpending]
  have hentry : ((s.windows.lookup hwnd).bind WindowEntry.window) = some w := by
    obtain ⟨h, -, hmap⟩ := Option.bind_eq_some_iff.mp hpolled
    obtain ⟨win, hwin, heq⟩ := Option.map_eq_some_iff.mp hmap
    cases heq
    exact hwin
  obtain ⟨entry, hlookup, -⟩ := Option.bind_eq_some_iff.mp hentry
  rw [pollHostEvent_some hpolled, hpoll]
  refine ⟨rfl, (translateEventToMsg_window hwnd).trans ?_⟩
  unfold State.polled State.updateWindow
  rw [Assoc.lookup_adjust_self, hlookup, hpoll]
  rfl

theorem pollHostEvent_idle
    (h : ∀ hwnd w, s.polledWindow = some (hwnd, w) → w.lost = true ∨ w.pending = []) :
    s.pollHostEvent.1 = none := by
  cases hpolled : s.polledWindow with
  | none => rw [pollHostEvent_none hpolled]
  | some p =>
    have hpoll : p.2.pollEvent.1 = none := by
      unfold HostWindow.pollEvent
      rcases h p.1 p.2 hpolled with hlost | hpending
      · rw [hlost]
      · rw [hpending]
        cases p.2.lost <;> rfl
    rw [pollHostEvent_some hpolled, hpoll]

theorem pollHostEvent_queue :
    s.pollHostEvent.2.queue = s.queue ∧ s.pollHostEvent.2.quitCode = s.quitCode := by
  cases hpolled : s.polledWindow with
  | none =>
    rw [pollHostEvent_none hpolled]
    exact ⟨rfl, rfl⟩
  | some p =>
    rw [pollHostEvent_some hpolled]
    cases p.2.pollEvent.1 with
    | none => exact ⟨rfl, rfl⟩
    | some e => exact translateEventToMsg_queue

end Polling

/-! ## Fetching -/

section Fetching

variable {s : State} {f : Fetch}

theorem fetch_null (h : f.lpmsg = false) :
    s.fetch f = ({ code := if f.isGet then -1 else 0 }, s) := by
  cases f <;> cases h <;> rfl

theorem fetch_cons {m : Msg} {rest : List Msg} (h : f.lpmsg = true) (hq : s.queue = m :: rest) :
    s.fetch f = ({ code := if f.isGet ∧ m.message = wmQuit then 0 else 1, msg := some m },
      { s with queue := rest }) := by
  cases f with
  | get =>
    cases h
    simp [State.fetch, State.getMessageW, hq, Fetch.isGet]
  | peek =>
    cases h
    simp [State.fetch, State.peekMessageW, hq, Fetch.isGet]

theorem fetch_quit {c : BitVec 64} (h : f.lpmsg = true) (hget : f.isGet) (hq : s.queue = [])
    (hquit : s.quitCode = some c) :
    s.fetch f = ({ code := 0, msg := some { message := wmQuit, wParam := c } }, s) := by
  cases f with
  | get =>
    cases h
    simp [State.fetch, State.getMessageW, hq, hquit]
  | peek => cases hget

theorem fetch_poll (h : f.lpmsg = true) (hq : s.queue = []) (hquit : s.quitCode = none) :
    s.fetch f = (match s.pollHostEvent.1 with
      | some m => { code := 1, msg := some m }
      | none => if f.isGet then { code := 1, msg := some { message := wmNull } } else { code := 0 },
      s.pollHostEvent.2) := by
  rcases hpoll : s.pollHostEvent with ⟨msg, s'⟩
  cases f with
  | get =>
    cases h
    cases msg <;> simp [State.fetch, State.getMessageW, hq, hquit, hpoll, Fetch.isGet]
  | peek =>
    cases h
    cases msg <;> simp [State.fetch, State.peekMessageW, hq, hpoll, Fetch.isGet]

theorem peek_poll {hwnd : Hwnd} {min max remove : BitVec 32} (hq : s.queue = []) :
    s.fetch (.peek true hwnd min max remove) =
      ({ code := if s.pollHostEvent.1.isSome then 1 else 0, msg := s.pollHostEvent.1 },
        s.pollHostEvent.2) := by
  rcases hpoll : s.pollHostEvent with ⟨msg, s'⟩
  cases msg <;> simp [State.fetch, State.peekMessageW, hq, hpoll]

theorem fetch_cases (s : State) (f : Fetch) :
    ((s.fetch f).1.msg = none ∧ (s.fetch f).2 = s) ∨
      (∃ m rest, s.queue = m :: rest ∧ (s.fetch f).1.msg = some m ∧
        (s.fetch f).2 = { s with queue := rest }) ∨
      (∃ c, s.quitCode = some c ∧ (s.fetch f).1.msg = some { message := wmQuit, wParam := c } ∧
        (s.fetch f).2 = s) ∨
      (s.queue = [] ∧ (s.fetch f).2 = s.pollHostEvent.2 ∧
        ((s.fetch f).1.msg = s.pollHostEvent.1 ∨
          (s.fetch f).1.msg = some { message := wmNull })) := by
  cases hptr : f.lpmsg with
  | false =>
    rw [fetch_null hptr]
    exact Or.inl ⟨rfl, rfl⟩
  | true =>
    right
    cases hq : s.queue with
    | cons m rest =>
      rw [fetch_cons hptr hq]
      exact Or.inl ⟨m, rest, rfl, rfl, rfl⟩
    | nil =>
      right
      cases f with
      | get lpmsg hwnd min max =>
        cases hquit : s.quitCode with
        | some c =>
          rw [fetch_quit hptr rfl hq hquit]
          exact Or.inl ⟨c, rfl, rfl, rfl⟩
        | none =>
          rw [fetch_poll hptr hq hquit]
          cases s.pollHostEvent.1 with
          | some m => exact Or.inr ⟨rfl, rfl, Or.inl rfl⟩
          | none => exact Or.inr ⟨rfl, rfl, Or.inr rfl⟩
      | peek lpmsg hwnd min max remove =>
        cases hptr
        rw [peek_poll hq]
        exact Or.inr ⟨rfl, rfl, Or.inl rfl⟩

theorem fetch_nil (hq : s.queue = []) :
    (s.fetch f).2.queue = [] ∧ (s.fetch f).2.quitCode = s.quitCode := by
  obtain ⟨hqueue, hcode⟩ := pollHostEvent_queue (s := s)
  rcases fetch_cases s f with ⟨-, hs⟩ | ⟨m, rest, hcons, -⟩ | ⟨c, -, -, hs⟩ | ⟨-, hs, -⟩
  · rw [hs]
    exact ⟨hq, rfl⟩
  · cases hq.symm.trans hcons
  · rw [hs]
    exact ⟨hq, rfl⟩
  · rw [hs]
    exact ⟨hqueue.trans hq, hcode⟩

end Fetching

/-! ## The queue is what is left of what was posted -/

structure Refines (s : QueueRun) : Prop where
  queue : s.posted = s.removed ++ s.state.queue
  quit : s.state.quitCode = s.quit.map (BitVec.signExtend 64)

variable {s : QueueRun}

theorem Refines.next? (h : Refines s) : s.next? = s.state.queue.head? := by
  unfold QueueRun.next?
  rw [h.queue, List.getElem?_append_right (Nat.le_refl _), Nat.sub_self, List.head?_eq_getElem?]

theorem Refines.fetch (h : Refines s) (f : Fetch) : Refines (s.step (.fetch f)) := by
  cases hq : s.state.queue with
  | nil =>
    obtain ⟨hqueue, hcode⟩ := fetch_nil (f := f) hq
    have hnone : s.next? = none := by rw [h.next?, hq]; rfl
    constructor
    · simp [QueueRun.step, hnone, hqueue, h.queue, hq]
    · exact hcode.trans h.quit
  | cons m rest =>
    have hsome : s.next? = some m := by rw [h.next?, hq]; rfl
    cases hptr : f.lpmsg with
    | false =>
      constructor
      · simp [QueueRun.step, hptr, fetch_null hptr, h.queue]
      · simpa [QueueRun.step, fetch_null hptr] using h.quit
    | true =>
      constructor
      · simp [QueueRun.step, hptr, hsome, fetch_cons hptr hq, h.queue, hq]
      · simpa [QueueRun.step, fetch_cons hptr hq] using h.quit

theorem Refines.step (h : Refines s) (a : Step) : Refines (s.step a) := by
  cases a with
  | postMessage hwnd msg wParam lParam =>
    constructor
    · simp [QueueRun.step, State.postMessageInternal, h.queue]
    · exact h.quit
  | postQuitMessage exitCode => exact ⟨h.queue, rfl⟩
  | fetch f => exact h.fetch f
  | hostEvent i e => exact ⟨h.queue, h.quit⟩
  | hostLost i => exact ⟨h.queue, h.quit⟩

theorem queue_refines (h : queueRuns.Reachable s) : Refines s := by
  apply h.invariant
  · intro s hs
    obtain ⟨windows, rfl⟩ := hs
    exact ⟨rfl, rfl⟩
  · intro s a s' hs hn
    cases hn
    exact hs.step a

theorem Refines.serves (h : Refines s) : Serves s := by
  have hempty : s.next? = none → s.state.queue = [] := by
    intro hnext
    rw [h.next?] at hnext
    exact List.head?_eq_none_iff.mp hnext
  have hnoquit : s.quit = none → s.state.quitCode = none := by
    intro hquit
    rw [h.quit, hquit]
    rfl
  constructor
  · exact ⟨s.state.queue, h.queue.symm⟩
  · intro f m hptr hnext
    rw [h.next?] at hnext
    obtain ⟨rest, hq⟩ := List.head?_eq_some_iff.mp hnext
    rw [fetch_cons hptr hq]
  · intro f c hptr hget hnext hquit
    apply fetch_quit hptr hget (hempty hnext)
    rw [h.quit, hquit]
    rfl
  · intro f hwnd w e rest hptr hnext hquit hpolled hlost hpending
    obtain ⟨hmsg, hwindow⟩ := pollHostEvent_event hpolled hlost hpending
    rw [fetch_poll hptr (hempty hnext) (hnoquit hquit), hmsg]
    exact ⟨rfl, hwindow⟩
  · intro f hptr hnext hquit hidle
    rw [fetch_poll hptr (hempty hnext) (hnoquit hquit), pollHostEvent_idle hidle]
  · intro f hptr
    exact fetch_null hptr

/-- In every run a fetching call answers from what was posted and has not been fetched yet, oldest
    first. No queue occurs in the statement: the three lists of the run stand for it. -/
theorem queue_serves (h : queueRuns.Reachable s) : Serves s :=
  (queue_refines h).serves

/-- A message posted for one window and fetched for another, with a quit behind it. -/
def mixedSteps : List Step :=
  [.postMessage 1 7 0 0, .postQuitMessage 3, .postMessage 2 8 0 0, .fetch (.get true 2 8 8)]

theorem queue_serves_mixedSteps :
    ((mixedSteps.foldl QueueRun.step { state := {} }).state.fetch (.peek true 1 7 7 0)).1 =
      { code := 1, msg := some { hwnd := 2, message := 8 } } :=
  (queue_serves (Machine.reachable_of_exec (l := mixedSteps) ⟨[], rfl⟩ rfl)).oldest
    (.peek true 1 7 7 0) { hwnd := 2, message := 8 } rfl rfl

def hostedEntry (w : HostWindow) : WindowEntry where
  window := some w
  classAtom := 0x8001
  wndProc := 0x1000
  title := []
  width := 1
  height := 1

/-- A call whose filter does not match removes the message, a peek that should leave it removes it, and
    an event of the second window is not seen. -/
theorem filters_ignored :
    (let s := [Step.postMessage 1 7 0 0].foldl QueueRun.step { state := {} }
     (s.state.fetch (.get true 2 8 8)).1 = { code := 1, msg := some { hwnd := 1, message := 7 } } ∧
      (s.state.fetch (.peek true 1 7 7 0)).2.queue = []) ∧
    (let windows := [(1, hostedEntry {}), (2, hostedEntry {})]
     let s := [Step.hostEvent 1 .close].foldl QueueRun.step { state := { windows := windows } }
     (s.state.fetch (.peek true 0 0 0 1)).1 = { code := 0 } ∧
      (s.state.fetch (.get true 0 0 0)).1 = { code := 1, msg := some {} } ∧
      (s.state.windows.lookup 2).bind WindowEntry.window = some { pending := [.close] }) := by
  decide

end WinCompat.User32
