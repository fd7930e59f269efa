import WinCompat.User32.Queue

/-!
# Windows and their procedures

A thread makes calls, and so does a window procedure while it handles a message: `stack` holds the
procedures that have been called and have not returned. The log says which windows were made and
destroyed and who handled each message; `owner` reads the live windows off it.

`Obeys` is what windows are for. It holds of all runs in which no live window is destroyed, because
`destroy_window` posts `WM_DESTROY` for a window that is no longer in the table.
-/

namespace WinCompat.User32

open Lib

/-! ## The log -/

inductive Event
  /-- A window was made; `proc` is what was registered under its class name. -/
  | created (hwnd : Hwnd) (proc : WndProc)
  | destroyed (hwnd : Hwnd)
  /-- A message was handled by the procedure, by default processing if that is null. -/
  | delivered (hwnd : Hwnd) (message : BitVec 32) (proc : WndProc)
  deriving DecidableEq

/-- The procedure of a live window. The log is newest first. -/
def owner : List Event → Hwnd → Option WndProc
  | [], _ => none
  | .created hwnd proc :: log, h => if h = hwnd then some proc else owner log h
  | .destroyed hwnd :: log, h => if h = hwnd then none else owner log h
  | .delivered .. :: log, h => owner log h

/-! ## A thread and the procedures that it is in -/

/-- A procedure that was called with a message. `rest` is what the call that sent it has yet to send. -/
structure Frame where
  proc : WndProc
  msg : Msg
  rest : List Msg
  deriving DecidableEq

structure ThreadRun where
  state : State := {}
  stack : List Frame := []
  log : List Event := []
  /-- The messages that fetching calls have returned. -/
  received : List Msg := []
  /-- The guest has asked for the loop to end: see `ApiCall.asks`. -/
  asked : Bool := false
  deriving DecidableEq

inductive ApiCall
  | registerClassEx (lpwcx : Option (WndProc × WStr))
  | unregisterClass (name : WStr)
  | createWindowEx (className : WStr) (width height : BitVec 32) (host : Option HostWindow)
  | destroyWindow (hwnd : Hwnd)
  | sendMessage (m : Msg)
  | postMessage (hwnd : Hwnd) (msg : BitVec 32) (wParam lParam : BitVec 64)
  | fetch (f : Fetch)
  | dispatchMessage (lpmsg : Option Msg)
  | defWindowProc (m : Msg)
  | postQuitMessage (exitCode : BitVec 32)

inductive Label
  /-- The program, or the procedure that was called last, makes a call. -/
  | call (c : ApiCall)
  /-- The procedure that was called last returns. -/
  | ret
  | hostEvent (i : Nat) (e : WindowEvent)
  | hostLost (i : Nat)
  /-- Another thread takes an id. -/
  | otherThread

/-- The procedure registered under a class name. -/
def State.registeredProc (s : State) (className : WStr) : WndProc :=
  ((s.classes.find? fun c => c.name = widestringToString className).map
    ClassEntry.lpfnWndProc).getD 0

/-- What `destroy_window` adds to the log. -/
def State.destroys (s : State) (hwnd : Hwnd) : List Event :=
  if (s.proc? hwnd).isSome then [.destroyed hwnd] else []

namespace ThreadRun

variable (r : ThreadRun)

def destroyWindow (hwnd : Hwnd) : ThreadRun :=
  { r with state := (r.state.destroyWindow hwnd).2, log := r.state.destroys hwnd ++ r.log }

/-- Default processing. -/
def defWindowProc (m : Msg) : ThreadRun :=
  { r with
    state := r.state.defWindowProcW m.hwnd m.message m.wParam m.lParam
    log := (if m.message = wmClose then r.state.destroys m.hwnd else []) ++ r.log }

/-- Record who handled a message. -/
def deliveredTo (m : Msg) (proc : WndProc) : ThreadRun :=
  { r with log := .delivered m.hwnd m.message proc :: r.log }

end ThreadRun

/-- Send the messages in turn, until one of them calls a procedure. -/
def ThreadRun.send (r : ThreadRun) : List Msg → ThreadRun
  | [] => r
  | m :: rest =>
    match r.state.deliver m with
    | .calls proc => { r.deliveredTo m proc with stack := ⟨proc, m, rest⟩ :: r.stack }
    | .defaulted _ => ((r.deliveredTo m 0).defWindowProc m).send rest

/-- The calls by which the guest itself asks for the loop to end. Dispatching a message that the
    thread has fetched is none of them. -/
def ApiCall.asks (received : List Msg) : ApiCall → Bool
  | .sendMessage m | .defWindowProc m => m.message = wmDestroy
  | .postMessage _ msg _ _ => msg = wmDestroy ∨ msg = wmQuit
  | .dispatchMessage (some m) => m.message = wmDestroy ∧ m ∉ received
  | .postQuitMessage _ => true
  | _ => false

namespace ThreadRun

variable (r : ThreadRun)

def createWindow (className : WStr) (width height : BitVec 32) (host : Option HostWindow) :
    ThreadRun :=
  match r.state.openWindow className width height host with
  | (none, s) => { r with state := s }
  | (some (hwnd, proc), s) =>
    send { r with state := s, log := .created hwnd (r.state.registeredProc className) :: r.log }
      (State.creationMessages hwnd proc)

def perform : ApiCall → ThreadRun
  | .registerClassEx lpwcx => { r with state := (r.state.registerClassExW lpwcx).2 }
  | .unregisterClass name => { r with state := (r.state.unregisterClassW name).2 }
  | .createWindowEx className width height host => r.createWindow className width height host
  | .destroyWindow hwnd => r.destroyWindow hwnd
  | .sendMessage m => r.send [m]
  | .postMessage hwnd msg wParam lParam =>
    { r with state := r.state.postMessageInternal hwnd msg wParam lParam }
  | .fetch f =>
    { r with
      state := (r.state.fetch f).2
      received := (r.state.fetch f).1.msg.toList ++ r.received }
  | .dispatchMessage none => r
  | .dispatchMessage (some m) => r.send [m]
  | .defWindowProc m => r.defWindowProc m
  | .postQuitMessage exitCode => { r with state := r.state.postQuitMessage exitCode }

def next : Label → Option ThreadRun
  | .call c => some (perform { r with asked := r.asked || c.asks r.received } c)
  | .ret =>
    match r.stack with
    | [] => none
    | f :: stack => some (send { r with stack := stack } f.rest)
  | .hostEvent i e => some { r with
      state := r.state.updateHost i fun w => { w with pending := w.pending ++ [e] } }
  | .hostLost i => some { r with state := r.state.updateHost i fun w => { w with lost := true } }
  | .otherThread => some { r with state := r.state.fetchAdd }

end ThreadRun

def threadRuns : Machine ThreadRun Label where
  init r := r = {}
  next := ThreadRun.next

/-! ## What windows are for -/

/-- A message goes to the procedure of its window while that is live, and to no other. -/
def Handled (log : List Event) : Prop :=
  ∀ newer older hwnd message proc, log = newer ++ .delivered hwnd message proc :: older →
    proc = (owner older hwnd).getD 0

/-- What the guest may rely on for its window procedures. -/
structure Obeys (r : ThreadRun) : Prop where
  handled : Handled r.log
  /-- The procedure of a destroyed window has been given `WM_DESTROY` once. -/
  destroyed : ∀ newer older hwnd proc, r.log = newer ++ .destroyed hwnd :: older →
    owner older hwnd = some proc → proc ≠ 0 →
    newer.count (.delivered hwnd wmDestroy proc) = 1
  /-- The message loop does not end unless the guest asks for it. -/
  goesOn : r.asked = false → ∀ hwnd min max, (r.state.getMessageW true hwnd min max).1.code ≠ 0

/-- The handle was given to a new window. -/
def Event.creates (hwnd : Hwnd) : Event → Bool
  | .created hwnd' _ => hwnd' = hwnd
  | _ => false

/-- A new window is made with the procedure registered under its class name, and with a handle that no
    window has had. -/
def Label.Fresh (r : ThreadRun) : Label → Prop
  | .call (.createWindowEx className _ _ _) =>
    (∀ atom ∈ r.state.findClassByName (widestringToString className),
      r.state.classProc atom = r.state.registeredProc className) ∧
      ∀ e ∈ r.log, e.creates r.state.makeHwnd = false
  | _ => True

/-- The default processing of a message leaves live windows alone. -/
def SparesWindow (s : State) (m : Msg) : Prop := m.message = wmClose → s.proc? m.hwnd = none

/-- No live window is destroyed. -/
def Label.Spares (r : ThreadRun) : Label → Prop
  | .call (.destroyWindow hwnd) => r.state.proc? hwnd = none
  | .call (.defWindowProc m) => SparesWindow r.state m
  | .call (.sendMessage m) | .call (.dispatchMessage (some m)) =>
    r.state.wndProc m.hwnd = 0 → SparesWindow r.state m
  | _ => True

/-- A new window is what it should be, and no live window is destroyed. -/
def Label.Careful (r : ThreadRun) (a : Label) : Prop := a.Fresh r ∧ a.Spares r

/-! ## What calls leave alone -/

section Frame

variable (s : State)

theorem proc?_eq (hwnd : Hwnd) : s.proc? hwnd = s.procs.lookup hwnd :=
  (Assoc.lookup_map_snd WindowEntry.wndProc s.windows hwnd).symm

@[simp] theorem procs_fetchAdd : s.fetchAdd.procs = s.procs := rfl

theorem procs_updateWindow (hwnd : Hwnd) {f : WindowEntry → WindowEntry}
    (hf : ∀ w, (f w).wndProc = w.wndProc) : (s.updateWindow hwnd f).procs = s.procs :=
  Assoc.map_adjust WindowEntry.wndProc hf

@[simp] theorem procs_clearPaintFlag (hwnd : Hwnd) : (s.clearPaintFlag hwnd).procs = s.procs :=
  procs_updateWindow s hwnd fun _ => rfl

@[simp] theorem procs_updateHost (i : Nat) (f : HostWindow → HostWindow) :
    (s.updateHost i f).procs = s.procs := by
  apply Assoc.map_modify
  exact fun _ => rfl

@[simp] theorem procs_translateEventToMsg (hwnd : Hwnd) (e : WindowEvent) :
    (s.translateEventToMsg hwnd e).2.procs = s.procs := by
  cases e with
  | resize width height => exact procs_updateWindow s hwnd fun _ => rfl
  | _ => rfl

@[simp] theorem procs_pollHostEvent : s.pollHostEvent.2.procs = s.procs := by
  cases hpolled : s.polledWindow with
  | none => rw [pollHostEvent_none hpolled]
  | some p =>
    have hpoll : (s.polled p.1 p.2).procs = s.procs := procs_updateWindow s p.1 fun _ => rfl
    rw [pollHostEvent_some hpolled]
    cases p.2.pollEvent.1 with
    | none => exact hpoll
    | some e => exact (procs_translateEventToMsg _ p.1 e).trans hpoll

@[simp] theorem procs_fetch (f : Fetch) : (s.fetch f).2.procs = s.procs := by
  rcases fetch_cases s f with ⟨-, hs⟩ | ⟨m, rest, -, -, hs⟩ | ⟨c, -, -, hs⟩ | ⟨-, hs, -⟩
  · rw [hs]
  · rw [hs]
    rfl
  · rw [hs]
  · rw [hs, procs_pollHostEvent]

@[simp] theorem procs_registerClassExW (lpwcx : Option (WndProc × WStr)) :
    (s.registerClassExW lpwcx).2.procs = s.procs := by
  cases lpwcx <;> rfl

@[simp] theorem procs_unregisterClassW (name : WStr) :
    (s.unregisterClassW name).2.procs = s.procs := by
  cases name with
  | none => rfl
  | some units =>
    simp only [State.unregisterClassW]
    split <;> rfl

end Frame

theorem openWindow_cases (s : State) (className : WStr) (width height : BitVec 32)
    (host : Option HostWindow) :
    s.openWindow className width height host = (none, s) ∨
      ∃ atom s', s.findClassByName (widestringToString className) = some atom ∧
        s.openWindow className width height host = (some (s.makeHwnd, s.classProc atom), s') ∧
        s'.procs = s.procs ++ [(s.makeHwnd, s.classProc atom)] ∧
        s'.queue = s.queue ∧ s'.quitCode = s.quitCode := by
  unfold State.openWindow
  cases hclass : s.findClassByName (widestringToString className) with
  | none => exact Or.inl rfl
  | some atom =>
    refine Or.inr ⟨atom, _, rfl, rfl, ?_, rfl, rfl⟩
    simp [State.procs]

theorem defWindowProcW_cases (s : State) (m : Msg) :
    (m.message = wmDestroy ∧
        s.defWindowProcW m.hwnd m.message m.wParam m.lParam = s.postQuitMessage 0) ∨
      (m.message = wmClose ∧
        s.defWindowProcW m.hwnd m.message m.wParam m.lParam = (s.destroyWindow m.hwnd).2) ∨
      (m.message ≠ wmClose ∧
        (s.defWindowProcW m.hwnd m.message m.wParam m.lParam = s ∨
          s.defWindowProcW m.hwnd m.message m.wParam m.lParam = s.clearPaintFlag m.hwnd)) := by
  unfold State.defWindowProcW
  split_ifs with hdestroy hclose
  · exact Or.inl ⟨hdestroy, rfl⟩
  · exact Or.inr (Or.inl ⟨hclose, rfl⟩)
  · exact Or.inr (Or.inr ⟨hclose, Or.inr rfl⟩)
  · exact Or.inr (Or.inr ⟨hclose, Or.inl rfl⟩)

/-! ## The log says which windows are live -/

/-- The table of windows agrees with the log, and each delivery with what the log said then. -/
structure Tracks (s : State) (log : List Event) : Prop where
  owners : ∀ hwnd, s.procs.lookup hwnd = owner log hwnd
  distinct : (s.procs.map Prod.fst).Nodup
  handled : Handled log

variable {r : ThreadRun} {m : Msg} {s s' : State} {log : List Event} {hwnd : Hwnd}

theorem owner_eq_none (h : ∀ e ∈ log, e.creates hwnd = false) : owner log hwnd = none := by
  induction log with
  | nil => rfl
  | cons e log ih =>
    obtain ⟨he, hlog⟩ := List.forall_mem_cons.mp h
    cases e with
    | created hwnd' proc =>
      have hne : hwnd ≠ hwnd' := fun heq => of_decide_eq_false he heq.symm
      exact (if_neg hne).trans (ih hlog)
    | destroyed hwnd' =>
      unfold owner
      rw [ih hlog, ite_self]
    | delivered hwnd' message proc => exact ih hlog

/-- What is delivered next may be looked at alone. -/
theorem Handled.cons {e : Event} (h : Handled log)
    (he : ∀ hwnd message proc, e = .delivered hwnd message proc →
      proc = (owner log hwnd).getD 0) : Handled (e :: log) := by
  intro newer older hwnd message proc heq
  cases newer with
  | nil =>
    cases heq
    exact he hwnd message proc rfl
  | cons e' newer =>
    cases heq
    exact h newer older hwnd message proc rfl

theorem Tracks.congr (h : Tracks s log) (hs : s'.procs = s.procs) : Tracks s' log := by
  refine ⟨?_, ?_, h.handled⟩
  · rw [hs]
    exact h.owners
  · rw [hs]
    exact h.distinct

theorem Tracks.wndProc (h : Tracks s log) : s.wndProc hwnd = (owner log hwnd).getD 0 := by
  unfold State.wndProc
  rw [proc?_eq, h.owners]

theorem Tracks.delivered (h : Tracks s log) :
    Tracks s (.delivered m.hwnd m.message (s.wndProc m.hwnd) :: log) := by
  refine ⟨h.owners, h.distinct, h.handled.cons ?_⟩
  intro hwnd message proc heq
  cases heq
  exact h.wndProc

theorem Tracks.destroyWindow (h : Tracks s log) (hwnd : Hwnd) :
    Tracks (s.destroyWindow hwnd).2 (s.destroys hwnd ++ log) := by
  unfold State.destroyWindow State.destroys State.proc?
  rw [Option.isSome_map]
  split_ifs with hlive
  · have hprocs : (State.postMessageInternal { s with
        windows := s.windows.eraseP fun entry => entry.1 = hwnd } hwnd wmDestroy 0 0).procs =
          s.procs.eraseP fun p => p.1 = hwnd := by
      simp only [State.procs, State.postMessageInternal]
      rw [List.eraseP_map]
      rfl
    refine ⟨?_, ?_, h.handled.cons ?_⟩
    · intro hwnd'
      rw [hprocs]
      show _ = if hwnd' = hwnd then none else owner log hwnd'
      by_cases hsame : hwnd' = hwnd
      · rw [if_pos hsame, hsame]
        exact Assoc.lookup_eraseP_self h.distinct
      · rw [if_neg hsame, ← h.owners]
        exact Assoc.lookup_eraseP_ne hsame
    · rw [hprocs]
      exact (List.eraseP_sublist.map Prod.fst).nodup h.distinct
    · intro hwnd' message proc heq
      cases heq
  · exact h

theorem Tracks.created (h : Tracks s log) (hwnd : Hwnd) (proc : WndProc)
    (hs : s'.procs = s.procs ++ [(hwnd, proc)])
    (hfresh : ∀ e ∈ log, e.creates hwnd = false) : Tracks s' (.created hwnd proc :: log) := by
  have hnew : s.procs.lookup hwnd = none := by rw [h.owners, owner_eq_none hfresh]
  refine ⟨?_, ?_, h.handled.cons ?_⟩
  · intro hwnd'
    show _ = if hwnd' = hwnd then some proc else owner log hwnd'
    rw [hs, Assoc.lookup_append, Assoc.lookup_cons_ite]
    by_cases hsame : hwnd' = hwnd
    · rw [if_pos hsame, if_pos hsame.symm, hsame, hnew, Option.none_or]
    · rw [if_neg hsame, if_neg (Ne.symm hsame), List.lookup_nil, Option.or_none, h.owners]
  · rw [hs, List.map_append]
    apply h.distinct.append (List.nodup_singleton hwnd)
    intro hwnd' hmem hsame
    obtain ⟨p, hp, rfl⟩ := List.mem_map.mp hmem
    have hne := List.lookup_eq_none_iff.mp hnew p hp
    rw [List.mem_singleton.mp hsame] at hne
    simp at hne
  · intro hwnd' message proc' heq
    cases heq

theorem Tracks.defWindowProc (h : Tracks r.state r.log) (m : Msg) :
    Tracks (r.defWindowProc m).state (r.defWindowProc m).log := by
  unfold ThreadRun.defWindowProc
  rcases defWindowProcW_cases r.state m with ⟨hm, hs⟩ | ⟨hm, hs⟩ | ⟨hm, hs | hs⟩
  · rw [hs, hm, if_neg (by decide)]
    exact h.congr rfl
  · rw [hs, if_pos hm]
    exact h.destroyWindow m.hwnd
  · rw [hs, if_neg hm]
    exact h
  · rw [hs, if_neg hm]
    exact h.congr (procs_clearPaintFlag r.state m.hwnd)

theorem Tracks.send (ms : List Msg) (h : Tracks r.state r.log) :
    Tracks (r.send ms).state (r.send ms).log := by
  induction ms generalizing r with
  | nil => exact h
  | cons m rest ih =>
    have hdelivered := h.delivered (m := m)
    unfold ThreadRun.send State.deliver
    by_cases hproc : r.state.wndProc m.hwnd = 0
    · rw [if_neg (not_not.mpr hproc)]
      rw [hproc] at hdelivered
      exact ih (Tracks.defWindowProc (r := r.deliveredTo m 0) hdelivered m)
    · rw [if_pos hproc]
      exact hdelivered

theorem Tracks.perform (h : Tracks r.state r.log) {c : ApiCall} (hc : (Label.call c).Fresh r) :
    Tracks (r.perform c).state (r.perform c).log := by
  cases c with
  | registerClassEx lpwcx => exact h.congr (procs_registerClassExW r.state lpwcx)
  | unregisterClass name => exact h.congr (procs_unregisterClassW r.state name)
  | createWindowEx className width height host =>
    simp only [ThreadRun.perform, ThreadRun.createWindow]
    rcases openWindow_cases r.state className width height host with hnone | hsome
    · rw [hnone]
      exact h
    · obtain ⟨atom, s', hclass, hopen, hprocs, -⟩ := hsome
      rw [hopen]
      apply Tracks.send
      rw [hc.1 atom hclass] at hprocs
      exact h.created _ _ hprocs hc.2
  | destroyWindow hwnd => exact h.destroyWindow hwnd
  | sendMessage m => exact h.send [m]
  | postMessage hwnd msg wParam lParam => exact h.congr rfl
  | fetch f => exact h.congr (procs_fetch r.state f)
  | dispatchMessage lpmsg =>
    cases lpmsg with
    | none => exact h
    | some m => exact h.send [m]
  | defWindowProc m => exact h.defWindowProc m
  | postQuitMessage exitCode => exact h.congr rfl

theorem Tracks.next (h : Tracks r.state r.log) {a : Label} (hok : a.Fresh r) {r' : ThreadRun}
    (hn : r.next a = some r') : Tracks r'.state r'.log := by
  cases a with
  | call c =>
    cases hn
    apply Tracks.perform (r := { r with asked := r.asked || c.asks r.received }) h
    cases c <;> exact hok
  | ret =>
    unfold ThreadRun.next at hn
    cases hstack : r.stack with
    | nil => simp [hstack] at hn
    | cons f stack =>
      simp only [hstack, Option.some.injEq] at hn
      rw [← hn]
      exact Tracks.send (r := { r with stack := stack }) f.rest h
  | hostEvent i e =>
    cases hn
    exact h.congr (procs_updateHost r.state i _)
  | hostLost i =>
    cases hn
    exact h.congr (procs_updateHost r.state i _)
  | otherThread =>
    cases hn
    exact h.congr (procs_fetchAdd r.state)

theorem reachable_tracks (h : threadRuns.ReachableIf Label.Fresh r) : Tracks r.state r.log := by
  apply h.invariant
  · intro r hr
    rw [show r = {} from hr]
    refine ⟨fun _ => rfl, List.nodup_nil, ?_⟩
    intro newer older hwnd message proc heq
    cases newer <;> cases heq
  · exact fun r a r' hr hok hn => hr.next hok hn

/-! ## Nothing ends the loop in careful runs -/

/-- Nothing is under way that ends the message loop. -/
structure Calm (s : State) : Prop where
  noQuit : s.quitCode = none
  queue : ∀ m ∈ s.queue, m.message ≠ wmQuit ∧ m.message ≠ wmDestroy

/-- Default processing of the message neither ends the loop nor destroys a window. -/
def Inert (m : Msg) : Prop := m.message ≠ wmDestroy ∧ m.message ≠ wmClose

structure Quiet (r : ThreadRun) : Prop where
  intact : ∀ hwnd, .destroyed hwnd ∉ r.log
  rests : ∀ f ∈ r.stack, ∀ m ∈ f.rest, Inert m
  calm : r.asked = false → Calm r.state ∧ ∀ m ∈ r.received, m.message ≠ wmDestroy

theorem Quiet.setState (h : Quiet r) (hcalm : r.asked = false → Calm r.state → Calm s) :
    Quiet { r with state := s } where
  intact := h.intact
  rests := h.rests
  calm hasked := ⟨hcalm hasked (h.calm hasked).1, (h.calm hasked).2⟩

/-- An event that destroys no window is recorded. -/
theorem Quiet.record (h : Quiet r) {e : Event} (he : ∀ hwnd, e ≠ .destroyed hwnd) :
    Quiet { r with log := e :: r.log } where
  intact hwnd hmem := by
    rcases List.mem_cons.mp hmem with heq | hmem
    · exact he hwnd heq.symm
    · exact h.intact hwnd hmem
  rests := h.rests
  calm := h.calm

theorem Quiet.destroyWindow (h : Quiet r) (hnone : r.state.proc? hwnd = none) :
    Quiet (r.destroyWindow hwnd) := by
  have hlookup : r.state.windows.lookup hwnd = none := Option.map_eq_none_iff.mp hnone
  have hstay : r.destroyWindow hwnd = r := by
    simp [ThreadRun.destroyWindow, State.destroyWindow, State.destroys, hnone, hlookup]
  rw [hstay]
  exact h

theorem Quiet.defWindowProc (h : Quiet r) (hspares : SparesWindow r.state m)
    (hasks : m.message = wmDestroy → r.asked = true) : Quiet (r.defWindowProc m) := by
  unfold ThreadRun.defWindowProc
  rcases defWindowProcW_cases r.state m with ⟨hm, hs⟩ | ⟨hm, hs⟩ | ⟨hm, hs | hs⟩
  · rw [hs, hm, if_neg (by decide)]
    apply h.setState (s := r.state.postQuitMessage 0)
    intro hasked
    rw [hasks hm] at hasked
    cases hasked
  · rw [hs, if_pos hm]
    exact h.destroyWindow (hspares hm)
  · rw [hs, if_neg hm]
    exact h
  · rw [hs, if_neg hm]
    exact h.setState fun _ hcalm => ⟨hcalm.noQuit, hcalm.queue⟩

theorem Quiet.send_cons (h : Quiet r) {rest : List Msg}
    (hspares : r.state.wndProc m.hwnd = 0 → SparesWindow r.state m)
    (hasks : m.message = wmDestroy → r.asked = true) (hrest : ∀ m ∈ rest, Inert m)
    (ih : ∀ r, Quiet r → Quiet (r.send rest)) : Quiet (r.send (m :: rest)) := by
  have hdelivered : ∀ proc, Quiet (r.deliveredTo m proc) := by
    intro proc
    exact h.record fun hwnd heq => by cases heq
  unfold ThreadRun.send State.deliver
  by_cases hproc : r.state.wndProc m.hwnd = 0
  · rw [if_neg (not_not.mpr hproc)]
    exact ih _ ((hdelivered 0).defWindowProc (hspares hproc) hasks)
  · rw [if_pos hproc]
    refine ⟨(hdelivered _).intact, ?_, h.calm⟩
    intro f hf
    rcases List.mem_cons.mp hf with rfl | hf
    · exact hrest
    · exact h.rests f hf

theorem Quiet.send_inert {ms : List Msg} (hms : ∀ m ∈ ms, Inert m) :
    Quiet r → Quiet (r.send ms) := by
  induction ms generalizing r with
  | nil => exact id
  | cons m rest ih =>
    intro h
    obtain ⟨hm, hrest⟩ := List.forall_mem_cons.mp hms
    apply h.send_cons
    · intro _ hclose
      exact absurd hclose hm.2
    · intro hdestroy
      exact absurd hdestroy hm.1
    · exact hrest
    · exact fun r => ih hrest

theorem Quiet.send_one (h : Quiet r)
    (hspares : r.state.wndProc m.hwnd = 0 → SparesWindow r.state m)
    (hasks : m.message = wmDestroy → r.asked = true) : Quiet (r.send [m]) :=
  h.send_cons hspares hasks (fun _ hm => absurd hm List.not_mem_nil) fun _ h => h

theorem creationMessages_inert (hwnd : Hwnd) (proc : WndProc) :
    ∀ m ∈ State.creationMessages hwnd proc, Inert m := by
  unfold State.creationMessages Inert
  split
  · simp
  · simp [wmCreate, wmSize, wmMove, wmShowWindow, wmDestroy, wmClose]

theorem Quiet.createWindow (h : Quiet r) (className : WStr) (width height : BitVec 32)
    (host : Option HostWindow) : Quiet (r.createWindow className width height host) := by
  unfold ThreadRun.createWindow
  rcases openWindow_cases r.state className width height host with hnone | hsome
  · rw [hnone]
    exact h
  · obtain ⟨atom, s', -, hopen, -, hqueue, hquit⟩ := hsome
    have hstate : Quiet { r with state := s' } := h.setState fun _ hcalm =>
      ⟨hquit.trans hcalm.noQuit, hqueue.symm ▸ hcalm.queue⟩
    rw [hopen]
    exact Quiet.send_inert (creationMessages_inert _ _)
      (hstate.record fun hwnd heq => by cases heq)

theorem message_translateEventToMsg (hwnd : Hwnd) (e : WindowEvent) :
    (e.toMsg hwnd).message ≠ wmDestroy := by
  cases e with
  | key code pressed =>
    cases pressed <;> simp [WindowEvent.toMsg, State.translateEventToMsg, wmKeyDown, wmKeyUp, wmDestroy]
  | mouseButton button pressed =>
    cases pressed <;>
      simp [WindowEvent.toMsg, State.translateEventToMsg, wmLButtonDown, wmLButtonUp, wmDestroy]
  | _ =>
    simp [WindowEvent.toMsg, State.translateEventToMsg, wmSize, wmClose, wmMouseMove, wmDestroy]

theorem message_pollHostEvent (hm : s.pollHostEvent.1 = some m) : m.message ≠ wmDestroy := by
  cases hpolled : s.polledWindow with
  | none =>
    rw [pollHostEvent_none hpolled] at hm
    cases hm
  | some p =>
    rw [pollHostEvent_some hpolled] at hm
    cases hpoll : p.2.pollEvent.1 with
    | none =>
      rw [hpoll] at hm
      cases hm
    | some e =>
      rw [hpoll] at hm
      cases hm
      exact message_translateEventToMsg p.1 e

theorem Calm.fetch (h : Calm s) (f : Fetch) :
    Calm (s.fetch f).2 ∧ ∀ m, (s.fetch f).1.msg = some m → m.message ≠ wmDestroy := by
  rcases fetch_cases s f with ⟨hm, hs⟩ | ⟨m, rest, hq, hm, hs⟩ | ⟨c, hc, -⟩ | ⟨hq, hs, hm⟩
  · rw [hs, hm]
    exact ⟨h, fun m hm => absurd hm (Option.some_ne_none m).symm⟩
  · obtain ⟨hhead, hrest⟩ := List.forall_mem_cons.mp (hq ▸ h.queue)
    rw [hs, hm]
    refine ⟨⟨h.noQuit, hrest⟩, ?_⟩
    intro m' hm'
    cases hm'
    exact hhead.2
  · cases h.noQuit.symm.trans hc
  · obtain ⟨hqueue, hcode⟩ := pollHostEvent_queue (s := s)
    rw [hs]
    refine ⟨⟨hcode.trans h.noQuit, hqueue.symm ▸ h.queue⟩, ?_⟩
    intro m' hm'
    rcases hm with hm | hm
    · exact message_pollHostEvent (hm.symm.trans hm')
    · cases hm.symm.trans hm'
      decide

theorem Quiet.fetch (h : Quiet r) (f : Fetch) : Quiet (r.perform (.fetch f)) where
  intact := h.intact
  rests := h.rests
  calm hasked := by
    obtain ⟨hcalm, hreceived⟩ := h.calm hasked
    obtain ⟨hcalm', hm⟩ := hcalm.fetch f
    refine ⟨hcalm', ?_⟩
    intro m hmem
    rcases List.mem_append.mp hmem with hmem | hmem
    · exact hm m (Option.mem_toList.mp hmem)
    · exact hreceived m hmem

theorem Quiet.ask (h : Quiet r) (b : Bool) : Quiet { r with asked := r.asked || b } where
  intact := h.intact
  rests := h.rests
  calm hasked := h.calm (Bool.or_eq_false_iff.mp hasked).1

theorem Quiet.perform (h : Quiet r) {c : ApiCall} (hc : (Label.call c).Spares r)
    (hasks : c.asks r.received = true → r.asked = true) : Quiet (r.perform c) := by
  cases c with
  | registerClassEx lpwcx =>
    apply h.setState
    intro _ hcalm
    cases lpwcx with
    | none => exact hcalm
    | some wcx => exact ⟨hcalm.noQuit, hcalm.queue⟩
  | unregisterClass name =>
    apply h.setState
    intro _ hcalm
    cases name with
    | none => exact hcalm
    | some units =>
      simp only [State.unregisterClassW]
      split
      · exact ⟨hcalm.noQuit, hcalm.queue⟩
      · exact hcalm
  | createWindowEx className width height host => exact h.createWindow className width height host
  | destroyWindow hwnd => exact h.destroyWindow hc
  | sendMessage m =>
    apply h.send_one hc
    intro hdestroy
    exact hasks (by simp [ApiCall.asks, hdestroy])
  | postMessage hwnd msg wParam lParam =>
    apply h.setState (s := r.state.postMessageInternal hwnd msg wParam lParam)
    intro hasked hcalm
    have hquiet : ¬ (msg = wmDestroy ∨ msg = wmQuit) := by
      intro hmsg
      rw [hasks (by simp [ApiCall.asks, hmsg])] at hasked
      cases hasked
    refine ⟨hcalm.noQuit, ?_⟩
    intro m hm
    rcases List.mem_append.mp hm with hm | hm
    · exact hcalm.queue m hm
    · rw [List.mem_singleton.mp hm]
      exact ⟨fun h => hquiet (Or.inr h), fun h => hquiet (Or.inl h)⟩
  | fetch f => exact h.fetch f
  | dispatchMessage lpmsg =>
    cases lpmsg with
    | none => exact h
    | some m =>
      apply h.send_one hc
      intro hdestroy
      by_cases hm : m ∈ r.received
      · -- What was fetched asks for nothing, so the guest must have asked before.
        rw [← Bool.not_eq_false]
        intro hasked
        exact (h.calm hasked).2 m hm hdestroy
      · exact hasks (by simp [ApiCall.asks, hdestroy, hm])
  | defWindowProc m =>
    apply h.defWindowProc hc
    intro hdestroy
    exact hasks (by simp [ApiCall.asks, hdestroy])
  | postQuitMessage exitCode =>
    apply h.setState (s := r.state.postQuitMessage exitCode)
    intro hasked
    rw [hasks rfl] at hasked
    cases hasked

theorem Quiet.next (h : Quiet r) {a : Label} (hok : a.Spares r) {r' : ThreadRun}
    (hn : r.next a = some r') : Quiet r' := by
  cases a with
  | call c =>
    cases hn
    apply (h.ask (c.asks r.received)).perform
    · cases c <;> exact hok
    · intro hasks
      simp [hasks]
  | ret =>
    unfold ThreadRun.next at hn
    cases hstack : r.stack with
    | nil => simp [hstack] at hn
    | cons f stack =>
      simp only [hstack, Option.some.injEq] at hn
      rw [← hn]
      have hrests := h.rests
      rw [hstack] at hrests
      obtain ⟨hf, hstack'⟩ := List.forall_mem_cons.mp hrests
      exact Quiet.send_inert hf ⟨h.intact, hstack', h.calm⟩
  | hostEvent i e =>
    cases hn
    exact h.setState fun _ hcalm => ⟨hcalm.noQuit, hcalm.queue⟩
  | hostLost i =>
    cases hn
    exact h.setState fun _ hcalm => ⟨hcalm.noQuit, hcalm.queue⟩
  | otherThread =>
    cases hn
    exact h.setState fun _ hcalm => ⟨hcalm.noQuit, hcalm.queue⟩

theorem reachable_quiet (h : threadRuns.ReachableIf Label.Careful r) : Quiet r := by
  apply h.invariant
  · intro r hr
    rw [show r = {} from hr]
    constructor
    · exact fun _ => List.not_mem_nil
    · exact fun f hf => absurd hf List.not_mem_nil
    · exact fun _ => ⟨⟨rfl, fun m hm => absurd hm List.not_mem_nil⟩,
        fun m hm => absurd hm List.not_mem_nil⟩
  · exact fun r a r' hr hok hn => hr.next hok.2 hn

/-! ## Windows -/

theorem Calm.getMessageW_code (h : Calm s) (hwnd : Hwnd) (min max : BitVec 32) :
    (s.getMessageW true hwnd min max).1.code ≠ 0 := by
  show (s.fetch (.get true hwnd min max)).1.code ≠ 0
  cases hq : s.queue with
  | cons m rest =>
    have hm : m.message ≠ wmQuit := (h.queue m (hq ▸ List.mem_cons_self)).1
    rw [fetch_cons rfl hq]
    simp [hm]
  | nil =>
    rw [fetch_poll rfl hq h.noQuit]
    cases s.pollHostEvent.1 <;> simp [Fetch.isGet]

theorem Tracks.destroy_not_obeys (h : Tracks r.state r.log) {proc : WndProc}
    (howner : owner r.log hwnd = some proc) (hproc : proc ≠ 0) :
    ¬ Obeys (r.destroyWindow hwnd) := by
  intro hobeys
  have hlive : (r.state.proc? hwnd).isSome := by rw [proc?_eq, h.owners, howner]; rfl
  have hlog : (r.destroyWindow hwnd).log = [] ++ .destroyed hwnd :: r.log := by
    simp [ThreadRun.destroyWindow, State.destroys, hlive]
  have hcount := hobeys.destroyed [] r.log hwnd proc hlog howner hproc
  cases hcount

/-- Where no live window is destroyed, windows do what they are for. Messages go where they should
    even if windows are destroyed; but the procedure of a destroyed window never hears of it. -/
theorem windows_obey (h : threadRuns.ReachableIf Label.Fresh r) :
    Handled r.log ∧ (threadRuns.ReachableIf Label.Careful r → Obeys r) ∧
      ∀ hwnd proc r', owner r.log hwnd = some proc → proc ≠ 0 →
        r.next (.call (.destroyWindow hwnd)) = some r' → ¬ Obeys r' := by
  have htracks := reachable_tracks h
  refine ⟨htracks.handled, ?_, ?_⟩
  · intro hcareful
    have hquiet := reachable_quiet hcareful
    refine ⟨htracks.handled, ?_, fun hasked => (hquiet.calm hasked).1.getMessageW_code⟩
    intro newer older hwnd proc heq
    exact absurd (heq ▸ List.mem_append_right newer List.mem_cons_self) (hquiet.intact hwnd)
  · intro hwnd proc r' howner hproc hn
    cases hn
    exact Tracks.destroy_not_obeys (r := { r with asked := r.asked || false }) htracks howner hproc

/-- A class `A` with a procedure at 0x1000. -/
def registering : ApiCall := .registerClassEx (some (0x1000, some [0x41]))

/-- A window of it, on a headless host. -/
def creating : ApiCall := .createWindowEx (some [0x41]) 1 1 none

def opened : ThreadRun := (threadRuns.exec {} [.call registering, .call creating]).getD {}

theorem windows_obey_opened : Obeys opened ∧ owner opened.log 0x200000002 = some 0x1000 := by
  have hregistered : threadRuns.ReachableIf Label.Careful
      ((threadRuns.exec {} [.call registering]).getD {}) :=
    .step (a := .call registering) (.start rfl) ⟨trivial, trivial⟩ rfl
  have hcareful : threadRuns.ReachableIf Label.Careful opened :=
    .step (a := .call creating) hregistered
      ⟨⟨fun atom hatom => by cases hatom; rfl, by decide⟩, trivial⟩ rfl
  exact ⟨(windows_obey (hcareful.mono fun _ _ h => h.1)).2.1 hcareful, rfl⟩

/-- The procedure returns from the four messages of the creation; the program destroys the window,
    and fetches and dispatches what that has posted. -/
def destroyLabels : List Label :=
  [.call registering, .call creating, .ret, .ret, .ret, .ret, .call (.destroyWindow 0x200000002),
    .call (.fetch (.get true 0 0 0)),
    .call (.dispatchMessage (some { hwnd := 0x200000002, message := wmDestroy }))]

def destroyedRun : ThreadRun := (threadRuns.exec {} destroyLabels).getD {}

/-- The procedure is not given `WM_DESTROY`, and the message loop ends though nobody asked for it. -/
theorem destroyed_not_obeys :
    threadRuns.Reachable destroyedRun ∧ ¬ Obeys destroyedRun ∧
      destroyedRun.log.count (.delivered 0x200000002 wmDestroy 0x1000) = 0 ∧
      destroyedRun.asked = false ∧
      (destroyedRun.state.getMessageW true 0 0 0).1 =
        { code := 0, msg := some { message := wmQuit } } := by
  have hcode : (destroyedRun.state.getMessageW true 0 0 0).1 =
      { code := 0, msg := some { message := wmQuit } } := by decide
  refine ⟨Machine.reachable_of_exec (l := destroyLabels) rfl rfl, ?_, by decide, by decide, hcode⟩
  intro hobeys
  exact hobeys.goesOn (by decide) 0 0 0 (congrArg Fetched.code hcode)

end WinCompat.User32
