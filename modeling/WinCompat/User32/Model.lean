import WinCompat.Lib.Assoc
import WinCompat.Lib.Utf16

/-!
# The windows and messages of a thread

`win32-user32/src/lib.rs`: the tables of window classes and windows, the queue of posted messages and
the quit code are one `State` a thread. Where a window procedure would be called, a function says so
in its answer (`Handling.calls`); what happens then is up to whoever runs it.
-/

namespace WinCompat.User32

open Lib
open Lib.Utf16 (CodeUnit)

abbrev Hwnd := BitVec 64

/-- The address of a procedure of the guest; null is 0. -/
abbrev WndProc := BitVec 64

abbrev Atom := BitVec 16

abbrev Text := List Char

/-- A pointer to a NUL-terminated wide string. -/
abbrev WStr := Option (List CodeUnit)

structure Point where
  x : BitVec 32 := 0
  y : BitVec 32 := 0
  deriving DecidableEq

structure Msg where
  hwnd : Hwnd := 0
  message : BitVec 32 := 0
  wParam : BitVec 64 := 0
  lParam : BitVec 64 := 0
  time : BitVec 32 := 0
  pt : Point := {}
  deriving DecidableEq

def wmNull : BitVec 32 := 0x0000
def wmCreate : BitVec 32 := 0x0001
def wmDestroy : BitVec 32 := 0x0002
def wmMove : BitVec 32 := 0x0003
def wmSize : BitVec 32 := 0x0005
def wmPaint : BitVec 32 := 0x000F
def wmClose : BitVec 32 := 0x0010
def wmQuit : BitVec 32 := 0x0012
def wmShowWindow : BitVec 32 := 0x0018
def wmKeyDown : BitVec 32 := 0x0100
def wmKeyUp : BitVec 32 := 0x0101
def wmMouseMove : BitVec 32 := 0x0200
def wmLButtonDown : BitVec 32 := 0x0201
def wmLButtonUp : BitVec 32 := 0x0202

/-! ## Host windows -/

inductive MouseButton
  | left
  | middle
  | right
  | other
  deriving DecidableEq

/-- `button as u8`. -/
def MouseButton.code : MouseButton → Nat
  | .left => 1
  | .middle => 2
  | .right => 3
  | .other => 4

inductive WindowEvent
  | resize (width height : BitVec 32)
  | close
  | key (code : BitVec 32) (pressed : Bool)
  | mouseMove (x y : BitVec 32)
  | mouseButton (button : MouseButton) (pressed : Bool)
  deriving DecidableEq

/-- A window of the host: the events that wait on its connection, and whether the connection is lost. -/
structure HostWindow where
  pending : List WindowEvent := []
  lost : Bool := false
  deriving DecidableEq

/-- `poll_event().ok().flatten()`: a failing poll is no event. -/
def HostWindow.pollEvent (w : HostWindow) : Option WindowEvent × HostWindow :=
  match w.lost, w.pending with
  | false, e :: rest => (some e, { w with pending := rest })
  | _, _ => (none, w)

/-! ## The state -/

structure ClassEntry where
  atom : Atom
  lpfnWndProc : WndProc
  name : Text
  deriving DecidableEq

structure WindowEntry where
  /-- `none` on a headless host. -/
  window : Option HostWindow
  classAtom : Atom
  wndProc : WndProc
  title : Text
  width : BitVec 32
  height : BitVec 32
  visible : Bool := false
  paintPending : Bool := false
  deriving DecidableEq

structure State where
  classes : List ClassEntry := []
  windows : List (Hwnd × WindowEntry) := []
  queue : List Msg := []
  quitCode : Option (BitVec 64) := none
  /-- `NEXT_HWND`, which the other threads take from as well. -/
  nextHwnd : BitVec 32 := 1
  deriving DecidableEq

namespace State

variable (s : State)

/-- `NEXT_HWND.fetch_add(1)`. -/
def fetchAdd : State := { s with nextHwnd := s.nextHwnd + 1 }

/-- The handle that `make_hwnd` returns. -/
def makeHwnd : Hwnd := s.nextHwnd.setWidth 64 ||| 0x200000000

def findClassByName (name : Text) : Option Atom :=
  (s.classes.find? fun c => c.name = name).map ClassEntry.atom

def updateWindow (hwnd : Hwnd) (f : WindowEntry → WindowEntry) : State :=
  { s with windows := Assoc.adjust hwnd f s.windows }

def clearPaintFlag (hwnd : Hwnd) : State :=
  s.updateWindow hwnd fun w => { w with paintPending := false }

def updateSize (hwnd : Hwnd) (cx cy : BitVec 32) : State :=
  s.updateWindow hwnd fun w => { w with width := cx, height := cy }

/-- The live windows and their procedures. -/
def procs : List (Hwnd × WndProc) := s.windows.map fun entry => (entry.1, entry.2.wndProc)

/-- The procedure of a live window. -/
def proc? (hwnd : Hwnd) : Option WndProc := (s.windows.lookup hwnd).map WindowEntry.wndProc

/-- `unwrap_or(null)`. -/
def wndProc (hwnd : Hwnd) : WndProc := (s.proc? hwnd).getD 0

end State

/-- `widestring_to_string`. -/
def widestringToString : WStr → Text
  | none => []
  | some units => Utf16.decodeLossy (units.takeWhile (· ≠ 0))

/-! ## Posting -/

namespace State

variable (s : State)

def postMessageInternal (hwnd : Hwnd) (msg : BitVec 32) (wParam lParam : BitVec 64) : State :=
  { s with queue := s.queue ++ [{ hwnd := hwnd, message := msg, wParam := wParam, lParam := lParam }] }

def postQuitMessage (exitCode : BitVec 32) : State :=
  { s with quitCode := some (exitCode.signExtend 64) }

/-! ## Host events as messages -/

/-- `translate_event_to_msg`. A new size is recorded on the way. -/
def translateEventToMsg (hwnd : Hwnd) (ev : WindowEvent) : Msg × State :=
  match ev with
  | .resize width height =>
    ({ hwnd := hwnd, message := wmSize,
       lParam := ((width &&& 0xFFFF) ||| ((height &&& 0xFFFF) <<< 16)).setWidth 64 },
      s.updateSize hwnd width height)
  | .close => ({ hwnd := hwnd, message := wmClose }, s)
  | .key code pressed =>
    ({ hwnd := hwnd, message := if pressed then wmKeyDown else wmKeyUp,
       wParam := code.setWidth 64 }, s)
  | .mouseMove x y =>
    ({ hwnd := hwnd, message := wmMouseMove,
       lParam := (x &&& 0xFFFF).setWidth 64 ||| ((y &&& 0xFFFF).setWidth 64 <<< 16) }, s)
  | .mouseButton button pressed =>
    ({ hwnd := hwnd, message := if pressed then wmLButtonDown else wmLButtonUp,
       wParam := BitVec.ofNat 64 (1 <<< button.code) }, s)

/-- The first window that owns a host window. -/
def hostOwner : Option Hwnd :=
  (s.windows.find? fun entry => entry.2.window.isSome).map Prod.fst

/-- `poll_host_event`: the handle is found first, and then its window again by the handle. -/
def pollHostEvent : Option Msg × State :=
  match s.hostOwner with
  | none => (none, s)
  | some hwnd =>
    match (s.windows.lookup hwnd).bind WindowEntry.window with
    | none => (none, s)
    | some win =>
      let polled := win.pollEvent
      let s' := s.updateWindow hwnd fun w => { w with window := some polled.2 }
      match polled.1 with
      | none => (none, s')
      | some ev =>
        let translated := s'.translateEventToMsg hwnd ev
        (some translated.1, translated.2)

end State

/-! ## Fetching -/

/-- What a fetching call returns, and the message that it wrote. -/
structure Fetched where
  code : Int
  msg : Option Msg := none
  deriving DecidableEq

namespace State

variable (s : State)

/-- `get_message_w`. The window and the range of the filter are not looked at. -/
def getMessageW (lpmsg : Bool) (_hwnd : Hwnd) (_min _max : BitVec 32) : Fetched × State :=
  if lpmsg = false then ({ code := -1 }, s)
  else
    match s.queue with
    | m :: rest =>
      ({ code := if m.message = wmQuit then 0 else 1, msg := some m }, { s with queue := rest })
    | [] =>
      match s.quitCode with
      | some code => ({ code := 0, msg := some { message := wmQuit, wParam := code } }, s)
      | none =>
        match s.pollHostEvent with
        | (some m, s') => ({ code := 1, msg := some m }, s')
        | (none, s') => ({ code := 1, msg := some { message := wmNull } }, s')

/-- `peek_message_w`. The filter is not looked at, and neither is the flag. -/
def peekMessageW (lpmsg : Bool) (_hwnd : Hwnd) (_min _max _remove : BitVec 32) : Fetched × State :=
  if lpmsg = false then ({ code := 0 }, s)
  else
    match s.queue with
    | m :: rest => ({ code := 1, msg := some m }, { s with queue := rest })
    | [] =>
      match s.pollHostEvent with
      | (some m, s') => ({ code := 1, msg := some m }, s')
      | (none, s') => ({ code := 0 }, s')

/-! ## Classes and windows -/

/-- `register_class_ex_w`, with what it reads of the `WNDCLASSEXW`; `none` is a null pointer. -/
def registerClassExW (lpwcx : Option (WndProc × WStr)) : Atom × State :=
  match lpwcx with
  | none => (0, s)
  | some (proc, className) =>
    let atom := s.nextHwnd.setWidth 16 ||| 0x8000
    (atom, { s.fetchAdd with classes := s.classes ++ [⟨atom, proc, widestringToString className⟩] })

def unregisterClassW (name : WStr) : Bool × State :=
  match name with
  | none => (false, s)
  | some _ =>
    let named : ClassEntry → Bool := fun c => c.name = widestringToString name
    if s.classes.any named then (true, { s with classes := s.classes.eraseP named }) else (false, s)

/-- `width.max(1) as u32`. -/
def clampSize (n : BitVec 32) : BitVec 32 := if n.toInt < 1 then 1 else n

/-- The procedure that a window is made with: that of the first class that has the atom. -/
def classProc (atom : Atom) : WndProc :=
  ((s.classes.find? fun c => c.atom = atom).map ClassEntry.lpfnWndProc).getD 0

/-- `create_window_ex_w` up to the messages that it sends: the window is in the table. `host` is the
    window that the host opened, if it could. -/
def openWindow (className : WStr) (width height : BitVec 32) (host : Option HostWindow) :
    Option (Hwnd × WndProc) × State :=
  match s.findClassByName (widestringToString className) with
  | none => (none, s)
  | some atom =>
    (some (s.makeHwnd, s.classProc atom),
      { s.fetchAdd with
        windows := s.windows ++ [(s.makeHwnd,
          { window := host, classAtom := atom, wndProc := s.classProc atom,
            title := widestringToString className,
            width := clampSize width, height := clampSize height })] })

/-- The messages that a new window is sent if it has a procedure. -/
def creationMessages (hwnd : Hwnd) (proc : WndProc) : List Msg :=
  if proc = 0 then []
  else [{ hwnd := hwnd, message := wmCreate }, { hwnd := hwnd, message := wmSize },
    { hwnd := hwnd, message := wmMove }, { hwnd := hwnd, message := wmShowWindow, wParam := 1 }]

def destroyWindow (hwnd : Hwnd) : Bool × State :=
  if (s.windows.lookup hwnd).isSome then
    (true, { s with windows := s.windows.eraseP fun entry => entry.1 = hwnd }.postMessageInternal
      hwnd wmDestroy 0 0)
  else (false, s)

/-! ## Delivery -/

/-- `def_window_proc_w_impl`. -/
def defWindowProcW (hwnd : Hwnd) (msg : BitVec 32) (_wParam _lParam : BitVec 64) : State :=
  if msg = wmDestroy then s.postQuitMessage 0
  else if msg = wmClose then (s.destroyWindow hwnd).2
  else if msg = wmPaint then s.clearPaintFlag hwnd
  else s

/-- A message is given to a procedure of the guest, or default processing has taken place. -/
inductive Handling
  | calls (proc : WndProc)
  | defaulted (s : State)

/-- `send_message_internal`, and `dispatch_message_w` on the message that it is given. -/
def deliver (m : Msg) : Handling :=
  if s.wndProc m.hwnd ≠ 0 then .calls (s.wndProc m.hwnd)
  else .defaulted (s.defWindowProcW m.hwnd m.message m.wParam m.lParam)

end State

end WinCompat.User32
