import Mathlib.Algebra.BigOperators.Group.List.Basic
import WinCompat.Lib.Machine

/-!
# Sockets

`socket`, `closesocket`, `accept`, `shutdown` and `select` of `win32-ws2_32/src/lib.rs` over the
host's table of descriptors. A SOCKET is the descriptor and is cut to 32 bits on its way back, so
that a value that is no SOCKET may name any descriptor; and `select` gives the host the sets and the
timeval of Windows, where it takes bitmaps and a timeval twice as long.
-/

namespace WinCompat.Net

open Lib

/-! ## The host -/

/-- What is open at a descriptor. Of a socket it is known whether it has been shut down. -/
inductive Kind
  | socket (down : Bool)
  | other
  deriving DecidableEq

abbrev Table := Int → Option Kind

/-- A descriptor that the host may answer with. -/
def Table.Free (t : Table) (fd : Int) : Prop := 0 ≤ fd ∧ fd < 2 ^ 31 ∧ t fd = none

instance (t : Table) (fd : Int) : Decidable (t.Free fd) := by
  unfold Table.Free
  infer_instance

/-- `close(2)` -/
def Table.close (t : Table) (fd : Int) : Int × Table :=
  match t fd with
  | none => (-1, t)
  | some _ => (0, Function.update t fd none)

/-- `accept(2)`, where `conn` is the descriptor of the connection that waits. -/
def Table.accept (t : Table) (fd : Int) (conn : Option Int) : Int × Table :=
  match t fd, conn with
  | some (.socket _), some fd' => (fd', Function.update t fd' (some (.socket false)))
  | _, _ => (-1, t)

/-- `shutdown(2)`, of a socket that may be connected or not. -/
def Table.shutdown (t : Table) (fd : Int) (connected : Bool) : Int × Table :=
  match t fd, connected with
  | some (.socket _), true => (0, Function.update t fd (some (.socket true)))
  | _, _ => (-1, t)

/-- The three sets of `select`. -/
inductive Which
  | read | write | except
  deriving DecidableEq

def Which.all : List Which := [.read, .write, .except]

/-- Memory from an address on, in words of 64 bits. -/
abbrev Words := Nat → BitVec 64

def Words.bit (m : Words) (k : Nat) : Bool := (m (k / 64)).getLsbD (k % 64)

/-- `fd_count` -/
def Words.count (m : Words) : Nat := (m 0).toNat % 2 ^ 32

/-- `fd_array`, as far as it is counted. -/
def Words.listed (m : Words) : List (BitVec 64) := (List.range m.count).map fun i => m (i + 1)

/-- The `fd_set` of Windows. -/
structure FdSet where
  words : Words
  capacity : Nat
  count_le : words.count ≤ capacity

/-- What is at the address of the timeout, as the host's `timeval` has it. On Windows a timeval is
    eight bytes: `sec` holds all of it, `usec` is whatever comes after. -/
structure Timeval where
  sec : BitVec 64
  usec : BitVec 64

/-- The arguments of `select`, and what the host has to say: whether a signal ends the call, how many
    descriptors its table has room for, and which are ready. -/
structure Select where
  nfds : Int
  sets : Which → Option FdSet
  timeout : Option Timeval
  interrupted : Bool
  room : Nat
  ready : Which → Int → Bool

namespace Select

variable (c : Select)

/-- How many descriptors are looked at. -/
def bound : Nat := min c.nfds.toNat c.room

/-- How many words of each set are read and written. -/
def touched : Nat := (c.bound + 63) / 64

/-- The descriptors that the host finds in a set. -/
def bits (w : Which) : List Nat :=
  match c.sets w with
  | none => []
  | some set => (List.range c.bound).filter set.words.bit

def found (w : Which) : List Nat := (c.bits w).filter fun k => c.ready w k

/-- How many bytes are read, and written back with the time that is left, at the timeout. -/
def timeoutBytes : Nat := if c.timeout.isSome then 16 else 0

/-- The host refuses the arguments, or a signal comes first. -/
def Fails (t : Table) : Prop :=
  c.nfds < 0 ∨ c.interrupted ∨ (∃ tv ∈ c.timeout, tv.sec.toInt < 0 ∨ tv.usec.toInt < 0) ∨
    ∃ w ∈ Which.all, ∃ k ∈ c.bits w, t k = none

instance (t : Table) : Decidable (c.Fails t) := by
  unfold Fails
  infer_instance

/-- The call comes back: without a timeout it waits until it has found something. -/
def Returns (t : Table) : Prop :=
  c.Fails t ∨ c.timeout.isSome ∨ ∃ w ∈ Which.all, c.found w ≠ []

instance (t : Table) : Decidable (c.Returns t) := by
  unfold Returns
  infer_instance

/-- What a set holds, as the call leaves it. -/
def left (w : Which) (m : Words) : Words := fun i =>
  if i < c.touched then
    BitVec.ofNat 64 (((c.found w).filter fun k => k / 64 = i).map fun k => 2 ^ (k % 64)).sum
  else m i

end Select

/-- `select(2)`: what it returns, and what becomes of the sets. -/
def Table.select (t : Table) (c : Select) : Int × (Which → Words → Words) :=
  if c.Fails t then (-1, fun _ m => m)
  else ((Which.all.map fun w => (c.found w).length).sum, c.left)

/-! ## The source -/

def invalidSocket : BitVec 64 := BitVec.allOnes 64

def socketError : Int := -1

/-- `s as c_int` -/
def asInt (s : BitVec 64) : Int := (s.setWidth 32).toInt

/-- `fd as usize` -/
def ofInt (fd : Int) : BitVec 64 := BitVec.ofInt 64 fd

/-- `socket`, where `fd` is what the host's answers. -/
def socket (t : Table) (fd : Option Int) : BitVec 64 × Table :=
  match fd with
  | none => (invalidSocket, t)
  | some fd => (ofInt fd, Function.update t fd (some (.socket false)))

def closesocket (t : Table) (s : BitVec 64) : Int × Table :=
  if s = invalidSocket then (socketError, t)
  else
    let rc := t.close (asInt s)
    (if rc.1 < 0 then socketError else 0, rc.2)

def accept (t : Table) (s : BitVec 64) (conn : Option Int) : BitVec 64 × Table :=
  if s = invalidSocket then (invalidSocket, t)
  else
    let fd := t.accept (asInt s) conn
    (if fd.1 < 0 then invalidSocket else ofInt fd.1, fd.2)

def shutdown (t : Table) (s : BitVec 64) (connected : Bool) : Int × Table :=
  if s = invalidSocket then (socketError, t)
  else
    let rc := t.shutdown (asInt s) connected
    (if rc.1 < 0 then socketError else 0, rc.2)

def select (t : Table) (c : Select) : Int × (Which → Words → Words) :=
  let rc := t.select c
  (if rc.1 < 0 then socketError else rc.1, rc.2)

/-! ## Runs -/

structure State where
  /-- The descriptors of the host that are not the program's. -/
  host : Table
  table : Table
  /-- The SOCKETs that have been returned and not been closed. -/
  sockets : List (BitVec 64)
  /-- The descriptors of the files that the program has open. -/
  files : List Int

inductive Call
  | socket (fd : Option Int)
  | accept (s : BitVec 64) (conn : Option Int)
  | closesocket (s : BitVec 64)
  | shutdown (s : BitVec 64) (connected : Bool)
  | select (c : Select)
  | openFile (fd : Int)
  | closeFile (fd : Int)

/-- A new SOCKET is open, one that could not be had is not. -/
def State.opened (s : State) (r : BitVec 64 × Table) : State :=
  { s with
    table := r.2
    sockets := if r.1 = invalidSocket then s.sockets else r.1 :: s.sockets }

def next (s : State) : Call → Option State
  | .socket fd =>
      if ∀ fd' ∈ fd, s.table.Free fd' then some (s.opened (socket s.table fd)) else none
  | .accept v conn =>
      if ∀ fd' ∈ conn, s.table.Free fd' then some (s.opened (accept s.table v conn)) else none
  | .closesocket v =>
      some { s with
        table := (closesocket s.table v).2
        sockets := s.sockets.filter (· ≠ v) }
  | .shutdown v connected => some { s with table := (shutdown s.table v connected).2 }
  | .select c => if c.Returns s.table then some s else none
  | .openFile fd =>
      if s.table.Free fd then
        some { s with
          table := Function.update s.table fd (some .other)
          files := fd :: s.files }
      else none
  | .closeFile fd =>
      if fd ∈ s.files then
        some { s with
          table := (s.table.close fd).2
          files := s.files.filter (· ≠ fd) }
      else none

def machine : Machine State Call where
  init s := s.table = s.host ∧ s.sockets = [] ∧ s.files = []
  next := next

/-! ## What is documented -/

/-- The ready ones of the listed sockets are left, and their number is returned. -/
def Select.Counted (c : Select) (r : Int × (Which → Words → Words)) : Prop :=
  r.1 = (Which.all.map fun w => (((c.sets w).elim [] (·.words.listed)).filter
    fun v => c.ready w (asInt v)).length).sum ∧
  ∀ w, ∀ set ∈ c.sets w, (r.2 w set.words).listed.Perm
    (set.words.listed.filter fun v => c.ready w (asInt v))

/-- Nothing is read or written beside the sets and the eight bytes of the timeout. -/
def Select.Inside (c : Select) : Prop :=
  (∀ w, ∀ set ∈ c.sets w, c.touched ≤ set.capacity + 1) ∧ c.timeoutBytes ≤ 8

/-- Only open sockets are listed. -/
def Select.Names (c : Select) (sockets : List (BitVec 64)) : Prop :=
  ∀ w, ∀ set ∈ c.sets w, ∀ v ∈ set.words.listed, v ∈ sockets

/-- What a call does in a state: on a value that is no open socket it fails and leaves the host's
    descriptors as they are. -/
def Documented (s : State) : Call → Prop
  | .accept v conn => v ∉ s.sockets → accept s.table v conn = (invalidSocket, s.table)
  | .closesocket v => v ∉ s.sockets → closesocket s.table v = (socketError, s.table)
  | .shutdown v connected =>
      v ∉ s.sockets → shutdown s.table v connected = (socketError, s.table)
  | .select c =>
      c.Inside ∧ (c.Names s.sockets → c.Counted (select s.table c)) ∧
        (¬ c.Names s.sockets → (select s.table c).1 = socketError)
  | .socket _ | .openFile _ | .closeFile _ => True

/-- The host fails in a call that is to fail, since a listed value is no open socket. It has no
    timeout to read too far and looks at no more of the sets than there is. A call without a timeout
    that does not fail returns only with what the host has read into the sets. -/
structure Select.Clean (c : Select) (s : State) : Prop where
  noTimeout : c.timeout = none
  inside : ∀ w, ∀ set ∈ c.sets w, c.touched ≤ set.capacity + 1
  unnamed : ¬ c.Names s.sockets
  fails : c.Fails s.table

/-- Where a value is no open socket, it is `INVALID_SOCKET` or the descriptor that it is cut to is
    one on which the host's call fails. -/
def Clean (s : State) : Call → Prop
  | .accept v conn => v ∈ s.sockets ∨ v = invalidSocket ∨ conn = none ∨
      ∀ down, s.table (asInt v) ≠ some (.socket down)
  | .closesocket v => v ∈ s.sockets ∨ v = invalidSocket ∨ s.table (asInt v) = none
  | .shutdown v connected => v ∈ s.sockets ∨ v = invalidSocket ∨ connected = false ∨
      ∀ down, s.table (asInt v) ≠ some (.socket down)
  | .select c => c.Clean s
  | .socket _ | .openFile _ | .closeFile _ => True

/-- Each open SOCKET is a socket of the host, each open file is still open, and so is what was open
    at the start. -/
structure Apart (s : State) : Prop where
  sockets : ∀ v ∈ s.sockets, v = ofInt (asInt v) ∧ s.host (asInt v) = none ∧
    ∃ down, s.table (asInt v) = some (.socket down)
  files : ∀ fd ∈ s.files, s.host fd = none ∧ s.table fd = some .other
  host : ∀ fd k, s.host fd = some k → s.table fd = some k

/-! ## Every run -/

variable {s s' : State} {t : Table} {v : BitVec 64} {a : Call}

variable {fd : Int}

theorem asInt_ofInt (h : 0 ≤ fd) (hlt : fd < 2 ^ 31) : asInt (ofInt fd) = fd := by
  simp only [asInt, ofInt, BitVec.toInt_eq_toNat_bmod, BitVec.toNat_setWidth, BitVec.toNat_ofInt,
    Int.bmod_def]
  omega

/-! ### On a value that is no socket -/

theorem Table.accept_eq {conn : Option Int} (h : conn = none ∨ ∀ down, t fd ≠ some (.socket down)) :
    t.accept fd conn = (-1, t) := by
  unfold Table.accept
  split
  · next down hsocket => simp [hsocket] at h
  · rfl

theorem Table.shutdown_eq {connected : Bool}
    (h : connected = false ∨ ∀ down, t fd ≠ some (.socket down)) :
    t.shutdown fd connected = (-1, t) := by
  unfold Table.shutdown
  split
  · next down hsocket => simp [hsocket] at h
  · rfl

theorem closesocket_eq (h : v = invalidSocket ∨ t (asInt v) = none) :
    closesocket t v = (socketError, t) := by
  unfold closesocket
  split
  · rfl
  · next hv => simp [Table.close, h.resolve_left hv]

theorem accept_eq {conn : Option Int} (h : v = invalidSocket ∨ conn = none ∨
    ∀ down, t (asInt v) ≠ some (.socket down)) : accept t v conn = (invalidSocket, t) := by
  unfold accept
  split
  · rfl
  · next hv => simp [Table.accept_eq (h.resolve_left hv)]

theorem shutdown_eq {connected : Bool} (h : v = invalidSocket ∨ connected = false ∨
    ∀ down, t (asInt v) ≠ some (.socket down)) : shutdown t v connected = (socketError, t) := by
  unfold shutdown
  split
  · rfl
  · next hv => simp [Table.shutdown_eq (h.resolve_left hv)]

theorem Select.Clean.inside' {c : Select} (h : c.Clean s) : c.Inside := by
  refine ⟨h.inside, ?_⟩
  rw [Select.timeoutBytes, h.noTimeout]
  decide

theorem select_of_fails {c : Select} (h : c.Fails t) : (select t c).1 = socketError := by
  simp [select, Table.select, h, socketError]

theorem Clean.documented (h : Clean s a) : Documented s a := by
  cases a with
  | accept v conn => exact fun hv => accept_eq (h.resolve_left hv)
  | closesocket v => exact fun hv => closesocket_eq (h.resolve_left hv)
  | shutdown v connected => exact fun hv => shutdown_eq (h.resolve_left hv)
  | select c =>
    have hselect : c.Clean s := h
    exact ⟨hselect.inside', fun hnames => absurd hnames hselect.unnamed,
      fun _ => select_of_fails hselect.fails⟩
  | socket | openFile | closeFile => trivial

/-! ### On the descriptors that are open -/

theorem Apart.change (hs : Apart s) {k : Option Kind} {sockets : List (BitVec 64)}
    {files : List Int} (hhost : s.host fd = none) (hsockets : ∀ v ∈ sockets,
      if asInt v = fd then v = ofInt fd ∧ ∃ down, k = some (.socket down) else v ∈ s.sockets)
    (hfiles : ∀ f ∈ files, if f = fd then k = some .other else f ∈ s.files) :
    Apart { s with
      table := Function.update s.table fd k
      sockets := sockets
      files := files } := by
  refine ⟨fun v hv => ?_, fun f hf => ?_, fun f k' hk' => ?_⟩
  · have hv' := hsockets v hv
    by_cases hfd : asInt v = fd
    · rw [if_pos hfd] at hv'
      subst hfd
      exact ⟨hv'.1, hhost, by simpa only [Function.update_self] using hv'.2⟩
    · rw [if_neg hfd] at hv'
      simpa [Function.update_of_ne hfd] using hs.sockets v hv'
  · have hf' := hfiles f hf
    by_cases hfd : f = fd
    · rw [if_pos hfd] at hf'
      subst hfd
      simpa using ⟨hhost, hf'⟩
    · rw [if_neg hfd] at hf'
      simpa [Function.update_of_ne hfd] using hs.files f hf'
  · have hne : f ≠ fd := fun h => by simp [h, hhost] at hk'
    simpa [Function.update_of_ne hne] using hs.host f k' hk'

theorem Apart.free (hs : Apart s) (h : s.table.Free fd) :
    s.host fd = none ∧ (∀ v ∈ s.sockets, asInt v ≠ fd) ∧ ∀ f ∈ s.files, f ≠ fd := by
  obtain ⟨-, -, hnone⟩ := h
  refine ⟨?_, ?_, ?_⟩
  · by_contra hne
    obtain ⟨k, hk⟩ := Option.ne_none_iff_exists'.mp hne
    simp [hs.host fd k hk] at hnone
  · rintro v hv rfl
    obtain ⟨-, -, down, hdown⟩ := hs.sockets v hv
    simp [hdown] at hnone
  · rintro f hf rfl
    simp [(hs.files f hf).2] at hnone

theorem Apart.opened (hs : Apart s) (h : s.table.Free fd) :
    Apart (s.opened (ofInt fd, Function.update s.table fd (some (.socket false)))) := by
  obtain ⟨hhost, hsockets, hfiles⟩ := hs.free h
  have hfd := asInt_ofInt h.1 h.2.1
  have hne : ofInt fd ≠ invalidSocket := by
    intro heq
    have hneg : asInt invalidSocket = -1 := by decide
    rw [heq, hneg] at hfd
    exact absurd h.1 (by omega)
  simp only [State.opened, if_neg hne]
  refine hs.change hhost ?_ fun f hf => by rw [if_neg (hfiles f hf)]; exact hf
  intro v hv
  rcases List.mem_cons.mp hv with rfl | hv
  · simp [hfd]
  · rw [if_neg (hsockets v hv)]
    exact hv

theorem State.opened_invalid : s.opened (invalidSocket, s.table) = s := by simp [State.opened]

theorem Apart.step (hs : Apart s) (hok : Clean s a) (hn : next s a = some s') : Apart s' := by
  have hfile : ∀ v ∈ s.sockets, ∀ f ∈ s.files, f ≠ asInt v := by
    rintro v hv f hf rfl
    obtain ⟨-, -, down, hdown⟩ := hs.sockets v hv
    have hother := (hs.files _ hf).2
    simp [hdown] at hother
  cases a with
  | socket fd =>
    simp only [next] at hn
    split at hn
    · next hfree =>
      cases hn
      cases fd with
      | none => simpa [socket, State.opened_invalid] using hs
      | some fd => exact hs.opened (hfree fd rfl)
    · cases hn
  | accept v conn =>
    simp only [next] at hn
    split at hn
    · next hfree =>
      cases hn
      by_cases hfails : v = invalidSocket ∨ conn = none ∨
          ∀ down, s.table (asInt v) ≠ some (.socket down)
      · simpa [accept_eq hfails, State.opened_invalid] using hs
      · push Not at hfails
        obtain ⟨hv, hconn, down, hdown⟩ := hfails
        obtain ⟨fd, rfl⟩ := Option.ne_none_iff_exists'.mp hconn
        have hfd := hfree fd rfl
        have haccept : accept s.table v (some fd) =
            (ofInt fd, Function.update s.table fd (some (.socket false))) := by
          simp [accept, hv, Table.accept, hdown, Int.not_lt.mpr hfd.1]
        rw [haccept]
        exact hs.opened hfd
    · cases hn
  | closesocket v =>
    cases hn
    have hfewer : Apart { s with sockets := s.sockets.filter (· ≠ v) } :=
      ⟨fun v' hv' => hs.sockets v' (List.mem_filter.mp hv').1, hs.files, hs.host⟩
    by_cases hfails : v = invalidSocket ∨ s.table (asInt v) = none
    · simpa [closesocket_eq hfails] using hfewer
    · have hv := hok.resolve_right hfails
      push Not at hfails
      obtain ⟨hv', hhost, down, hdown⟩ := hs.sockets v hv
      have htable : (closesocket s.table v).2 = Function.update s.table (asInt v) none := by
        simp [closesocket, hfails.1, Table.close, hdown]
      rw [htable]
      refine hs.change hhost (fun v₁ hv₁ => ?_) fun f hf => by
        rw [if_neg (hfile v hv f hf)]; exact hf
      obtain ⟨hmem, hne⟩ := List.mem_filter.mp hv₁
      have hne' : asInt v₁ ≠ asInt v := by
        intro heq
        rw [(hs.sockets v₁ hmem).1, heq, ← hv'] at hne
        simp at hne
      rw [if_neg hne']
      exact hmem
  | shutdown v connected =>
    cases hn
    by_cases hfails : v = invalidSocket ∨ connected = false ∨
        ∀ down, s.table (asInt v) ≠ some (.socket down)
    · simpa [shutdown_eq hfails] using hs
    · have hv := hok.resolve_right hfails
      push Not at hfails
      obtain ⟨-, hhost, down, hdown⟩ := hs.sockets v hv
      have htable : (shutdown s.table v connected).2 =
          Function.update s.table (asInt v) (some (.socket true)) := by
        simp [shutdown, hfails.1, Table.shutdown, hdown, eq_true_of_ne_false hfails.2.1]
      rw [htable]
      refine hs.change hhost (fun v₁ hv₁ => ?_) fun f hf => by
        rw [if_neg (hfile v hv f hf)]; exact hf
      split
      · next heq => exact ⟨heq ▸ (hs.sockets v₁ hv₁).1, true, rfl⟩
      · exact hv₁
  | select c =>
    simp only [next] at hn
    split at hn
    · cases hn
      exact hs
    · cases hn
  | openFile fd =>
    simp only [next] at hn
    split at hn
    · next hfree =>
      cases hn
      obtain ⟨hhost, hsockets, hfiles⟩ := hs.free hfree
      refine hs.change hhost (fun v hv => by rw [if_neg (hsockets v hv)]; exact hv) ?_
      intro f hf
      rcases List.mem_cons.mp hf with rfl | hf
      · simp
      · rw [if_neg (hfiles f hf)]
        exact hf
    · cases hn
  | closeFile fd =>
    simp only [next] at hn
    split at hn
    · next hmem =>
      cases hn
      obtain ⟨hhost, hother⟩ := hs.files fd hmem
      have htable : (s.table.close fd).2 = Function.update s.table fd none := by
        simp [Table.close, hother]
      rw [htable]
      refine hs.change hhost (fun v hv => ?_) fun f hf => ?_
      · rw [if_neg (hfile v hv fd hmem).symm]
        exact hv
      · obtain ⟨hf', hne⟩ := List.mem_filter.mp hf
        rw [if_neg (of_decide_eq_true hne)]
        exact hf'
    · cases hn

/-- The standard streams are open. -/
def stdio : Table := fun fd => if 0 ≤ fd ∧ fd < 3 then some .other else none

def start : State := ⟨stdio, stdio, [], []⟩

theorem start_init : machine.init start := ⟨rfl, rfl, rfl⟩

/-- A set that lists the socket 3. -/
def listing : FdSet where
  words i := if i = 0 then 1 else 3
  capacity := 64
  count_le := by decide

def onlyRead : Which → Option FdSet
  | .read => some listing
  | _ => none

/-- One socket is accepted from another, a file is open beside them, and the first is closed. -/
def served : List Call :=
  [.socket (some 3), .openFile 4, .accept 3 (some 5), .shutdown 5 true, .closesocket 77,
    .closesocket 3]

/-- The set with the count -1, which has no meaning on Windows and which the host refuses. -/
def refused : Select := ⟨-1, onlyRead, none, false, 1024, fun _ _ => true⟩

theorem listing_listed : listing.words.listed = [3] := by decide

theorem onlyRead_eq {w : Which} {set : FdSet} (h : set ∈ onlyRead w) :
    w = .read ∧ set = listing := by
  cases w with
  | read => exact ⟨rfl, (Option.some.inj h).symm⟩
  | write | except => cases h

theorem refused_unnamed : ¬ refused.Names [5] := by
  intro hnames
  have hmem := hnames .read listing rfl 3 (by rw [listing_listed]; exact List.mem_singleton_self 3)
  exact absurd hmem (by decide)

theorem refused_inside (w : Which) (set : FdSet) (_ : set ∈ refused.sets w) :
    refused.touched ≤ set.capacity + 1 := Nat.zero_le _

def opened : State := start.opened (socket stdio (some 3))

theorem opened_next : machine.next start (.socket (some 3)) = some opened := rfl

/-- A timeout of 0, and eight bytes after it. -/
def atOnce (after : BitVec 64) : Option Timeval := some ⟨0, after⟩

end WinCompat.Net
