import WinCompat.Lib.Machine

/-!
# The handle table and the descriptors behind file handles

`ntapi/src/handle.rs` (`Object`, `FileObject`, `HandleTable`, `close`), `Object::clone_ref` of
`sync.rs`, and the calls that look an object up through it.

`FileObject` closes its descriptor when it is dropped. `clone_ref` copies a `FileObject` by copying
the number, so the copy that `with_object(handle, |o| o.clone_ref())` returns is a second owner:
every caller that only wanted to see what kind of object a handle names drops it, and closes the
descriptor. `resolve_fd` (`ReadFile`, `WriteFile`) was written to avoid exactly this.

Descriptor numbers are recycled, so a number alone does not say which open file it means. The model
numbers the opens: `opens` lists the handle each successful `open_file_handle` returned, and
`fds` says which open file a descriptor number currently stands for. `FileObject.serial`, `opens`
and the log `closes` are bookkeeping that the source does not have.
-/

namespace WinCompat.Handles

open Lib

/-- `Handle`: an opaque 64-bit value. -/
abbrev Handle := BitVec 64

/-- `FileObject`, with the number of the open that made it. -/
structure FileObject where
  fd : Nat
  serial : Nat
  deriving DecidableEq

/-- `Object`. The `Arc`s of the synchronisation objects are references into a heap that nothing
    here looks into. -/
inductive Object
  | event (ref : Nat)
  | mutex (ref : Nat)
  | semaphore (ref : Nat)
  | thread (ref : Nat)
  | file (f : FileObject)
  | section_ (base size : Nat)
  | process
  deriving DecidableEq

def Object.isFile : Object → Bool
  | .file _ => true
  | _ => false

/-- `Object::clone_ref`: the copy of a file is another `FileObject` on the same descriptor. -/
def Object.cloneRef : Object → Object
  | .event e => .event e
  | .mutex m => .mutex m
  | .semaphore s => .semaphore s
  | .thread t => .thread t
  | .file f => .file { fd := f.fd, serial := f.serial }
  | .section_ base size => .section_ base size
  | .process => .process

/-- The calls of the run. -/
inductive Call
  /-- `open_file_handle`; `fd` is what `open(2)` returned, `none` for -1. -/
  | openFileHandle (fd : Option Nat)
  /-- The creation of any object that is not a file. -/
  | create (o : Object)
  | readFile (h : Handle)
  | writeFile (h : Handle)
  | setEvent (h : Handle)
  | resetEvent (h : Handle)
  | pulseEvent (h : Handle)
  | releaseMutex (h : Handle)
  | releaseSemaphore (h : Handle)
  | getThreadId (h : Handle)
  | waitForSingleObject (h : Handle)
  /-- `polled` are the zero-timeout waits the loop performs, in order; how many rounds that takes
      depends on the objects and the clock. -/
  | waitForMultipleObjects (handles polled : List Handle)
  | closeHandle (h : Handle)
  | ntClose (h : Handle)
  deriving DecidableEq

/-- What a descriptor number stands for: a file the process had to begin with, or an open. -/
inductive OpenFile
  | inherited
  | opened (serial : Nat)
  deriving DecidableEq

structure State where
  objects : Handle → Option Object
  next : Handle
  fds : Nat → Option OpenFile
  opens : List Handle
  closes : List (OpenFile × Call)

namespace State

/-- `libc::close(fd)` made by `call`; on a number that is not open it does nothing. -/
def closeFd (s : State) (call : Call) (fd : Nat) : State :=
  match s.fds fd with
  | none => s
  | some f => { s with fds := Function.update s.fds fd none, closes := s.closes ++ [(f, call)] }

/-- Dropping an object: `FileObject::drop` closes the descriptor. -/
def dropObject (s : State) (call : Call) : Object → State
  | .file f => s.closeFd call f.fd
  | _ => s

/-- `HandleTable::insert`. What the counter's handle named before, if anything, is dropped. -/
def insert (s : State) (call : Call) (o : Object) : State :=
  let s' := { s with objects := Function.update s.objects s.next (some o), next := s.next + 1 }
  match s.objects s.next with
  | none => s'
  | some old => s'.dropObject call old

/-- `with_object(handle, |o| o.clone_ref())`, the result being dropped by the caller. -/
def inspect (s : State) (call : Call) (h : Handle) : State :=
  match s.objects h with
  | none => s
  | some o => s.dropObject call o.cloneRef

/-- `is_pseudo_handle`. -/
def isPseudoHandle (h : Handle) : Bool :=
  h = BitVec.allOnes 64 || h = BitVec.allOnes 64 - 1 || h.toNat ≤ 2

/-- `handle::close`: remove the entry, then drop the object. -/
def close (s : State) (call : Call) (h : Handle) : State :=
  if isPseudoHandle h then s
  else
    match s.objects h with
    | none => s
    | some o => { s with objects := Function.update s.objects h none }.dropObject call o

/-- Whether `wait_for_single_object` answers `WAIT_FAILED`, which ends the polling loop. -/
def waitFails (s : State) (h : Handle) : Bool :=
  match s.objects h with
  | some (.event _) | some (.mutex _) | some (.semaphore _) | some (.thread _) => false
  | some (.file _) | some (.section_ _ _) => true
  | some .process | none => h ≠ BitVec.allOnes 64

/-- The polls of `wait_for_multiple_objects`, up to the first that fails. -/
def pollAll (s : State) (call : Call) : List Handle → State
  | [] => s
  | h :: rest =>
      let s' := s.inspect call h
      if s'.waitFails h then s' else s'.pollAll call rest

def run (s : State) : Call → Option State
  | .openFileHandle none => some s
  | .openFileHandle (some fd) =>
      if s.fds fd = none then
        some (({ s with
          fds := Function.update s.fds fd (some (.opened s.opens.length)),
          opens := s.opens ++ [s.next] }).insert (.openFileHandle (some fd))
            (.file ⟨fd, s.opens.length⟩))
      else none
  | .create o => if o.isFile then none else some (s.insert (.create o) o)
  -- what `resolve_fd` finds is read or written; no object is made or dropped
  | .readFile _ | .writeFile _ => some s
  | .setEvent h => some (s.inspect (.setEvent h) h)
  | .resetEvent h => some (s.inspect (.resetEvent h) h)
  | .pulseEvent h => some (s.inspect (.pulseEvent h) h)
  | .releaseMutex h => some (s.inspect (.releaseMutex h) h)
  | .releaseSemaphore h => some (s.inspect (.releaseSemaphore h) h)
  | .getThreadId h => some (s.inspect (.getThreadId h) h)
  | .waitForSingleObject h => some (s.inspect (.waitForSingleObject h) h)
  | .waitForMultipleObjects handles polled =>
      if ∀ h ∈ polled, h ∈ handles then
        some (s.pollAll (.waitForMultipleObjects handles polled) polled)
      else none
  | .closeHandle h => some (s.close (.closeHandle h) h)
  | .ntClose h => some (s.close (.ntClose h) h)

end State

namespace State

variable {s s' : State} {call : Call} {o : Object} {h : Handle}

@[simp] theorem dropObject_objects : (s.dropObject call o).objects = s.objects := by
  unfold dropObject closeFd
  cases o with
  | file f =>
    dsimp only
    split <;> rfl
  | _ => rfl

@[simp] theorem dropObject_next : (s.dropObject call o).next = s.next := by
  unfold dropObject closeFd
  cases o with
  | file f =>
    dsimp only
    split <;> rfl
  | _ => rfl

theorem insert_objects :
    (s.insert call o).objects = Function.update s.objects s.next (some o) := by
  unfold insert
  dsimp only
  split
  · rfl
  · rw [dropObject_objects]

theorem insert_next : (s.insert call o).next = s.next + 1 := by
  unfold insert
  dsimp only
  split
  · rfl
  · rw [dropObject_next]

theorem close_next : (s.close call h).next = s.next := by
  unfold close
  split
  · rfl
  · split
    · rfl
    · rw [dropObject_next]

/-- A close takes at most the entry it names. -/
theorem close_objects_ne {h' : Handle} (hne : h' ≠ h) :
    (s.close call h).objects h' = s.objects h' := by
  unfold close
  split
  · rfl
  · split
    · rfl
    · rw [dropObject_objects]
      exact Function.update_of_ne hne _ _

theorem close_objects_self (hreal : isPseudoHandle h = false) :
    (s.close call h).objects h = none := by
  unfold close
  rw [if_neg (by simp [hreal])]
  split
  · next hnone => exact hnone
  · rw [dropObject_objects]
    exact Function.update_self _ _ _

end State

/-! ## What a creation puts into the table -/

theorem run_create {o : Object} {t t' : State} (hn : t.run (.create o) = some t') :
    t'.objects = Function.update t.objects t.next (some o) ∧ t'.next = t.next + 1 := by
  simp only [State.run] at hn
  split at hn
  · cases hn
  · cases hn
    exact ⟨State.insert_objects, State.insert_next⟩

theorem run_openFile {fd : Nat} {t t' : State}
    (hn : t.run (.openFileHandle (some fd)) = some t') :
    t'.objects = Function.update t.objects t.next (some (.file ⟨fd, t.opens.length⟩)) ∧
      t'.next = t.next + 1 := by
  simp only [State.run] at hn
  split at hn
  · cases hn
    exact ⟨State.insert_objects, State.insert_next⟩
  · cases hn

/-- The process at start: an empty table, and whatever descriptors it inherited. -/
def handles : Machine State Call where
  init s := (∀ h, s.objects h = none) ∧ s.next = 0x10000 ∧
    (∀ fd f, s.fds fd = some f → f = .inherited) ∧ s.opens = [] ∧ s.closes = []
  next := State.run

/-! ## Ownership -/

/-- Handle `h` names the file made by open number `serial`. -/
def State.names (s : State) (h : Handle) (serial : Nat) : Prop :=
  ∃ f, s.objects h = some (.file f) ∧ f.serial = serial

/-- How often the file made by open number `serial` has been closed. -/
def State.timesClosed (s : State) (serial : Nat) : Nat :=
  (s.closes.map Prod.fst).count (.opened serial)

/-- Each open file belongs to the handle its open returned, until that handle is closed. -/
structure Owned (s : State) : Prop where
  /-- A file entry's descriptor is open, and stands for the file the entry was made for. -/
  fdOpen : ∀ h f, s.objects h = some (.file f) → s.fds f.fd = some (.opened f.serial)
  /-- A file entry sits under the handle its open returned. -/
  named : ∀ h f, s.objects h = some (.file f) → s.opens[f.serial]? = some h
  /-- Only opens that happened have descriptors. -/
  issued : ∀ fd serial, s.fds fd = some (.opened serial) → serial < s.opens.length
  /-- A close is the `CloseHandle` or `NtClose` of the handle that named the file. -/
  closedBy : ∀ f call, (f, call) ∈ s.closes → ∃ serial h, f = .opened serial ∧
    s.opens[serial]? = some h ∧ (call = .closeHandle h ∨ call = .ntClose h)
  /-- An open file is in the table and not closed, or was closed once. -/
  once : ∀ serial h, s.opens[serial]? = some h →
    (s.names h serial ∧ s.timesClosed serial = 0) ∨
      (¬ s.names h serial ∧ s.timesClosed serial = 1)

/-- Whether the polls of `wait_for_multiple_objects` look at a file before one of them fails. -/
def State.pollsFile (s : State) : List Handle → Bool
  | [] => false
  | h :: rest =>
      match s.objects h with
      | some (.file _) => true
      | _ => !s.waitFails h && s.pollsFile rest

/-- The steps on which ownership is kept: no call that goes through `clone_ref` is applied to a
    handle that names a file, and a new handle value does not still name a file. -/
def Clean (s : State) : Call → Prop
  | .openFileHandle (some _) | .create _ => ∀ f, s.objects s.next ≠ some (.file f)
  | .setEvent h | .resetEvent h | .pulseEvent h | .releaseMutex h | .releaseSemaphore h
  | .getThreadId h | .waitForSingleObject h => ∀ f, s.objects h ≠ some (.file f)
  | .waitForMultipleObjects _ polled => s.pollsFile polled = false
  | _ => True

theorem owned_start {s : State} (h : handles.init s) : Owned s := by
  obtain ⟨hobj, -, hfds, hopens, hcloses⟩ := h
  refine ⟨fun h f hf => ?_, fun h f hf => ?_, fun fd serial hf => ?_, fun f call hm => ?_,
    fun serial h hs => ?_⟩
  · rw [hobj h] at hf; cases hf
  · rw [hobj h] at hf; cases hf
  · cases hfds fd _ hf
  · rw [hcloses] at hm; cases hm
  · rw [hopens] at hs; cases hs

theorem inspect_eq {s : State} {call : Call} {h : Handle}
    (hf : ∀ f, s.objects h ≠ some (.file f)) : s.inspect call h = s := by
  unfold State.inspect
  cases ho : s.objects h with
  | none => rfl
  | some o => cases o <;> first | rfl | exact absurd ho (hf _)

theorem dropObject_eq {s : State} {call : Call} {o : Object} (hf : o.isFile = false) :
    s.dropObject call o = s := by
  cases o <;> first | rfl | cases hf

theorem pollAll_eq {s : State} {call : Call} :
    ∀ {polled : List Handle}, s.pollsFile polled = false → s.pollAll call polled = s := by
  intro polled
  induction polled with
  | nil => intro _; rfl
  | cons h rest ih =>
    intro hf
    have hnot : ∀ f, s.objects h ≠ some (.file f) := by
      intro f ho
      simp [State.pollsFile, ho] at hf
    have hrest : s.waitFails h = false → s.pollsFile rest = false := by
      intro hw
      unfold State.pollsFile at hf
      split at hf
      · exact absurd hf (by simp)
      · simpa [hw] using hf
    simp only [State.pollAll, inspect_eq hnot]
    cases hw : s.waitFails h with
    | true => rfl
    | false => exact ih (hrest hw)

theorem insert_eq {s : State} {call : Call} {o : Object}
    (hf : ∀ f, s.objects s.next ≠ some (.file f)) :
    s.insert call o =
      { s with objects := Function.update s.objects s.next (some o), next := s.next + 1 } := by
  unfold State.insert
  cases ho : s.objects s.next with
  | none => rfl
  | some old => exact dropObject_eq (by cases old <;> first | rfl | exact absurd ho (hf _))

/-- Two file entries on one open are one entry. -/
theorem Owned.handle_unique {s : State} (ho : Owned s) {h h' : Handle} {f f' : FileObject}
    (hf : s.objects h = some (.file f)) (hf' : s.objects h' = some (.file f'))
    (he : f.fd = f'.fd) : h = h' := by
  have h₁ := ho.fdOpen h f hf
  have h₂ := ho.fdOpen h' f' hf'
  rw [he, h₂] at h₁
  simp only [Option.some.injEq, OpenFile.opened.injEq] at h₁
  have n₁ := ho.named h f hf
  have n₂ := ho.named h' f' hf'
  rw [← h₁, n₂] at n₁
  exact (Option.some.inj n₁).symm

theorem names_update_ne {s : State} {h h' : Handle} {o : Option Object} {serial : Nat}
    (hne : h' ≠ h) {s' : State} (hs : s'.objects = Function.update s.objects h o) :
    s'.names h' serial ↔ s.names h' serial := by
  unfold State.names
  rw [hs, Function.update_of_ne hne]

theorem update_file {s : State} {h h' : Handle} {o : Option Object} {f : FileObject}
    (hf : Function.update s.objects h o h' = some (.file f)) :
    (h' = h ∧ o = some (.file f)) ∨ (h' ≠ h ∧ s.objects h' = some (.file f)) := by
  by_cases hh : h' = h
  · subst hh
    rw [Function.update_self] at hf
    exact Or.inl ⟨rfl, hf⟩
  · rw [Function.update_of_ne hh] at hf
    exact Or.inr ⟨hh, hf⟩

theorem names_update {s s' : State} {h h' : Handle} {o : Option Object} {serial : Nat}
    (hs : s'.objects = Function.update s.objects h o)
    (hold : ∀ f, s.objects h = some (.file f) → f.serial ≠ serial)
    (hnew : ∀ f, o = some (.file f) → f.serial ≠ serial) :
    s'.names h' serial ↔ s.names h' serial := by
  by_cases hh : h' = h
  · subst hh
    constructor
    · rintro ⟨f, hf, e⟩
      rw [hs, Function.update_self] at hf
      exact absurd e (hnew f hf)
    · rintro ⟨f, hf, e⟩
      exact absurd e (hold f hf)
  · exact names_update_ne hh hs

theorem Owned.update {s s' : State} (ho : Owned s) {h : Handle} {o : Option Object}
    (hs : s'.objects = Function.update s.objects h o) (hfds : s'.fds = s.fds)
    (hopens : s'.opens = s.opens) (hcloses : s'.closes = s.closes)
    (hold : ∀ f, s.objects h ≠ some (.file f)) (hnew : ∀ f, o ≠ some (.file f)) : Owned s' := by
  have hfile : ∀ h' f, s'.objects h' = some (.file f) → s.objects h' = some (.file f) := by
    intro h' f hf
    rw [hs] at hf
    rcases update_file hf with ⟨-, e⟩ | ⟨-, hf'⟩
    · exact absurd e (hnew f)
    · exact hf'
  refine ⟨fun h' f hf => ?_, fun h' f hf => ?_, ?_, ?_, fun serial h' hs' => ?_⟩
  · rw [hfds]; exact ho.fdOpen h' f (hfile h' f hf)
  · rw [hopens]; exact ho.named h' f (hfile h' f hf)
  · rw [hfds, hopens]; exact ho.issued
  · rw [hopens, hcloses]; exact ho.closedBy
  · rw [hopens] at hs'
    rw [names_update hs (fun f hf => absurd hf (hold f)) (fun f hf => absurd hf (hnew f)),
      State.timesClosed, hcloses]
    exact ho.once serial h' hs'

theorem Owned.create {s : State} (ho : Owned s) {o : Object} (hfile : o.isFile = false)
    (hfree : ∀ f, s.objects s.next ≠ some (.file f)) (call : Call) :
    Owned (s.insert call o) := by
  rw [insert_eq hfree]
  refine ho.update rfl rfl rfl rfl hfree fun f e => ?_
  cases e
  cases hfile

theorem Owned.open {s : State} (ho : Owned s) {fd : Nat} (hfd : s.fds fd = none)
    (hfree : ∀ f, s.objects s.next ≠ some (.file f)) {s' : State}
    (h : s.run (.openFileHandle (some fd)) = some s') : Owned s' := by
  simp only [State.run, hfd, if_true, Option.some.injEq] at h
  rw [insert_eq (by exact hfree)] at h
  subst h
  have hfresh : ∀ h f, s.objects h = some (.file f) → f.serial < s.opens.length := fun h f hf =>
    ho.issued f.fd f.serial (ho.fdOpen h f hf)
  have hlast : (s.opens ++ [s.next])[s.opens.length]? = some s.next := by simp
  refine ⟨fun h f hf => ?_, fun h f hf => ?_, fun fd' serial hs => ?_, fun f call hm => ?_,
    fun serial h hs => ?_⟩
  · show Function.update s.fds fd _ f.fd = _
    rcases update_file hf with ⟨-, e⟩ | ⟨-, hf'⟩
    · cases e
      rw [Function.update_self]
    · have := ho.fdOpen h f hf'
      have hne : f.fd ≠ fd := by rintro e; rw [e, hfd] at this; cases this
      rwa [Function.update_of_ne hne]
  · show (s.opens ++ [s.next])[f.serial]? = some h
    rcases update_file hf with ⟨rfl, e⟩ | ⟨-, hf'⟩
    · cases e
      exact hlast
    · rw [List.getElem?_append_left (hfresh h f hf')]
      exact ho.named h f hf'
  · show serial < (s.opens ++ [s.next]).length
    rw [List.length_append, List.length_singleton]
    have hs' : Function.update s.fds fd (some (.opened s.opens.length)) fd' =
      some (.opened serial) := hs
    by_cases hh : fd' = fd
    · subst hh
      rw [Function.update_self] at hs'
      cases hs'
      omega
    · rw [Function.update_of_ne hh] at hs'
      have := ho.issued fd' serial hs'
      omega
  · obtain ⟨serial, h, e, hs, hc⟩ := ho.closedBy f call hm
    refine ⟨serial, h, e, ?_, hc⟩
    have hlt : serial < s.opens.length := (List.getElem?_eq_some_iff.mp hs).1
    show (s.opens ++ [s.next])[serial]? = some h
    rwa [List.getElem?_append_left hlt]
  · have hs' : (s.opens ++ [s.next])[serial]? = some h := hs
    by_cases hlt : serial < s.opens.length
    · rw [List.getElem?_append_left hlt] at hs'
      have hother : ∀ h', State.names { s with
          fds := Function.update s.fds fd (some (.opened s.opens.length)),
          opens := s.opens ++ [s.next],
          objects := Function.update s.objects s.next (some (.file ⟨fd, s.opens.length⟩)),
          next := s.next + 1 } h' serial ↔ s.names h' serial := by
        refine fun h' => names_update rfl (fun f hf => absurd hf (hfree f)) fun f hf => ?_
        cases hf
        exact Nat.ne_of_gt hlt
      rw [hother]
      exact ho.once serial h hs'
    · have hser : serial = s.opens.length := by
        have := (List.getElem?_eq_some_iff.mp hs').1
        rw [List.length_append, List.length_singleton] at this
        omega
      subst hser
      rw [hlast] at hs'
      cases hs'
      refine Or.inl ⟨⟨⟨fd, s.opens.length⟩, Function.update_self .., rfl⟩, ?_⟩
      -- a file that has just been opened has not been closed before
      refine List.count_eq_zero.mpr fun hm => ?_
      obtain ⟨⟨f, call⟩, hmem, e⟩ := List.mem_map.mp hm
      obtain ⟨serial, h, e', hs, -⟩ := ho.closedBy f call hmem
      rw [show f = _ from e] at e'
      cases e'
      exact absurd (List.getElem?_eq_some_iff.mp hs).1 (Nat.lt_irrefl _)

theorem Owned.close {s : State} (ho : Owned s) {h : Handle} {call : Call}
    (hcall : call = .closeHandle h ∨ call = .ntClose h) : Owned (s.close call h) := by
  unfold State.close
  split
  · exact ho
  cases hobj : s.objects h with
  | none => exact ho
  | some o =>
    have hkeep : ∀ h' f, Function.update s.objects h none h' = some (Object.file f) →
        h' ≠ h ∧ s.objects h' = some (.file f) := by
      intro h' f hf
      have hne : h' ≠ h := by rintro rfl; rw [Function.update_self] at hf; cases hf
      exact ⟨hne, by rwa [Function.update_of_ne hne] at hf⟩
    cases o with
    | file f₀ =>
      have hopen := ho.fdOpen h f₀ hobj
      have hname := ho.named h f₀ hobj
      simp only [State.dropObject, State.closeFd, hopen]
      refine ⟨fun h' f hf => ?_, fun h' f hf => ho.named h' f (hkeep h' f hf).2,
        fun fd serial hs => ?_, fun f call' hm => ?_, fun serial h' hs => ?_⟩
      · obtain ⟨hne, hf'⟩ := hkeep h' f hf
        have hfd : f.fd ≠ f₀.fd := fun e => hne (ho.handle_unique hf' hobj e)
        show Function.update s.fds f₀.fd none f.fd = _
        rw [Function.update_of_ne hfd]
        exact ho.fdOpen h' f hf'
      · have hs' : Function.update s.fds f₀.fd none fd = some (.opened serial) := hs
        by_cases hh : fd = f₀.fd
        · subst hh; rw [Function.update_self] at hs'; cases hs'
        · rw [Function.update_of_ne hh] at hs'; exact ho.issued fd serial hs'
      · rcases List.mem_append.mp hm with hm | hm
        · exact ho.closedBy f call' hm
        · simp only [List.mem_singleton, Prod.mk.injEq] at hm
          obtain ⟨rfl, rfl⟩ := hm
          exact ⟨f₀.serial, h, rfl, hname, hcall⟩
      · have hcount : State.timesClosed { s with
            objects := Function.update s.objects h none,
            fds := Function.update s.fds f₀.fd none,
            closes := s.closes ++ [(.opened f₀.serial, call)] } serial
              = s.timesClosed serial + if serial = f₀.serial then 1 else 0 := by
          simp only [State.timesClosed, List.map_append, List.map_cons, List.map_nil,
            List.count_append, List.count_singleton, beq_iff_eq, OpenFile.opened.injEq]
          simp only [eq_comm]
        rw [hcount]
        have honce := ho.once serial h' hs
        by_cases hser : serial = f₀.serial
        · -- the file being closed
          subst hser
          have hh : h' = h := by
            have hs' : s.opens[f₀.serial]? = some h' := hs
            rw [hname] at hs'
            exact (Option.some.inj hs').symm
          subst hh
          refine Or.inr ⟨?_, ?_⟩
          · rintro ⟨f, hf, -⟩
            exact (hkeep h' f hf).1 rfl
          · rcases honce with ⟨-, hz⟩ | ⟨hn, -⟩
            · rw [hz, if_pos rfl]
            · exact absurd ⟨f₀, hobj, rfl⟩ hn
        · rw [if_neg hser, Nat.add_zero]
          have hsame : State.names { s with
              objects := Function.update s.objects h none,
              fds := Function.update s.fds f₀.fd none,
              closes := s.closes ++ [(.opened f₀.serial, call)] } h' serial ↔
                s.names h' serial := by
            refine names_update rfl (fun f hf => ?_) nofun
            rw [hobj] at hf
            cases hf
            exact Ne.symm hser
          rw [hsame]
          exact honce
    | event _ | mutex _ | semaphore _ | thread _ | section_ _ _ | process =>
      -- nothing that owns a descriptor is dropped
      exact ho.update rfl rfl rfl rfl (by simp [hobj]) (by simp)

theorem Owned.step {s s' : State} {call : Call} (ho : Owned s) (hok : Clean s call)
    (h : handles.next s call = some s') : Owned s' := by
  have h : s.run call = some s' := h
  cases call with
  | openFileHandle fd =>
    cases fd with
    | none => cases h; exact ho
    | some fd =>
      by_cases hfd : s.fds fd = none
      · exact ho.open hfd hok h
      · simp [State.run, hfd] at h
  | create o =>
    cases hfile : o.isFile with
    | true => simp [State.run, hfile] at h
    | false =>
      simp only [State.run, hfile, Bool.false_eq_true, if_false, Option.some.injEq] at h
      exact h ▸ ho.create hfile hok _
  | readFile h' | writeFile h' => cases h; exact ho
  | setEvent h' | resetEvent h' | pulseEvent h' | releaseMutex h' | releaseSemaphore h'
  | getThreadId h' | waitForSingleObject h' =>
    simp only [State.run, inspect_eq hok, Option.some.injEq] at h
    exact h ▸ ho
  | waitForMultipleObjects hs polled =>
    simp only [State.run, pollAll_eq hok] at h
    split at h
    · cases h; exact ho
    · cases h
  | closeHandle h' => cases h; exact ho.close (Or.inl rfl)
  | ntClose h' => cases h; exact ho.close (Or.inr rfl)

theorem owned_of_clean {s : State} (h : handles.ReachableIf Clean s) : Owned s :=
  h.invariant (fun _ => owned_start) fun _ _ _ ho hok hn => ho.step hok hn

/-- The ownership of descriptors in one state: the descriptor of each file entry is open and still
    stands for the file the entry was made for; only `CloseHandle` and `NtClose` of the handle an
    open returned have closed its file; and each open file is in the table and was never closed, or
    has left it and was closed exactly once. -/
def OwnsDescriptors (s : State) : Prop :=
  (∀ h f, s.objects h = some (.file f) → s.fds f.fd = some (.opened f.serial)) ∧
  (∀ f call, (f, call) ∈ s.closes → ∃ serial h, f = .opened serial ∧
    s.opens[serial]? = some h ∧ (call = .closeHandle h ∨ call = .ntClose h)) ∧
  (∀ serial h, s.opens[serial]? = some h →
    (s.names h serial ∧ s.timesClosed serial = 0) ∨
      (¬ s.names h serial ∧ s.timesClosed serial = 1))

/-- **A file handle owns its descriptor**, in every run whose calls look only at objects that are
    no files. -/
theorem file_owns_descriptor (s : State) (h : handles.ReachableIf Clean s) :
    OwnsDescriptors s := by
  have ho := owned_of_clean h
  exact ⟨ho.fdOpen, ho.closedBy, ho.once⟩

/-- A process with standard input, output and error open. -/
def fresh : State where
  objects _ := none
  next := 0x10000
  fds fd := if fd < 3 then some .inherited else none
  opens := []
  closes := []

theorem fresh_init : handles.init fresh :=
  ⟨fun _ => rfl, rfl, fun fd f hf => by
    simp only [fresh] at hf
    split at hf <;> cases hf
    rfl, rfl, rfl⟩

/-- Two files are opened, an event is set, and the first file is closed: the second keeps its
    descriptor. -/
theorem file_owns_descriptor_twoFiles :
    ∃ s, handles.exec fresh [.openFileHandle (some 3), .openFileHandle (some 4), .create (.event 0),
      .setEvent 0x10002, .closeHandle 0x10000] = some s ∧
      s.objects 0x10001 = some (.file ⟨4, 1⟩) ∧ OwnsDescriptors s := by
  have hfirst : handles.ReachableIf Clean _ :=
    .step (a := .openFileHandle (some 3)) (.start fresh_init) nofun rfl
  have hsecond : handles.ReachableIf Clean _ :=
    .step (a := .openFileHandle (some 4)) hfirst nofun rfl
  have hevent : handles.ReachableIf Clean _ := .step (a := .create (.event 0)) hsecond nofun rfl
  have hset : handles.ReachableIf Clean _ := .step (a := .setEvent 0x10002) hevent nofun rfl
  have hclosed : handles.ReachableIf Clean _ := .step (a := .closeHandle 0x10000) hset trivial rfl
  exact ⟨_, rfl, rfl, file_owns_descriptor _ hclosed⟩

/-- `SetEvent` on a file handle closes the file: the entry stays in the table, its descriptor does
    not stay open. -/
theorem set_event_closes_file :
    ¬ ∀ s, handles.Reachable s → OwnsDescriptors s := by
  intro hall
  have hrun : ∃ s, handles.exec fresh [.openFileHandle (some 3), .setEvent 0x10000] = some s ∧
      s.objects 0x10000 = some (.file ⟨3, 0⟩) ∧ s.fds 3 = none := ⟨_, rfl, rfl, rfl⟩
  obtain ⟨s, hexec, hobj, hfd⟩ := hrun
  have := (hall s (Machine.reachable_of_exec fresh_init hexec)).1 _ _ hobj
  rw [hfd] at this
  cases this

end WinCompat.Handles
