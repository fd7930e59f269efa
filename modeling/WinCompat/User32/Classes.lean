import WinCompat.Lib.Machine
import WinCompat.User32.Model

/-!
# Window classes

`RegisterClassExW`, `UnregisterClassW` and `CreateWindowExW` of `win32-user32/src/lib.rs` in any order.
A class is found by its name, and its procedure then by its atom. Nothing looks for the name when a
class is registered, and an atom is what 15 bits of `NEXT_HWND` make, the counter that windows and
the other threads take from as well.

Beside the state a `Session` keeps what the program has asked for: the procedure of the latest
registration of each name, and what the registrations returned.
-/

namespace WinCompat.User32

open Lib
open Lib.Utf16 (CodeUnit)

/-- The calls of one thread. The procedure of a new window is called when the window is in the table,
    so what it calls comes after the creation. -/
inductive ClassCall
  | registerClassExW (lpwcx : Option (WndProc × WStr))
  | unregisterClassW (name : WStr)
  | createWindowExW (className : WStr) (width height : BitVec 32) (host : Option HostWindow)
  /-- The other threads take numbers from `NEXT_HWND`. -/
  | otherThreads (taken : BitVec 32)
  deriving DecidableEq

/-- A registration: whether its name was registered at the time, and the atom that it returned. -/
structure Registration where
  again : Bool
  atom : Atom
  deriving DecidableEq

structure Session where
  state : State
  /-- The procedure of the latest registration of a name that is not unregistered since. -/
  latest : Text → Option WndProc
  registrations : List Registration

namespace Session

variable (s : Session)

def apply : ClassCall → Session
  | .registerClassExW none => s
  | .registerClassExW (some (proc, className)) =>
    let r := s.state.registerClassExW (some (proc, className))
    let name := widestringToString className
    { state := r.2
      latest := if r.1 = 0 then s.latest else Function.update s.latest name (some proc)
      registrations := ⟨(s.latest name).isSome, r.1⟩ :: s.registrations }
  | .unregisterClassW none => s
  | .unregisterClassW (some units) =>
    { s with
      state := (s.state.unregisterClassW (some units)).2
      latest := Function.update s.latest (widestringToString (some units)) none }
  | .createWindowExW className width height host =>
    { s with state := (s.state.openWindow className width height host).2 }
  | .otherThreads taken =>
    { s with state := { s.state with nextHwnd := s.state.nextHwnd + taken } }

end Session

/-- No class is registered yet; the counter has any value. -/
def classMachine : Machine Session ClassCall where
  init s := s.state.classes = [] ∧ s.latest = (fun _ => none) ∧ s.registrations = []
  next s c := some (s.apply c)

/-- The procedure of the window that `create_window_ex_w` puts into the table, if it makes one. -/
def State.boundProc (s : State) (className : WStr) (width height : BitVec 32)
    (host : Option HostWindow) : Option WndProc :=
  match s.openWindow className width height host with
  | (none, _) => none
  | (some _, s') => s'.windows.getLast?.map fun entry => entry.2.wndProc

/-- What the program may expect of classes. -/
structure Distinguishable (s : Session) : Prop where
  atoms : (s.state.classes.map ClassEntry.atom).Nodup
  nonzero : ∀ c ∈ s.state.classes, c.atom ≠ 0
  refused : ∀ r ∈ s.registrations, r.again = true → r.atom = 0
  bound : ∀ className width height host,
    s.state.boundProc className width height host = s.latest (widestringToString className)

/-- The atom that the next registration returns. -/
def State.nextAtom (s : State) : Atom := s.nextHwnd.setWidth 16 ||| 0x8000

/-- A class that is registered has a name and an atom that no registered class has. -/
def ClassCall.Fresh (s : Session) : ClassCall → Prop
  | .registerClassExW (some (_, className)) =>
    ∀ c ∈ s.state.classes, c.name ≠ widestringToString className ∧ c.atom ≠ s.state.nextAtom
  | _ => True

instance (s : Session) : (c : ClassCall) → Decidable (c.Fresh s)
  | .registerClassExW (some _) => inferInstanceAs (Decidable (∀ c ∈ s.state.classes, _ ∧ _))
  | .registerClassExW none | .unregisterClassW _ | .createWindowExW .. | .otherThreads _ =>
    isTrue trivial

/-! ## The class of a name -/

section

variable {s : State} {c : ClassEntry}

/-- The registered names and their procedures. -/
def State.registered (s : State) : List (Text × WndProc) :=
  s.classes.map fun c => (c.name, c.lpfnWndProc)

/-- The procedure of the first class of a name. -/
def State.procNamed (s : State) (name : Text) : Option WndProc := s.registered.lookup name

theorem procNamed_eq_find (name : Text) :
    s.procNamed name = (s.classes.find? fun c => c.name = name).map ClassEntry.lpfnWndProc := by
  unfold State.procNamed State.registered
  induction s.classes with
  | nil => rfl
  | cons c classes ih =>
    rw [List.map_cons, Assoc.lookup_cons_ite, List.find?_cons]
    by_cases hname : c.name = name
    · simp [hname]
    · simp [hname, ih]

theorem nextAtom_ne_zero : s.nextAtom ≠ 0 := by
  intro h
  have hbit := congrArg (fun a : Atom => a.getLsbD 15) h
  simp [State.nextAtom] at hbit

theorem boundProc_eq (className : WStr) (width height : BitVec 32) (host : Option HostWindow) :
    s.boundProc className width height host =
      (s.findClassByName (widestringToString className)).map s.classProc := by
  unfold State.boundProc State.openWindow
  cases s.findClassByName (widestringToString className) with
  | none => rfl
  | some atom => simp [List.getLast?_append]

theorem classProc_of_mem (hatoms : (s.classes.map ClassEntry.atom).Nodup) (hc : c ∈ s.classes) :
    s.classProc c.atom = c.lpfnWndProc := by
  unfold State.classProc
  cases hfind : s.classes.find? fun d => d.atom = c.atom with
  | none => exact absurd (List.find?_eq_none.mp hfind c hc) (by simp)
  | some d =>
    have hatom : d.atom = c.atom := by simpa using List.find?_some hfind
    obtain rfl := List.inj_on_of_nodup_map hatoms (List.mem_of_find?_eq_some hfind) hc hatom
    rfl

theorem boundProc_of_nodup (hatoms : (s.classes.map ClassEntry.atom).Nodup) (className : WStr)
    (width height : BitVec 32) (host : Option HostWindow) :
    s.boundProc className width height host = s.procNamed (widestringToString className) := by
  rw [boundProc_eq]
  rw [procNamed_eq_find]
  unfold State.findClassByName
  cases hfind : s.classes.find? fun c => c.name = widestringToString className with
  | none => rfl
  | some c =>
    exact congrArg some (classProc_of_mem hatoms (List.mem_of_find?_eq_some hfind))

theorem procNamed_eq_none {name : Text} :
    s.procNamed name = none ↔ ∀ c ∈ s.classes, c.name ≠ name := by
  simp [procNamed_eq_find]

end

/-! ## One call -/

section

variable {s : Session}

/-- Distinct names are what keeps an unregistered name unknown. -/
def NamesDiffer (s : Session) : Prop := (s.state.classes.map ClassEntry.name).Nodup

theorem Distinguishable.procNamed_eq (hs : Distinguishable s) (className : WStr) :
    s.state.procNamed (widestringToString className) = s.latest (widestringToString className) := by
  rw [← boundProc_of_nodup hs.atoms className 0 0 none]
  exact hs.bound className 0 0 none

theorem Distinguishable.of_procNamed (hatoms : (s.state.classes.map ClassEntry.atom).Nodup)
    (hnonzero : ∀ c ∈ s.state.classes, c.atom ≠ 0)
    (hrefused : ∀ r ∈ s.registrations, r.again = true → r.atom = 0)
    (hproc : ∀ className, s.state.procNamed (widestringToString className) =
      s.latest (widestringToString className)) : Distinguishable s := by
  refine ⟨hatoms, hnonzero, hrefused, fun className width height host => ?_⟩
  rw [boundProc_of_nodup hatoms]
  exact hproc className

/-- A call that leaves the classes as they are. -/
theorem Distinguishable.of_classes_eq {state : State} (hs : Distinguishable s)
    (h : state.classes = s.state.classes) : Distinguishable { s with state } := by
  apply Distinguishable.of_procNamed
  · simpa [h] using hs.atoms
  · simpa [h] using hs.nonzero
  · exact hs.refused
  · intro className
    rw [← hs.procNamed_eq className]
    unfold State.procNamed State.registered
    rw [h]

/-- The entry that a registration appends. -/
def State.nextClass (s : State) (proc : WndProc) (className : WStr) : ClassEntry :=
  ⟨s.nextAtom, proc, widestringToString className⟩

theorem apply_register (proc : WndProc) (className : WStr) :
    s.apply (.registerClassExW (some (proc, className))) =
      { state := { s.state.fetchAdd with
          classes := s.state.classes ++ [s.state.nextClass proc className] }
        latest := Function.update s.latest (widestringToString className) (some proc)
        registrations :=
          ⟨(s.latest (widestringToString className)).isSome, s.state.nextAtom⟩ ::
            s.registrations } := by
  have hlatest : (if s.state.nextAtom = 0 then s.latest
      else Function.update s.latest (widestringToString className) (some proc)) =
      Function.update s.latest (widestringToString className) (some proc) :=
    if_neg nextAtom_ne_zero
  rw [← hlatest]
  rfl

theorem register_iff (hs : Distinguishable s) (proc : WndProc) (className : WStr) :
    Distinguishable (s.apply (.registerClassExW (some (proc, className)))) ↔
      ClassCall.Fresh s (.registerClassExW (some (proc, className))) := by
  have hproc := hs.procNamed_eq className
  rw [apply_register]
  constructor
  · intro hs' c hc
    constructor
    · have hnew : s.latest (widestringToString className) = none := by
        by_contra hsome
        have hzero := hs'.refused _ List.mem_cons_self (Option.isSome_iff_ne_none.mpr hsome)
        exact nextAtom_ne_zero hzero
      rw [hnew, procNamed_eq_none] at hproc
      exact hproc c hc
    · have hatoms := hs'.atoms
      rw [List.map_append] at hatoms
      intro heq
      exact (List.nodup_append.mp hatoms).2.2 _ (List.mem_map_of_mem hc) _ List.mem_cons_self heq
  · intro hfresh
    have hunknown : s.state.procNamed (widestringToString className) = none :=
      procNamed_eq_none.mpr fun c hc => (hfresh c hc).1
    rw [hunknown] at hproc
    apply Distinguishable.of_procNamed
    · rw [List.map_append]
      refine List.nodup_append.mpr ⟨hs.atoms, List.nodup_singleton _, fun a ha b hb => ?_⟩
      obtain ⟨c, hc, rfl⟩ := List.mem_map.mp ha
      obtain rfl := List.mem_singleton.mp hb
      exact (hfresh c hc).2
    · intro c hc
      rcases List.mem_append.mp hc with hc | hc
      · exact hs.nonzero c hc
      · obtain rfl := List.mem_singleton.mp hc
        exact nextAtom_ne_zero
    · intro r hr hagain
      rcases List.mem_cons.mp hr with rfl | hr
      · simp [← hproc] at hagain
      · exact hs.refused r hr hagain
    · intro other
      have hregistered : ({ s.state.fetchAdd with
          classes := s.state.classes ++ [s.state.nextClass proc className] } : State).registered =
          s.state.registered ++ [(widestringToString className, proc)] := List.map_append
      show List.lookup _ _ = Function.update s.latest _ _ _
      rw [hregistered, Assoc.lookup_append]
      by_cases hname : widestringToString other = widestringToString className
      · rw [hname, Function.update_self, show s.state.registered.lookup _ = none from hunknown]
        simp
      · rw [Function.update_of_ne hname, ← hs.procNamed_eq other, Assoc.lookup_cons_ite,
          if_neg (Ne.symm hname)]
        simp [State.procNamed]

theorem NamesDiffer.register (hnames : NamesDiffer s) {proc : WndProc} {className : WStr}
    (hfresh : ClassCall.Fresh s (.registerClassExW (some (proc, className)))) :
    NamesDiffer (s.apply (.registerClassExW (some (proc, className)))) := by
  unfold NamesDiffer
  rw [apply_register, List.map_append]
  refine List.nodup_append.mpr ⟨hnames, List.nodup_singleton _, fun a ha b hb => ?_⟩
  obtain ⟨c, hc, rfl⟩ := List.mem_map.mp ha
  obtain rfl := List.mem_singleton.mp hb
  exact (hfresh c hc).1

theorem classes_unregister (units : List CodeUnit) :
    (s.state.unregisterClassW (some units)).2.classes =
      s.state.classes.eraseP fun c => c.name = widestringToString (some units) := by
  unfold State.unregisterClassW
  by_cases hany : s.state.classes.any fun c => c.name = widestringToString (some units)
  · simp [hany]
  · rw [List.eraseP_of_forall_not (by simpa using hany)]
    simp [hany]

theorem registered_unregister (units : List CodeUnit) :
    (s.state.unregisterClassW (some units)).2.registered =
      s.state.registered.eraseP fun p => p.1 = widestringToString (some units) := by
  unfold State.registered
  rw [classes_unregister, List.eraseP_map]
  rfl

theorem NamesDiffer.registered (hnames : NamesDiffer s) :
    (s.state.registered.map Prod.fst).Nodup := by
  unfold State.registered
  rw [List.map_map]
  exact hnames

theorem Distinguishable.unregister (hs : Distinguishable s) (hnames : NamesDiffer s)
    (units : List CodeUnit) : Distinguishable (s.apply (.unregisterClassW (some units))) := by
  have hclasses := classes_unregister (s := s) units
  have hsub := List.eraseP_sublist (p := fun c : ClassEntry =>
    decide (c.name = widestringToString (some units))) (l := s.state.classes)
  rw [← hclasses] at hsub
  apply Distinguishable.of_procNamed
  · exact hs.atoms.sublist (hsub.map _)
  · exact fun c hc => hs.nonzero c (hsub.subset hc)
  · exact hs.refused
  · intro other
    show (s.state.unregisterClassW (some units)).2.registered.lookup _ =
      Function.update s.latest _ _ _
    rw [registered_unregister]
    by_cases hname : widestringToString other = widestringToString (some units)
    · rw [hname, Function.update_self]
      exact Assoc.lookup_eraseP_self hnames.registered
    · rw [Function.update_of_ne hname, ← hs.procNamed_eq other]
      exact Assoc.lookup_eraseP_ne hname

theorem NamesDiffer.unregister (hnames : NamesDiffer s) (units : List CodeUnit) :
    NamesDiffer (s.apply (.unregisterClassW (some units))) := by
  have hclasses := classes_unregister (s := s) units
  unfold NamesDiffer
  show (List.map _ (s.state.unregisterClassW (some units)).2.classes).Nodup
  rw [hclasses]
  exact hnames.sublist (List.eraseP_sublist.map _)

theorem classes_openWindow (className : WStr) (width height : BitVec 32)
    (host : Option HostWindow) :
    (s.state.openWindow className width height host).2.classes = s.state.classes := by
  unfold State.openWindow
  cases s.state.findClassByName (widestringToString className) <;> rfl

theorem apply_iff (hs : Distinguishable s) (hnames : NamesDiffer s) (c : ClassCall) :
    (Distinguishable (s.apply c) ↔ c.Fresh s) ∧
      (Distinguishable (s.apply c) → NamesDiffer (s.apply c)) := by
  cases c with
  | registerClassExW lpwcx =>
    cases lpwcx with
    | none => exact ⟨iff_of_true hs trivial, fun _ => hnames⟩
    | some wcx =>
      have hiff := register_iff hs wcx.1 wcx.2
      exact ⟨hiff, fun hs' => hnames.register (hiff.mp hs')⟩
  | unregisterClassW name =>
    cases name with
    | none => exact ⟨iff_of_true hs trivial, fun _ => hnames⟩
    | some units =>
      exact ⟨iff_of_true (hs.unregister hnames units) trivial, fun _ => hnames.unregister units⟩
  | createWindowExW className width height host =>
    have hclasses := classes_openWindow (s := s) className width height host
    refine ⟨iff_of_true (hs.of_classes_eq hclasses) trivial, fun _ => ?_⟩
    show (List.map _ (s.state.openWindow className width height host).2.classes).Nodup
    rw [hclasses]
    exact hnames
  | otherThreads taken => exact ⟨iff_of_true (hs.of_classes_eq rfl) trivial, fun _ => hnames⟩

end

/-! ## Runs -/

theorem distinguishable_start {s : Session} (h : classMachine.init s) :
    Distinguishable s ∧ NamesDiffer s := by
  obtain ⟨hclasses, hlatest, hregistrations⟩ := h
  constructor
  · apply Distinguishable.of_procNamed
    · simp [hclasses]
    · simp [hclasses]
    · simp [hregistrations]
    · intro className
      simp [State.procNamed, State.registered, hclasses, hlatest]
  · simp [NamesDiffer, hclasses]

/-- Classes stay distinguishable throughout a run exactly if each class that is registered in it has
    a name and an atom that no class has at the time. -/
theorem classes_distinguishable_iff (s : Session) (hs : classMachine.init s)
    (calls : List ClassCall) :
    classMachine.Throughout Distinguishable s calls ↔
      classMachine.Steps (fun s c => c.Fresh s) s calls := by
  obtain ⟨hdist, hnames⟩ := distinguishable_start hs
  refine Machine.throughout_iff_steps (I := fun s => Distinguishable s → NamesDiffer s) ?_
    (fun _ => hnames) hdist
  intro s c s' hinv hp hn
  obtain rfl := Option.some.inj hn
  obtain ⟨hiff, hkept⟩ := apply_iff hp (hinv hp) c
  exact ⟨hkept, hiff⟩

/-- A thread that has not registered anything. -/
def Session.start : Session := ⟨{}, fun _ => none, []⟩

/-- `A` is registered, unregistered and registered again with another procedure. -/
def oneAfterTheOther : List ClassCall :=
  [.registerClassExW (some (0x1000, some [0x41])), .unregisterClassW (some [0x41]),
    .registerClassExW (some (0x2000, some [0x41])), .createWindowExW (some [0x41]) 640 480 none]

theorem oneAfterTheOther_fresh :
    classMachine.Steps (fun s c => c.Fresh s) .start oneAfterTheOther := by
  intro s₁ h₁
  obtain rfl := Option.some.inj h₁
  refine ⟨by decide, fun s₂ h₂ => ?_⟩
  obtain rfl := Option.some.inj h₂
  refine ⟨trivial, fun s₃ h₃ => ?_⟩
  obtain rfl := Option.some.inj h₃
  refine ⟨by decide, fun s₄ h₄ => ?_⟩
  obtain rfl := Option.some.inj h₄
  exact ⟨trivial, trivial⟩

theorem classes_distinguishable_oneAfterTheOther :
    classMachine.Throughout Distinguishable .start oneAfterTheOther :=
  (classes_distinguishable_iff .start ⟨rfl, rfl, rfl⟩ oneAfterTheOther).mpr oneAfterTheOther_fresh

/-- `A` takes number 1 and `B` number 0x8001; the numbers in between are those of windows. -/
def sameAtom : List ClassCall :=
  [.registerClassExW (some (0x1000, some [0x41])), .otherThreads 0x7FFF,
    .registerClassExW (some (0x2000, some [0x42]))]

/-- Both classes have the atom 0x8001, and a window of `B` is given the procedure of `A`. -/
theorem sameAtom_not_distinguishable :
    ¬ classMachine.Throughout Distinguishable .start sameAtom := by
  intro h
  have hlast := (((h.2 _ rfl).2 _ rfl).2 _ rfl).bound (some [0x42]) 640 480 none
  revert hlast
  decide

end WinCompat.User32
