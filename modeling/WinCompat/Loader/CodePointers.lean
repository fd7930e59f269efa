import WinCompat.Loader.Provenance

/-!
# The functions that the guest can call

Whether each address that the guest has is of Win64 code that is there to be called: code in a
mapped image, or a trampoline for as many arguments as the function behind it takes, in an arena
that has not been dropped.
-/

namespace WinCompat.Loader.Provenance

open Lib Lib.Paging
open Lib.Bytes (Word)

/-! ## What is wanted -/

/-- The number of a function's parameters; `arity` is that of the functions in the tables. -/
def Fn.params (arity : Word → Nat) : Fn → Nat
  | .listed target => arity target
  | .method _ _ params => params
  | .blob _ params => params
  | .softStub => 0
  | .trapStub => 0

def Trampoline.Exact (arity : Word → Nat) (t : Trampoline) : Prop :=
  t.nArgs = t.target.params arity

namespace World

variable (w : World) (arity : Word → Nat)

/-- Win64 code that is there. The trap stub, which takes no arguments and does not return, may be
    its own entry. Variables are not called. -/
def Callable : Ptr → Prop
  | .image l rva => ∃ size, w.mapped l = some size ∧ rva.toNat < size
  | .trampoline a t => ∃ ts, w.arenas a = some ts ∧ t ∈ ts ∧ t.Exact arity
  | .native f => f = .trapStub
  | .data _ => True

/-- The addresses the guest can get at: in an IAT slot of a live image, from a lookup, or in the
    vtable of an object. -/
def Obtains (p : Ptr) : Prop :=
  (∃ l m slot, w.images l = some m ∧ m.iat.lookup slot = some p) ∨ p ∈ w.found ∨
    ∃ v ∈ w.objects, p ∈ v

/-- Whatever the guest can get hold of is callable, with the arguments that its target takes. -/
def Sound : Prop := ∀ p, w.Obtains p → w.Callable arity p

/-! ## When it is kept -/

/-- No object's methods are in this arena. -/
def Idle (a : Nat) : Prop := ∀ v ∈ w.objects, ∀ t, Ptr.trampoline a t ∉ v

/-- No IAT slot of another image leads into this one, nor an address that a lookup has returned. -/
def Unreferenced (l : Nat) : Prop :=
  (∀ j m, j ≠ l → w.images j = some m → ∀ slot rva, m.iat.lookup slot ≠ some (.image l rva)) ∧
    ∀ rva, Ptr.image l rva ∉ w.found

/-- What may be stored in an IAT slot: an address in a module that is still mapped, or a trampoline
    for the right number of arguments. -/
def MayBind : Ptr → Prop
  | .image l _ => w.mapped l ≠ none
  | .trampoline _ t => t.Exact arity
  | _ => True

end World

/-- The last of the imports that go into this slot, of those that have been resolved, has been
    resolved to this address. -/
def Resolving.Stores (host : Host) (r : Resolving) (slot : Nat) (p : Ptr) : Prop :=
  slot < r.size ∧ (r.imports.reverse.findSome? fun imp =>
    if (BitVec.ofNat 32 imp.offset).toNat = slot then
      r.resolved.lookup (host.lowercase imp.dll, imp.name)
    else none) = some p

/-- The condition under which an event leaves every address callable. -/
def Event.Keeps (host : Host) (arity : Word → Nat) (w : World) : Event → Prop
  | .writeIat l _ => ∀ r, w.resolving l = some r → ∀ slot p, r.Stores host slot p →
      w.MayBind arity p
  | .fail l | .refuse l | .dropPeImage l => w.Idle l
  | .freeLibrary l => w.registered l ≠ none → w.Idle l ∧ w.Unreferenced l
  | .fakeProcAddress off bytes => ∀ target nArgs noreturn,
      host.surface.impls.lookup (fakeModule off, host.fromUtf8Lossy (bytes.take 256)) =
        some (.code target nArgs noreturn) → nArgs = arity target
  | .create i => ∀ a, w.vtables i.crate = some a → w.arenas a ≠ none
  | .compile => False
  | _ => True

/-! ## The table -/

section

variable {s : Surface} {a : Nat} {p : Ptr}

/-- What the import tables make of a name is a variable, or a function in one of them. -/
def Listed (s : Surface) (impl : Impl) : Prop :=
  (∃ addr, impl = .data addr) ∨
    ∃ spec ∈ s.importSpecs ++ s.d3d11Exports ++ s.d3d12Exports,
      impl = .code spec.target spec.nArgs spec.noreturn

theorem mem_addSpecs {specs : List ImportSpec} {map : ImplMap} {e : (String × String) × Impl}
    (h : e ∈ addSpecs specs map) : e ∈ map ∨ ∃ spec ∈ specs, e = spec.impl := by
  induction specs generalizing map with
  | nil => exact Or.inl h
  | cons spec specs ih =>
    rcases ih h with hmap | ⟨spec', hmem, rfl⟩
    · rcases List.mem_cons.mp hmap with rfl | hmap
      · exact Or.inr ⟨spec, List.mem_cons_self, rfl⟩
      · exact Or.inl hmap
    · exact Or.inr ⟨spec', List.mem_cons_of_mem _ hmem, rfl⟩

theorem forall_forwardImpl {P : Impl → Prop} {map : ImplMap} (h : ∀ e ∈ map, P e.2)
    (dll apiset sym : String) : ∀ e ∈ forwardImpl dll map apiset sym, P e.2 := by
  unfold forwardImpl
  cases hlookup : map.lookup (dll, sym) with
  | none => exact h
  | some impl =>
    intro e he
    rcases List.mem_cons.mp he with rfl | he
    · exact h ((dll, sym), impl) (Assoc.mem_of_lookup hlookup)
    · exact h e he

/-- Forwarding enters nothing that is not there. -/
theorem forall_forwardImpls {P : Impl → Prop} {map : ImplMap} (h : ∀ e ∈ map, P e.2) :
    ∀ e ∈ forwardImpls s map, P e.2 := by
  unfold forwardImpls
  refine List.foldlRecOn _ _ (motive := fun map : ImplMap => ∀ e ∈ map, P e.2) ?_ ?_
  · refine List.foldlRecOn _ _ (motive := fun map : ImplMap => ∀ e ∈ map, P e.2) h ?_
    intro map hmap apiset _
    refine List.foldlRecOn _ _ (motive := fun map : ImplMap => ∀ e ∈ map, P e.2) hmap ?_
    exact fun map hmap sym _ => forall_forwardImpl hmap _ _ _
  · exact fun map hmap apiset _ => forall_forwardImpl (forall_forwardImpl hmap _ _ _) _ _ _

theorem listed_impls {e : (String × String) × Impl} (h : e ∈ s.impls) : Listed s e.2 := by
  have hspec : ∀ spec ∈ s.importSpecs ++ s.d3d11Exports ++ s.d3d12Exports,
      Listed s spec.impl.2 := fun spec hmem => Or.inr ⟨spec, hmem, rfl⟩
  have hadd : ∀ {specs : List ImportSpec} {map : ImplMap},
      (∀ spec ∈ specs, spec ∈ s.importSpecs ++ s.d3d11Exports ++ s.d3d12Exports) →
      (∀ e ∈ map, Listed s e.2) → ∀ e ∈ addSpecs specs map, Listed s e.2 := by
    intro specs map hsub hmap e he
    rcases mem_addSpecs he with he | ⟨spec, hmem, rfl⟩
    · exact hmap e he
    · exact hspec spec (hsub spec hmem)
  have hcode := hadd (fun spec h => List.mem_append_right _ h)
    (hadd (fun spec h => List.mem_append_left _ (List.mem_append_right _ h))
      (@forall_forwardImpls s (Listed s) _
        (hadd (fun spec h => List.mem_append_left _ (List.mem_append_left _ h))
          (List.forall_mem_nil _))))
  refine List.foldlRecOn s.dataExports (fun map e => (e.1, Impl.data e.2) :: map)
    (motive := fun map : ImplMap => ∀ e ∈ map, Listed s e.2) hcode ?_ e h
  intro map hmap d _ e he
  rcases List.mem_cons.mp he with rfl | he
  · exact Or.inl ⟨d.2, rfl⟩
  · exact hmap e he

theorem known_cases {dll sym : String} (h : known s a dll sym = some p)
    (installed : Crate → Option Nat) :
    (∃ addr, p = .data addr) ∨ ∃ t ∈ trampolines s installed, p = .trampoline a t := by
  obtain ⟨impl, himpl, rfl⟩ := Option.map_eq_some_iff.mp h
  rcases listed_impls (Assoc.mem_of_lookup himpl) with ⟨addr, rfl⟩ | ⟨spec, hspec, rfl⟩
  · exact Or.inl ⟨addr, rfl⟩
  · refine Or.inr ⟨listed spec, ?_, rfl⟩
    simp only [List.mem_append] at hspec
    unfold trampolines
    rcases hspec with (h | h) | h
    · simp [List.mem_map_of_mem h]
    · simp [List.mem_map_of_mem h]
    · simp [List.mem_map_of_mem h]

theorem softStub_mem (installed : Crate → Option Nat) : softStub ∈ trampolines s installed := by
  simp [trampolines]

theorem crate_mem {installed : Crate → Option Nat} {c : Crate} (h : installed c = none)
    {t : Trampoline} (ht : t ∈ comTrampolines c) : t ∈ trampolines s installed := by
  cases c with
  | d3d11 => simp [trampolines, h, ht]
  | d3d12 => simp [trampolines, h, ht]

end

/-! ## One import -/

theorem choose_cases {π : Type} (known : String → String → Option π) (disk : Option π) (stub : π)
    (dll sym : String) : (∃ dll', known dll' sym = some (choose known disk stub dll sym)) ∨
      disk = some (choose known disk stub dll sym) ∨ choose known disk stub dll sym = stub := by
  have hgetD : ∀ o : Option π, o = some (o.getD stub) ∨ o.getD stub = stub := by
    intro o
    cases o with
    | none => exact Or.inr rfl
    | some ptr => exact Or.inl rfl
  unfold choose
  cases hown : known dll sym with
  | some ptr =>
    dsimp only
    split
    · cases disk with
      | none => exact Or.inl ⟨dll, hown⟩
      | some dptr => exact Or.inr (Or.inl rfl)
    · exact Or.inl ⟨dll, hown⟩
  | none =>
    dsimp only
    split
    · cases hucrt : known "ucrtbase.dll" sym with
      | some ptr => exact Or.inl ⟨_, hucrt⟩
      | none => exact (hgetD (known "msvcrt.dll" sym)).imp (fun h => ⟨_, h⟩) Or.inr
    · split
      · exact (hgetD (known "ntdll.dll" sym)).imp (fun h => ⟨_, h⟩) Or.inr
      · exact Or.inr (hgetD disk)

theorem findExport_lt {t : ExportTable} {size : Nat} {name : ProcName} {rva : BitVec 32}
    (h : findExport t size name = some rva) : rva.toNat < size := by
  have hrva : ∀ {rva' : BitVec 32}, exportRva t size rva' = some rva → rva.toNat < size := by
    intro rva' h
    unfold exportRva at h
    dsimp only at h
    split at h
    · cases h
    · split at h
      · cases h
        assumption
      · cases h
  cases name with
  | ordinal n =>
    obtain ⟨rva', -, h⟩ := Option.bind_eq_some_iff.mp h
    exact hrva h
  | name bytes =>
    obtain ⟨rva', -, h⟩ := Option.bind_eq_some_iff.mp h
    exact hrva h

theorem World.fromDisk_cases {host : Host} {w : World} {imp : Import} {l : Nat} {p : Ptr}
    (h : w.fromDisk host imp l = some p) :
    ∃ m rva, w.registered l = some m ∧ rva.toNat < m.size ∧ p = .image l rva := by
  unfold World.fromDisk at h
  split at h
  · cases h
  · obtain ⟨m, hm, h⟩ := Option.bind_eq_some_iff.mp h
    split at h
    · obtain ⟨bytes, -, h⟩ := Option.bind_eq_some_iff.mp h
      obtain ⟨rva, hrva, rfl⟩ := Option.map_eq_some_iff.mp h
      exact ⟨m, rva, hm, findExport_lt hrva, rfl⟩
    · cases h

theorem mem_writeIat {host : Host} {size : Nat} {imports : List Import}
    {resolved : List ((String × String) × Ptr)} {e : Nat × Ptr}
    (h : e ∈ writeIat host size imports resolved) : ∃ k, (k, e.2) ∈ resolved := by
  refine List.foldlRecOn imports _
    (motive := fun iat : List (Nat × Ptr) => ∀ e ∈ iat, ∃ k, (k, e.2) ∈ resolved)
    (List.forall_mem_nil _) ?_ e h
  intro iat hiat imp _
  cases hlookup : resolved.lookup (host.lowercase imp.dll, imp.name) with
  | none => exact hiat
  | some ptr =>
    dsimp only
    split
    · intro e he
      rcases List.mem_cons.mp he with rfl | he
      · exact ⟨_, Assoc.mem_of_lookup hlookup⟩
      · exact hiat e he
    · exact hiat

theorem lookup_writeIat (host : Host) (r : Resolving) (slot : Nat) (p : Ptr) :
    (writeIat host r.size r.imports r.resolved).lookup slot = some p ↔ r.Stores host slot p := by
  unfold Resolving.Stores
  induction r.imports using List.reverseRecOn with
  | nil => simp [writeIat]
  | append_singleton imports imp ih =>
    rw [List.reverse_append, List.reverse_singleton, List.singleton_append, List.findSome?_cons,
      writeIat, List.foldl_append, List.foldl_cons, List.foldl_nil, ← writeIat]
    cases hlookup : r.resolved.lookup (host.lowercase imp.dll, imp.name) with
    | none => simp [ih]
    | some ptr =>
      by_cases hslot : (BitVec.ofNat 32 imp.offset).toNat = slot
      · by_cases hsize : slot < r.size
        · simp [hslot, hsize]
        · simp [hslot, hsize, ih]
      · by_cases hsize : (BitVec.ofNat 32 imp.offset).toNat < r.size
        · have hne : (slot == (BitVec.ofNat 32 imp.offset).toNat) = false :=
            beq_eq_false_iff_ne.mpr fun h => hslot h.symm
          simp only [hsize, hslot, if_true, if_false, List.lookup_cons, hne, ih]
        · simp only [hsize, hslot, if_false, ih]

/-! ## What holds of every process -/

namespace World

variable (w : World)

/-- The load has been a module of the registry, if it is not one still. -/
def Served (l : Nat) : Prop :=
  l < w.next ∧ w.resolving l = none ∧ ∀ m, w.images l = some m → m.entered = true ∧ m.kind ≠ .main

/-- An address that the load `l` resolves an import to. -/
def Origin (l : Nat) : Ptr → Prop
  | .image j rva => w.Served j ∧ ∀ size, w.mapped j = some size → rva.toNat < size
  | .trampoline a t => a = l ∧ ∀ ts, w.arenas l = some ts → t ∈ ts
  | .native f => f = .trapStub
  | .data _ => True

/-- An address that a lookup has returned. The arena of a trampoline belongs to no load. -/
def Kept : Ptr → Prop
  | .image j rva => w.Served j ∧ ∀ size, w.mapped j = some size → rva.toNat < size
  | .trampoline a t => a < w.next ∧ w.resolving a = none ∧ w.images a = none ∧
      ∃ ts, w.arenas a = some ts ∧ t ∈ ts
  | .native _ => False
  | .data _ => True

/-- The image and the arena of a load are there. -/
def Loaded (s : Surface) (l size : Nat) : Prop :=
  w.mapped l = some size ∧ ∃ installed, w.arenas l = some (trampolines s installed)

/-- `w'` comes after `w`: a number is not used again, and what is released stays so. -/
structure Later (w' : World) : Prop where
  next : w.next ≤ w'.next
  served : ∀ l, w.Served l → w'.Served l
  mapped : ∀ l < w.next, ∀ size, w'.mapped l = some size → w.mapped l = some size
  arenas : ∀ a < w.next, ∀ ts, w'.arenas a = some ts → w.arenas a = some ts

/-- `w'` has the same as `w` of every load but `l`. -/
structure Off (l : Nat) (w' : World) : Prop where
  mapped : ∀ j ≠ l, w'.mapped j = w.mapped j
  arenas : ∀ j ≠ l, w'.arenas j = w.arenas j
  resolving : ∀ j ≠ l, w'.resolving j = w.resolving j
  images : ∀ j ≠ l, w'.images j = w.images j

end World

/-- Every pointer that is stored or handed out has an origin. Numbers of loads are not used twice,
    so a pointer into what is gone never becomes one into what is new. -/
structure Inv (s : Surface) (w : World) : Prop where
  fresh : ∀ l, w.next ≤ l →
    w.mapped l = none ∧ w.arenas l = none ∧ w.resolving l = none ∧ w.images l = none
  resolving : ∀ l r, w.resolving l = some r →
    w.images l = none ∧ w.Loaded s l r.size ∧ ∀ e ∈ r.resolved, w.Origin l e.2
  images : ∀ l m, w.images l = some m → w.Loaded s l m.size ∧ ∀ e ∈ m.iat, w.Origin l e.2
  found : ∀ p ∈ w.found, w.Kept p
  vtables : ∀ c a, w.vtables c = some a →
    a < w.next ∧ ∀ ts, w.arenas a = some ts → ∀ t ∈ comTrampolines c, t ∈ ts
  objects : ∀ v ∈ w.objects, v = blobVtable ∨
    ∃ (i : Interface) (a : Nat), w.vtables i.crate = some a ∧ v = i.vtable a

section

variable {s : Surface} {w w' : World} {l : Nat} {p : Ptr}

theorem inv_init : Inv s {} where
  fresh _ _ := ⟨rfl, rfl, rfl, rfl⟩
  resolving _ _ h := nomatch h
  images _ _ h := nomatch h
  found _ h := nomatch h
  vtables _ _ h := nomatch h
  objects _ h := nomatch h

theorem World.Origin.later (h : w.Later w') (hl : l < w.next) (hp : w.Origin l p) :
    w'.Origin l p := by
  cases p with
  | image j rva =>
    exact ⟨h.served j hp.1, fun size hsize => hp.2 size (h.mapped j hp.1.1 size hsize)⟩
  | trampoline a t => exact ⟨hp.1, fun ts hts => hp.2 ts (h.arenas l hl ts hts)⟩
  | native f => exact hp
  | data addr => trivial

theorem World.Kept.later (h : w.Later w') (hp : w.Kept p)
    (ha : ∀ a t, p = .trampoline a t → w'.resolving a = none ∧ w'.images a = none ∧
      w'.arenas a = w.arenas a) : w'.Kept p := by
  cases p with
  | image j rva =>
    exact ⟨h.served j hp.1, fun size hsize => hp.2 size (h.mapped j hp.1.1 size hsize)⟩
  | trampoline a t =>
    obtain ⟨hresolving, himages, harenas⟩ := ha a t rfl
    exact ⟨Nat.lt_of_lt_of_le hp.1 h.next, hresolving, himages, harenas ▸ hp.2.2.2⟩
  | native f => exact hp
  | data addr => trivial

theorem update_none_eq_some {α : Type} {f : Nat → Option α} {a : α} {j : Nat} :
    Function.update f l none j = some a ↔ j ≠ l ∧ f j = some a := by
  by_cases hj : j = l
  · subst hj
    simp
  · simp [hj]

theorem World.Off.later (hoff : w.Off l w') (hnext : w.next ≤ w'.next)
    (hserved : w.Served l → w'.Served l)
    (hmapped : l < w.next → ∀ size, w'.mapped l = some size → w.mapped l = some size)
    (harenas : l < w.next → ∀ ts, w'.arenas l = some ts → w.arenas l = some ts) : w.Later w' where
  next := hnext
  served j hj := by
    by_cases hne : j = l
    · subst hne
      exact hserved hj
    · refine ⟨Nat.lt_of_lt_of_le hj.1 hnext, (hoff.resolving j hne).trans hj.2.1, fun m hm => ?_⟩
      exact hj.2.2 m ((hoff.images j hne).symm.trans hm)
  mapped j hj size hsize := by
    by_cases hne : j = l
    · subst hne
      exact hmapped hj size hsize
    · exact (hoff.mapped j hne).symm.trans hsize
  arenas j hj ts hts := by
    by_cases hne : j = l
    · subst hne
      exact harenas hj ts hts
    · exact (hoff.arenas j hne).symm.trans hts

theorem World.off_tabled (s : Surface) (w : World) (o : Option (List Trampoline)) :
    w.Off w.next { w.build s with arenas := Function.update w.arenas w.next o } :=
  ⟨fun _ _ => rfl, fun _ hj => Function.update_of_ne hj _ _, fun _ _ => rfl, fun _ _ => rfl⟩

theorem World.off_load (s : Surface) (w : World) (r : Resolving) : w.Off w.next { w.build s with
    mapped := Function.update w.mapped w.next (some r.size)
    resolving := Function.update w.resolving w.next (some r) } :=
  ⟨fun _ hj => Function.update_of_ne hj _ _, fun _ hj => Function.update_of_ne hj _ _,
    fun _ hj => Function.update_of_ne hj _ _, fun _ _ => rfl⟩

namespace Inv

variable (h : Inv s w)
include h

theorem lt_of_resolving {r : Resolving} (hr : w.resolving l = some r) : l < w.next := by
  by_contra hle
  rw [(h.fresh l (Nat.le_of_not_lt hle)).2.2.1] at hr
  cases hr

variable {m : Image}

theorem lt_of_images (hm : w.images l = some m) : l < w.next := by
  by_contra hle
  rw [(h.fresh l (Nat.le_of_not_lt hle)).2.2.2] at hm
  cases hm

theorem resolving_of_images (hm : w.images l = some m) : w.resolving l = none := by
  cases hr : w.resolving l with
  | none => rfl
  | some r =>
    rw [(h.resolving l r hr).1] at hm
    cases hm

theorem served_of_registered (hm : w.registered l = some m) : w.images l = some m ∧ w.Served l := by
  obtain ⟨himage, hcond⟩ := Option.filter_eq_some_iff.mp hm
  obtain ⟨hentered, hkind⟩ := (Bool.and_eq_true _ _).mp hcond
  refine ⟨himage, h.lt_of_images himage, h.resolving_of_images himage, fun m' hm' => ?_⟩
  cases himage.symm.trans hm'
  exact ⟨hentered, of_decide_eq_true hkind⟩

/-! ### Tables -/

theorem vtables_build (c : Crate) (a : Nat) (ha : (w.vtables c).or (some w.next) = some a) :
    a < w.next + 1 ∧
      ∀ ts, Function.update w.arenas w.next (some (trampolines s w.vtables)) a = some ts →
        ∀ t ∈ comTrampolines c, t ∈ ts := by
  cases hc : w.vtables c with
  | none =>
    rw [hc] at ha
    cases ha
    refine ⟨Nat.lt_succ_self _, fun ts hts t ht => ?_⟩
    rw [Function.update_self] at hts
    cases hts
    exact crate_mem hc ht
  | some a' =>
    rw [hc] at ha
    cases ha
    obtain ⟨hlt, hmade⟩ := h.vtables c a hc
    refine ⟨Nat.lt_succ_of_lt hlt, fun ts hts => hmade ts ?_⟩
    rwa [Function.update_of_ne (Nat.ne_of_lt hlt)] at hts

theorem objects_build (v : List Ptr) (hv : v ∈ w.objects) :
    v = blobVtable ∨ ∃ (i : Interface) (a : Nat),
      (w.vtables i.crate).or (some w.next) = some a ∧ v = i.vtable a := by
  refine (h.objects v hv).imp_right ?_
  rintro ⟨i, a, ha, rfl⟩
  exact ⟨i, a, by rw [ha, Option.some_or], rfl⟩

theorem frame (hlater : w.Later w') (hoff : w.Off l w') (hlt : l < w'.next)
    (howned : w.next ≤ l ∨ w.resolving l ≠ none ∨ w.images l ≠ none)
    (hresolving : ∀ r, w'.resolving l = some r →
      w'.images l = none ∧ w'.Loaded s l r.size ∧ ∀ e ∈ r.resolved, w'.Origin l e.2)
    (himages : ∀ m, w'.images l = some m → w'.Loaded s l m.size ∧ ∀ e ∈ m.iat, w'.Origin l e.2)
    (hfound : w'.found = w.found)
    (hvtables : ∀ c a, w'.vtables c = some a →
      a < w'.next ∧ ∀ ts, w'.arenas a = some ts → ∀ t ∈ comTrampolines c, t ∈ ts)
    (hobjects : ∀ v ∈ w'.objects, v = blobVtable ∨
      ∃ (i : Interface) (a : Nat), w'.vtables i.crate = some a ∧ v = i.vtable a) : Inv s w' := by
  have hloaded : ∀ {j size}, j ≠ l → w.Loaded s j size → w'.Loaded s j size := by
    rintro j size hj ⟨hmapped, installed, harenas⟩
    exact ⟨(hoff.mapped j hj).trans hmapped, installed, (hoff.arenas j hj).trans harenas⟩
  constructor
  · intro j hj
    have hne : j ≠ l := Nat.ne_of_gt (Nat.lt_of_lt_of_le hlt hj)
    obtain ⟨h₁, h₂, h₃, h₄⟩ := h.fresh j (Nat.le_trans hlater.next hj)
    exact ⟨(hoff.mapped j hne).trans h₁, (hoff.arenas j hne).trans h₂,
      (hoff.resolving j hne).trans h₃, (hoff.images j hne).trans h₄⟩
  · intro j r hr
    by_cases hj : j = l
    · subst hj
      exact hresolving r hr
    · have hold := (hoff.resolving j hj).symm.trans hr
      obtain ⟨hnone, hthere, horigin⟩ := h.resolving j r hold
      exact ⟨(hoff.images j hj).trans hnone, hloaded hj hthere,
        fun e he => (horigin e he).later hlater (h.lt_of_resolving hold)⟩
  · intro j m hm
    by_cases hj : j = l
    · subst hj
      exact himages m hm
    · have hold := (hoff.images j hj).symm.trans hm
      obtain ⟨hthere, horigin⟩ := h.images j m hold
      exact ⟨hloaded hj hthere, fun e he => (horigin e he).later hlater (h.lt_of_images hold)⟩
  · rw [hfound]
    intro p hp
    have hkept := h.found p hp
    refine hkept.later hlater ?_
    rintro a t rfl
    have hne : a ≠ l := by
      rintro rfl
      rcases howned with hfresh | hresolving | himages
      · exact Nat.not_lt.mpr hfresh hkept.1
      · exact hresolving hkept.2.1
      · exact himages hkept.2.2.1
    exact ⟨(hoff.resolving a hne).trans hkept.2.1, (hoff.images a hne).trans hkept.2.2.1,
      hoff.arenas a hne⟩
  · exact hvtables
  · exact hobjects

theorem tabled {o : Option (List Trampoline)}
    (ho : ∀ ts, o = some ts → ts = trampolines s w.vtables) :
    Inv s { w.build s with arenas := Function.update w.arenas w.next o } := by
  have hoff := World.off_tabled s w o
  obtain ⟨-, -, hresolving, himages⟩ := h.fresh w.next (Nat.le_refl _)
  refine h.frame (hoff.later (Nat.le_succ _) (fun hl => absurd hl.1 (Nat.lt_irrefl _))
    (fun hl => absurd hl (Nat.lt_irrefl _)) (fun hl => absurd hl (Nat.lt_irrefl _))) hoff
    (Nat.lt_succ_self _) (Or.inl (Nat.le_refl _)) ?_ ?_ rfl ?_ h.objects_build
  · intro r hr
    cases hresolving.symm.trans hr
  · intro m hm
    cases himages.symm.trans hm
  · intro c a ha
    obtain ⟨hlt, hmade⟩ := h.vtables_build c a ha
    refine ⟨hlt, fun ts hts => hmade ts ?_⟩
    by_cases hnext : a = w.next
    · subst hnext
      have hself : Function.update w.arenas w.next o w.next = some ts := hts
      rw [Function.update_self] at hself ⊢
      rw [ho ts hself]
    · rw [Function.update_of_ne hnext]
      exact (hoff.arenas a hnext).symm.trans hts

theorem load (r : Resolving) (hr : r.resolved = []) : Inv s { w.build s with
    mapped := Function.update w.mapped w.next (some r.size)
    resolving := Function.update w.resolving w.next (some r) } := by
  have hoff := World.off_load s w r
  have himages := (h.fresh w.next (Nat.le_refl _)).2.2.2
  refine h.frame (hoff.later (Nat.le_succ _) (fun hl => absurd hl.1 (Nat.lt_irrefl _))
    (fun hl => absurd hl (Nat.lt_irrefl _)) (fun hl => absurd hl (Nat.lt_irrefl _))) hoff
    (Nat.lt_succ_self _) (Or.inl (Nat.le_refl _)) ?_ ?_ rfl h.vtables_build h.objects_build
  · intro r' hr'
    have hself : Function.update w.resolving w.next (some r) w.next = some r' := hr'
    rw [Function.update_self] at hself
    cases hself
    refine ⟨himages, ⟨Function.update_self _ _ _, w.vtables, Function.update_self _ _ _⟩, ?_⟩
    rw [hr]
    exact List.forall_mem_nil _
  · intro m hm
    cases himages.symm.trans hm

theorem dropLoad (hm : w.images l = some m) (mapped : Nat → Option Nat)
    (hmapped : ∀ j ≠ l, mapped j = w.mapped j)
    (hsize : ∀ size, mapped l = some size → w.mapped l = some size) :
    Inv s { w.dropLoad l with mapped := mapped } := by
  have hoff : w.Off l { w.dropLoad l with mapped := mapped } :=
    ⟨hmapped, fun _ hj => Function.update_of_ne hj _ _, fun _ _ => rfl,
      fun _ hj => Function.update_of_ne hj _ _⟩
  have hresolving := h.resolving_of_images hm
  refine h.frame (hoff.later (Nat.le_refl _) ?_ (fun _ => hsize)
    (fun _ _ hts => (update_none_eq_some.mp hts).2)) hoff (h.lt_of_images hm)
    (Or.inr (Or.inr (by rw [hm]; exact Option.some_ne_none m))) ?_ ?_ rfl ?_ h.objects
  · exact fun hl => ⟨hl.1, hl.2.1, fun m' hm' => hl.2.2 m' (update_none_eq_some.mp hm').2⟩
  · intro r hr
    cases hresolving.symm.trans hr
  · intro m' hm'
    exact absurd rfl (update_none_eq_some.mp hm').1
  · intro c a ha
    obtain ⟨hlt, hmade⟩ := h.vtables c a ha
    exact ⟨hlt, fun ts hts => hmade ts (update_none_eq_some.mp hts).2⟩

omit h in
theorem origin_choose {host : Host} {r : Resolving} (h : Inv host.surface w)
    (hr : w.resolving l = some r) (disk : Option Nat) (imp : Import) (dll sym : String) :
    w.Origin l (choose (known host.surface l) (disk.bind (w.fromDisk host imp)) (stub host l)
      dll sym) := by
  obtain ⟨-, ⟨-, installed, harenas⟩, -⟩ := h.resolving l r hr
  have hmade : ∀ {t : Trampoline}, t ∈ trampolines host.surface installed →
      w.Origin l (.trampoline l t) := by
    refine fun ht => ⟨rfl, fun ts hts => ?_⟩
    cases harenas.symm.trans hts
    exact ht
  rcases choose_cases (known host.surface l) (disk.bind (w.fromDisk host imp)) (stub host l) dll sym
    with ⟨dll', hknown⟩ | hdisk | hstub
  · rcases known_cases hknown installed with ⟨addr, hdata⟩ | ⟨t, ht, htrampoline⟩
    · rw [hdata]
      trivial
    · rw [htrampoline]
      exact hmade ht
  · obtain ⟨j, -, hj⟩ := Option.bind_eq_some_iff.mp hdisk
    obtain ⟨m, rva, hm, hrva, himage⟩ := World.fromDisk_cases hj
    obtain ⟨hlive, hserved⟩ := h.served_of_registered hm
    rw [himage]
    refine ⟨hserved, fun size hsize => ?_⟩
    cases ((h.images j m hlive).1.1).symm.trans hsize
    exact hrva
  · rw [hstub]
    unfold stub
    split
    · exact hmade (softStub_mem installed)
    · rfl

theorem setResolving {r r' : Resolving} (hr : w.resolving l = some r) (hsize : r'.size = r.size)
    (horigin : ∀ e ∈ r'.resolved, w.Origin l e.2) :
    Inv s { w with resolving := Function.update w.resolving l (some r') } := by
  have hlt := h.lt_of_resolving hr
  obtain ⟨himages, hloaded, -⟩ := h.resolving l r hr
  have hoff : w.Off l { w with resolving := Function.update w.resolving l (some r') } :=
    ⟨fun _ _ => rfl, fun _ _ => rfl, fun _ hj => Function.update_of_ne hj _ _, fun _ _ => rfl⟩
  have hlater := hoff.later (Nat.le_refl _) (fun hl => nomatch hl.2.1.symm.trans hr)
    (fun _ _ hsize => hsize) (fun _ _ hts => hts)
  refine h.frame hlater hoff hlt (Or.inr (Or.inl (by rw [hr]; exact Option.some_ne_none r)))
    ?_ ?_ rfl h.vtables h.objects
  · intro r₁ hr₁
    have hself : Function.update w.resolving l (some r') l = some r₁ := hr₁
    rw [Function.update_self] at hself
    cases hself
    exact ⟨himages, hsize ▸ hloaded, fun e he => (horigin e he).later hlater hlt⟩
  · intro m hm
    cases himages.symm.trans hm

theorem setLive {r : Resolving} (hr : w.resolving l = some r) (hsize : m.size = r.size)
    (hiat : ∀ e ∈ m.iat, w.Origin l e.2) :
    Inv s { w with
      resolving := Function.update w.resolving l none
      images := Function.update w.images l (some m) } := by
  have hlt := h.lt_of_resolving hr
  obtain ⟨-, hloaded, -⟩ := h.resolving l r hr
  have hoff : w.Off l { w with
      resolving := Function.update w.resolving l none
      images := Function.update w.images l (some m) } :=
    ⟨fun _ _ => rfl, fun _ _ => rfl, fun _ hj => Function.update_of_ne hj _ _,
      fun _ hj => Function.update_of_ne hj _ _⟩
  have hlater := hoff.later (Nat.le_refl _) (fun hl => nomatch hl.2.1.symm.trans hr)
    (fun _ _ hsize => hsize) (fun _ _ hts => hts)
  refine h.frame hlater hoff hlt (Or.inr (Or.inl (by rw [hr]; exact Option.some_ne_none r)))
    ?_ ?_ rfl h.vtables h.objects
  · intro r₁ hr₁
    exact absurd rfl (update_none_eq_some.mp hr₁).1
  · intro m₁ hm₁
    have hself : Function.update w.images l (some m) l = some m₁ := hm₁
    rw [Function.update_self] at hself
    cases hself
    exact ⟨hsize ▸ hloaded, fun e he => (hiat e he).later hlater hlt⟩

theorem enter (hm : w.attaching l = some m) :
    Inv s { w with images := Function.update w.images l (some { m with entered := true }) } := by
  obtain ⟨himage, hopen⟩ := Option.filter_eq_some_iff.mp hm
  have hlt := h.lt_of_images himage
  obtain ⟨hloaded, hiat⟩ := h.images l m himage
  have hoff : w.Off l
      { w with images := Function.update w.images l (some { m with entered := true }) } :=
    ⟨fun _ _ => rfl, fun _ _ => rfl, fun _ _ => rfl, fun _ hj => Function.update_of_ne hj _ _⟩
  have hlater := hoff.later (Nat.le_refl _) ?_ (fun _ _ hsize => hsize) (fun _ _ hts => hts)
  · refine h.frame hlater hoff hlt
      (Or.inr (Or.inr (by rw [himage]; exact Option.some_ne_none m))) ?_ ?_ rfl h.vtables h.objects
    · intro r hr
      cases (h.resolving_of_images himage).symm.trans hr
    · intro m₁ hm₁
      have hself : Function.update w.images l (some { m with entered := true }) l = some m₁ := hm₁
      rw [Function.update_self] at hself
      cases hself
      exact ⟨hloaded, fun e he => (hiat e he).later hlater hlt⟩
  · intro hl
    have hentered := (hl.2.2 m himage).1
    simp [hentered] at hopen

theorem handOut {found : List Ptr} {objects : List (List Ptr)} (hfound : ∀ p ∈ found, w.Kept p)
    (hobjects : ∀ v ∈ objects, v = blobVtable ∨
      ∃ (i : Interface) (a : Nat), w.vtables i.crate = some a ∧ v = i.vtable a) :
    Inv s { w with found := found, objects := objects } where
  fresh := h.fresh
  resolving := h.resolving
  images := h.images
  found := hfound
  vtables := h.vtables
  objects := hobjects

end Inv

end

/-! ## What an event makes of them -/

section

variable {host : Host} {arity : Word → Nat} {w w' : World} {l : Nat} {p : Ptr}

theorem sound_init : World.Sound {} arity := by
  rintro p (⟨l, m, slot, hm, -⟩ | hp | ⟨v, hv, -⟩)
  · cases hm
  · cases hp
  · cases hv

theorem World.Sound.iff_new {new : Ptr → Prop} (hs : w.Sound arity)
    (hobtains : ∀ p, w'.Obtains p ↔ w.Obtains p ∨ new p)
    (hkeep : ∀ p, w.Obtains p → w.Callable arity p → w'.Callable arity p) :
    w'.Sound arity ↔ ∀ p, new p → w'.Callable arity p := by
  constructor
  · exact fun h p hp => h p ((hobtains p).mpr (Or.inr hp))
  · intro h p hp
    rcases (hobtains p).mp hp with hold | hnew
    · exact hkeep p hold (hs p hold)
    · exact h p hnew

theorem World.Callable.off (hoff : w.Off l w') (hl : w.mapped l = none ∧ w.arenas l = none)
    (h : w.Callable arity p) : w'.Callable arity p := by
  cases p with
  | image j rva =>
    obtain ⟨size, hsize, hrva⟩ := h
    have hne : j ≠ l := by
      rintro rfl
      cases hl.1.symm.trans hsize
    exact ⟨size, (hoff.mapped j hne).trans hsize, hrva⟩
  | trampoline a t =>
    obtain ⟨ts, hts, ht⟩ := h
    have hne : a ≠ l := by
      rintro rfl
      cases hl.2.symm.trans hts
    exact ⟨ts, (hoff.arenas a hne).trans hts, ht⟩
  | native f => exact h
  | data addr => trivial

/-! ### IAT slots -/

theorem callable_iff_mayBind {s : Surface} {size : Nat} (hloaded : w.Loaded s l size)
    (hp : w.Origin l p) : w.Callable arity p ↔ w.MayBind arity p := by
  obtain ⟨-, installed, harenas⟩ := hloaded
  cases p with
  | image j rva =>
    constructor
    · rintro ⟨size, hsize, -⟩
      show w.mapped j ≠ none
      rw [hsize]
      exact Option.some_ne_none size
    · intro hmapped
      obtain ⟨size, hsize⟩ := Option.ne_none_iff_exists'.mp hmapped
      exact ⟨size, hsize, hp.2 size hsize⟩
  | trampoline a t =>
    obtain ⟨rfl, hmade⟩ := hp
    constructor
    · exact fun ⟨_, _, _, hexact⟩ => hexact
    · exact fun hexact => ⟨_, harenas, hmade _ harenas, hexact⟩
  | native f => exact iff_of_true hp trivial
  | data addr => exact Iff.rfl

theorem sound_writeIat {s : Surface} {r : Resolving} {m : Image} (h : Inv s w)
    (hs : w.Sound arity) (hr : w.resolving l = some r) (hiat : ∀ e ∈ m.iat, w.Origin l e.2) :
    World.Sound { w with
        resolving := Function.update w.resolving l none
        images := Function.update w.images l (some m) } arity ↔
      ∀ slot p, m.iat.lookup slot = some p → w.MayBind arity p := by
  obtain ⟨hnone, hloaded, -⟩ := h.resolving l r hr
  rw [@World.Sound.iff_new arity w _ (fun p => ∃ slot, m.iat.lookup slot = some p) hs]
  · constructor
    · intro hnew slot p hp
      exact (callable_iff_mayBind hloaded (hiat _ (Assoc.mem_of_lookup hp))).mp (hnew p ⟨slot, hp⟩)
    · rintro hnew p ⟨slot, hp⟩
      exact (callable_iff_mayBind hloaded (hiat _ (Assoc.mem_of_lookup hp))).mpr (hnew slot p hp)
  · intro p
    constructor
    · rintro (⟨j, mj, slot, hmj, hp⟩ | hrest)
      · by_cases hj : j = l
        · subst hj
          have hself : Function.update w.images j (some m) j = some mj := hmj
          rw [Function.update_self] at hself
          cases hself
          exact Or.inr ⟨slot, hp⟩
        · exact Or.inl (Or.inl ⟨j, mj, slot, (Function.update_of_ne hj _ _).symm.trans hmj, hp⟩)
      · exact Or.inl (Or.inr hrest)
    · rintro ((⟨j, mj, slot, hmj, hp⟩ | hrest) | ⟨slot, hp⟩)
      · have hj : j ≠ l := by
          rintro rfl
          cases hnone.symm.trans hmj
        exact Or.inl ⟨j, mj, slot, (Function.update_of_ne hj _ _).trans hmj, hp⟩
      · exact Or.inr hrest
      · exact Or.inl ⟨l, m, slot, Function.update_self _ _ _, hp⟩
  · exact fun _ _ hp => hp

theorem sound_enter {m : Image} (hs : w.Sound arity) (hm : w.images l = some m) :
    World.Sound { w with images := Function.update w.images l (some { m with entered := true }) }
      arity := by
  rintro p (⟨j, mj, slot, hmj, hp⟩ | hrest)
  · refine hs p (Or.inl ?_)
    by_cases hj : j = l
    · subst hj
      have hself : Function.update w.images j (some { m with entered := true }) j = some mj := hmj
      rw [Function.update_self] at hself
      cases hself
      exact ⟨j, m, slot, hm, hp⟩
    · exact ⟨j, mj, slot, (Function.update_of_ne hj _ _).symm.trans hmj, hp⟩
  · exact hs p (Or.inr hrest)

/-! ### What is released -/

theorem obtains_of_dropLoad (hp : (w.dropLoad l).Obtains p) : w.Obtains p := by
  rcases hp with ⟨j, m, slot, hm, hp⟩ | hrest
  · exact Or.inl ⟨j, m, slot, (update_none_eq_some.mp hm).2, hp⟩
  · exact Or.inr hrest

theorem sound_dropLoad {s : Surface} {m : Image} (h : Inv s w) (hs : w.Sound arity)
    (hm : w.images l = some m) : (w.dropLoad l).Sound arity ↔ w.Idle l := by
  constructor
  · intro hsound v hv t ht
    obtain ⟨ts, hts, -⟩ := hsound (.trampoline l t) (Or.inr (Or.inr ⟨v, hv, ht⟩))
    exact (update_none_eq_some.mp hts).1 rfl
  · intro hidle p hp
    have hcallable := hs p (obtains_of_dropLoad hp)
    cases p with
    | image j rva => exact hcallable
    | native f => exact hcallable
    | data addr => trivial
    | trampoline a t =>
      obtain ⟨ts, hts, hmem, hexact⟩ := hcallable
      refine ⟨ts, update_none_eq_some.mpr ⟨?_, hts⟩, hmem, hexact⟩
      rcases hp with ⟨j, mj, slot, hmj, hp⟩ | hp | ⟨v, hv, hp⟩
      · obtain ⟨hj, hold⟩ := update_none_eq_some.mp hmj
        obtain ⟨rfl, -⟩ := (h.images j mj hold).2 _ (Assoc.mem_of_lookup hp)
        exact hj
      · rintro rfl
        cases (h.found _ hp).2.2.1.symm.trans hm
      · rintro rfl
        exact hidle v hv t hp

theorem sound_unmap : (w.unmap l).Sound arity ↔
    w.Sound arity ∧ ∀ rva, ¬ w.Obtains (.image l rva) := by
  constructor
  · intro hsound
    constructor
    · intro p hp
      have hcallable := hsound p hp
      cases p with
      | image j rva =>
        obtain ⟨size, hsize, hrva⟩ := hcallable
        exact ⟨size, (update_none_eq_some.mp hsize).2, hrva⟩
      | trampoline a t => exact hcallable
      | native f => exact hcallable
      | data addr => trivial
    · intro rva hp
      obtain ⟨size, hsize, -⟩ := hsound (.image l rva) hp
      exact (update_none_eq_some.mp hsize).1 rfl
  · rintro ⟨hsound, hnone⟩ p hp
    have hcallable := hsound p hp
    cases p with
    | image j rva =>
      obtain ⟨size, hsize, hrva⟩ := hcallable
      refine ⟨size, update_none_eq_some.mpr ⟨?_, hsize⟩, hrva⟩
      rintro rfl
      exact hnone rva hp
    | trampoline a t => exact hcallable
    | native f => exact hcallable
    | data addr => trivial

theorem image_not_mem_object {s : Surface} (h : Inv s w) {v : List Ptr} (hv : v ∈ w.objects)
    (rva : BitVec 32) : Ptr.image l rva ∉ v := by
  rcases h.objects v hv with rfl | ⟨i, a, -, rfl⟩
  · simp [blobVtable]
  · simp [Interface.vtable]

theorem unreferenced_iff {s : Surface} (h : Inv s w) :
    (∀ rva, ¬ (w.dropLoad l).Obtains (.image l rva)) ↔ w.Unreferenced l := by
  constructor
  · intro hnone
    constructor
    · intro j m hj hm slot rva hp
      exact hnone rva (Or.inl ⟨j, m, slot, update_none_eq_some.mpr ⟨hj, hm⟩, hp⟩)
    · exact fun rva hp => hnone rva (Or.inr (Or.inl hp))
  · rintro ⟨hslot, hfound⟩ rva (⟨j, m, slot, hm, hp⟩ | hp | ⟨v, hv, hp⟩)
    · obtain ⟨hj, hold⟩ := update_none_eq_some.mp hm
      exact hslot j m hj hold slot rva hp
    · exact hfound rva hp
    · exact image_not_mem_object h hv rva hp

theorem unreferenced_of_attaching {s : Surface} {m : Image} (h : Inv s w)
    (hm : w.attaching l = some m) : w.Unreferenced l := by
  obtain ⟨himage, hopen⟩ := Option.filter_eq_some_iff.mp hm
  have hnot : ¬ w.Served l := by
    intro hserved
    simp [(hserved.2.2 m himage).1] at hopen
  constructor
  · intro j mj _ hmj slot rva hp
    exact hnot ((h.images j mj hmj).2 _ (Assoc.mem_of_lookup hp)).1
  · exact fun rva hp => hnot (h.found _ hp).1

theorem sound_release {s : Surface} {m : Image} (h : Inv s w) (hs : w.Sound arity)
    (hm : w.images l = some m) :
    ((w.dropLoad l).unmap l).Sound arity ↔ w.Idle l ∧ w.Unreferenced l := by
  rw [sound_unmap, sound_dropLoad h hs hm, unreferenced_iff h]

/-! ### Tables and vtables -/

theorem interface_mem (i : Interface) : i ∈ interfaces i.crate := by
  cases i <;> decide

theorem methods_exact (i : Interface) : ∀ m ∈ iUnknown ++ i.methods, m.nArgs = m.params := by
  cases i <;> decide

theorem mem_vtable {i : Interface} {a : Nat} (hp : p ∈ i.vtable a) :
    ∃ t ∈ comTrampolines i.crate, p = .trampoline a t ∧ t.Exact arity := by
  obtain ⟨m, hm, rfl⟩ := List.mem_map.mp hp
  refine ⟨comTrampoline i.crate m, List.mem_map_of_mem ?_, rfl, methods_exact i m hm⟩
  rcases List.mem_append.mp hm with hm | hm
  · exact List.mem_append_left _ hm
  · exact List.mem_append_right _ (List.mem_flatMap.mpr ⟨i, interface_mem i, hm⟩)

theorem sound_create {s : Surface} {i : Interface} {a : Nat} (h : Inv s w) (hs : w.Sound arity)
    (ha : w.vtables i.crate = some a) :
    World.Sound { w with objects := i.vtable a :: w.objects } arity ↔ w.arenas a ≠ none := by
  constructor
  · intro hsound
    obtain ⟨ts, hts, -⟩ := hsound (.trampoline a (comTrampoline i.crate ⟨"com_add_ref", 1, 1⟩))
      (Or.inr (Or.inr ⟨_, List.mem_cons_self, List.mem_cons_of_mem _ List.mem_cons_self⟩))
    have hthere : w.arenas a = some ts := hts
    rw [hthere]
    exact Option.some_ne_none ts
  · rintro hthere p (hslot | hp | ⟨v, hv, hp⟩)
    · exact hs p (Or.inl hslot)
    · exact hs p (Or.inr (Or.inl hp))
    · rcases List.mem_cons.mp hv with rfl | hv
      · obtain ⟨ts, hts⟩ := Option.ne_none_iff_exists'.mp hthere
        obtain ⟨t, ht, rfl, hexact⟩ := @mem_vtable arity p i a hp
        exact ⟨ts, hts, (h.vtables _ a ha).2 ts hts t ht, hexact⟩
      · exact hs p (Or.inr (Or.inr ⟨v, hv, hp⟩))

theorem not_sound_compile :
    ¬ World.Sound { w with objects := blobVtable :: w.objects } arity := by
  intro hsound
  cases hsound (.native (.blob "blob_release" 1))
    (Or.inr (Or.inr ⟨blobVtable, List.mem_cons_self, by simp [blobVtable]⟩))

theorem sound_found {s : Surface} {dll sym : String} {ptr : Ptr} (h : Inv s w)
    (hs : w.Sound arity) (hknown : known s w.next dll sym = some ptr) :
    World.Sound { w.build s with found := ptr :: w.found } arity ↔
      ∀ target nArgs noreturn, s.impls.lookup (dll, sym) = some (.code target nArgs noreturn) →
        nArgs = arity target := by
  obtain ⟨hmapped, harenas, -⟩ := h.fresh w.next (Nat.le_refl _)
  have hoff : w.Off w.next { w.build s with found := ptr :: w.found } :=
    ⟨fun _ _ => rfl, fun _ hj => Function.update_of_ne hj _ _, fun _ _ => rfl, fun _ _ => rfl⟩
  rw [@World.Sound.iff_new arity w _ (· = ptr) hs]
  · have hmade := known_cases hknown w.vtables
    obtain ⟨impl, himpl, rfl⟩ := Option.map_eq_some_iff.mp hknown
    cases impl with
    | data addr =>
      refine iff_of_true ?_ fun target nArgs noreturn hcode => ?_
      · rintro p rfl
        trivial
      · cases himpl.symm.trans hcode
    | code target nArgs noreturn =>
      obtain ⟨addr, hdata⟩ | ⟨t, ht, heq⟩ := hmade
      · cases hdata
      · cases heq
        constructor
        · intro hnew target' nArgs' noreturn' hcode
          cases himpl.symm.trans hcode
          obtain ⟨_, _, _, hexact⟩ := hnew _ rfl
          exact hexact
        · rintro hexact p rfl
          exact ⟨_, Function.update_self _ _ _, ht, hexact _ _ _ himpl⟩
  · intro p
    constructor
    · rintro (hslot | hp | hv)
      · exact Or.inl (Or.inl hslot)
      · rcases List.mem_cons.mp hp with rfl | hp
        · exact Or.inr rfl
        · exact Or.inl (Or.inr (Or.inl hp))
      · exact Or.inl (Or.inr (Or.inr hv))
    · rintro ((hslot | hp | hv) | rfl)
      · exact Or.inl hslot
      · exact Or.inr (Or.inl (List.mem_cons_of_mem _ hp))
      · exact Or.inr (Or.inr hv)
      · exact Or.inr (Or.inl List.mem_cons_self)
  · exact fun p _ hp => hp.off hoff ⟨hmapped, harenas⟩

theorem sound_lookup {m : Image} {rva : BitVec 32} (hs : w.Sound arity)
    (hm : w.mapped l = some m.size) (hrva : rva.toNat < m.size) :
    World.Sound { w with found := .image l rva :: w.found } arity := by
  rintro p (hslot | hp | hv)
  · exact hs p (Or.inl hslot)
  · rcases List.mem_cons.mp hp with rfl | hp
    · exact ⟨m.size, hm, hrva⟩
    · exact hs p (Or.inr (Or.inl hp))
  · exact hs p (Or.inr (Or.inr hv))

/-! ## Runs -/

theorem Inv.next_resolve {disk : Option Nat} (h : Inv host.surface w) (hs : w.Sound arity)
    (hn : (Event.resolve l disk).next host w = some w') :
    Inv host.surface w' ∧ (w'.Sound arity ↔ (Event.resolve l disk).Keeps host arity w) := by
  simp only [Event.next] at hn
  cases hr : w.resolving l with
  | none =>
    rw [hr] at hn
    cases hn
  | some r =>
    rw [hr] at hn
    dsimp only at hn
    cases hrest : r.rest with
    | nil =>
      rw [hrest] at hn
      cases hn
    | cons imp rest =>
      rw [hrest] at hn
      cases hn
      refine ⟨h.setResolving hr rfl ?_, iff_of_true hs trivial⟩
      intro e he
      rcases List.mem_cons.mp he with rfl | he
      · exact Inv.origin_choose h hr disk imp _ _
      · exact (h.resolving l r hr).2.2 e he

theorem Inv.next_writeIat {exports : ExportTable} (h : Inv host.surface w) (hs : w.Sound arity)
    (hn : (Event.writeIat l exports).next host w = some w') :
    Inv host.surface w' ∧ (w'.Sound arity ↔ (Event.writeIat l exports).Keeps host arity w) := by
  simp only [Event.next] at hn
  cases hr : w.resolving l with
  | none =>
    rw [hr] at hn
    cases hn
  | some r =>
    rw [hr] at hn
    dsimp only at hn
    split at hn
    · cases hn
      have hiat : ∀ e ∈ writeIat host r.size r.imports r.resolved, w.Origin l e.2 := by
        intro e he
        obtain ⟨k, hk⟩ := mem_writeIat he
        exact (h.resolving l r hr).2.2 _ hk
      refine ⟨h.setLive hr rfl hiat, (sound_writeIat h hs hr hiat).trans ?_⟩
      simp only [lookup_writeIat]
      constructor
      · intro hbind r' hr'
        cases hr.symm.trans hr'
        exact hbind
      · exact fun hkeeps => hkeeps r hr
    · cases hn

theorem Inv.next_freeLibrary (h : Inv host.surface w) (hs : w.Sound arity)
    (hn : (Event.freeLibrary l).next host w = some w') :
    Inv host.surface w' ∧ (w'.Sound arity ↔ (Event.freeLibrary l).Keeps host arity w) := by
  simp only [Event.next] at hn
  cases hm : w.registered l with
  | none =>
    rw [hm] at hn
    cases hn
    exact ⟨h, iff_of_true hs fun hne => absurd hm hne⟩
  | some m =>
    rw [hm] at hn
    cases hn
    have himage := (h.served_of_registered hm).1
    refine ⟨h.dropLoad himage _ (fun _ hj => Function.update_of_ne hj _ _)
      fun _ hsize => (update_none_eq_some.mp hsize).2, (sound_release h hs himage).trans ?_⟩
    constructor
    · exact fun hkeeps _ => hkeeps
    · exact fun hkeeps => hkeeps (by rw [hm]; exact Option.some_ne_none m)

theorem Inv.next_getProcAddress {name : ProcName} (h : Inv host.surface w) (hs : w.Sound arity)
    (hn : (Event.getProcAddress l name).next host w = some w') :
    Inv host.surface w' ∧ (w'.Sound arity ↔ (Event.getProcAddress l name).Keeps host arity w) := by
  simp only [Event.next] at hn
  cases hfind : (w.registered l).bind fun m => findExport m.exports m.size name with
  | none =>
    rw [hfind] at hn
    cases hn
    exact ⟨h, iff_of_true hs trivial⟩
  | some rva =>
    rw [hfind] at hn
    cases hn
    obtain ⟨m, hm, hexport⟩ := Option.bind_eq_some_iff.mp hfind
    obtain ⟨himage, hserved⟩ := h.served_of_registered hm
    have hsize := (h.images l m himage).1.1
    have hrva := findExport_lt hexport
    refine ⟨h.handOut ?_ h.objects, iff_of_true (sound_lookup hs hsize hrva) trivial⟩
    intro p hp
    rcases List.mem_cons.mp hp with rfl | hp
    · refine ⟨hserved, fun size hsize' => ?_⟩
      cases hsize.symm.trans hsize'
      exact hrva
    · exact h.found p hp

theorem Inv.next_fakeProcAddress {off : Nat} {bytes : List Byte} (h : Inv host.surface w)
    (hs : w.Sound arity) (hn : (Event.fakeProcAddress off bytes).next host w = some w') :
    Inv host.surface w' ∧
      (w'.Sound arity ↔ (Event.fakeProcAddress off bytes).Keeps host arity w) := by
  obtain ⟨hmapped, harenas, hrest⟩ := h.fresh w.next (Nat.le_refl _)
  simp only [Event.next] at hn
  cases hknown : known host.surface w.next (fakeModule off)
      (host.fromUtf8Lossy (bytes.take 256)) with
  | none =>
    rw [hknown] at hn
    simp only [World.build, Function.update_idem] at hn
    cases hn
    refine ⟨@Inv.tabled _ _ h none nofun, iff_of_true ?_ ?_⟩
    · exact fun p hp => (hs p hp).off (World.off_tabled host.surface w none) ⟨hmapped, harenas⟩
    · intro target nArgs noreturn hcode
      rw [known, hcode] at hknown
      cases hknown
  | some ptr =>
    rw [hknown] at hn
    cases hn
    have hbuilt : Inv host.surface (w.build host.surface) :=
      h.tabled fun ts hts => (Option.some.inj hts).symm
    refine ⟨hbuilt.handOut ?_ hbuilt.objects, sound_found h hs hknown⟩
    intro p hp
    rcases List.mem_cons.mp hp with rfl | hp
    · rcases known_cases hknown w.vtables with ⟨addr, rfl⟩ | ⟨t, ht, rfl⟩
      · trivial
      · exact ⟨Nat.lt_succ_self _, hrest.1, hrest.2, _, Function.update_self _ _ _, ht⟩
    · exact hbuilt.found p hp

theorem Inv.next_create {i : Interface} (h : Inv host.surface w) (hs : w.Sound arity)
    (hn : (Event.create i).next host w = some w') :
    Inv host.surface w' ∧ (w'.Sound arity ↔ (Event.create i).Keeps host arity w) := by
  simp only [Event.next] at hn
  cases ha : w.vtables i.crate with
  | none =>
    rw [ha] at hn
    cases hn
  | some a =>
    rw [ha] at hn
    cases hn
    refine ⟨h.handOut h.found ?_, (sound_create h hs ha).trans ?_⟩
    · intro v hv
      rcases List.mem_cons.mp hv with rfl | hv
      · exact Or.inr ⟨i, a, ha, rfl⟩
      · exact h.objects v hv
    · constructor
      · intro hthere a' ha'
        cases ha.symm.trans ha'
        exact hthere
      · exact fun hkeeps => hkeeps a ha

theorem Inv.next {e : Event} (h : Inv host.surface w) (hs : w.Sound arity)
    (hn : e.next host w = some w') :
    Inv host.surface w' ∧ (w'.Sound arity ↔ e.Keeps host arity w) := by
  cases e with
  | load kind size imports =>
    obtain ⟨hmapped, harenas, -⟩ := h.fresh w.next (Nat.le_refl _)
    cases hn
    refine ⟨h.load ⟨kind, size, imports, imports, []⟩ rfl, iff_of_true ?_ trivial⟩
    exact fun p hp => (hs p hp).off (World.off_load host.surface w
      ⟨kind, size, imports, imports, []⟩) ⟨hmapped, harenas⟩
  | resolve l disk => exact h.next_resolve hs hn
  | writeIat l exports => exact h.next_writeIat hs hn
  | fail l =>
    obtain ⟨m, hm, rfl⟩ := Option.map_eq_some_iff.mp hn
    have himage := (Option.filter_eq_some_iff.mp hm).1
    exact ⟨h.dropLoad himage w.mapped (fun _ _ => rfl) fun _ => id, sound_dropLoad h hs himage⟩
  | refuse l =>
    obtain ⟨m, hm, hn⟩ := Option.bind_eq_some_iff.mp hn
    have himage := (Option.filter_eq_some_iff.mp hm).1
    split at hn
    · cases hn
    · cases hn
      refine ⟨h.dropLoad himage _ (fun _ hj => Function.update_of_ne hj _ _)
        fun _ hsize => (update_none_eq_some.mp hsize).2, ?_⟩
      exact (sound_release h hs himage).trans (and_iff_left (unreferenced_of_attaching h hm))
  | enter l =>
    obtain ⟨m, hm, rfl⟩ := Option.map_eq_some_iff.mp hn
    exact ⟨h.enter hm,
      iff_of_true (sound_enter hs (Option.filter_eq_some_iff.mp hm).1) trivial⟩
  | dropPeImage l =>
    obtain ⟨m, hm, hn⟩ := Option.bind_eq_some_iff.mp hn
    split at hn
    · cases hn
      exact ⟨h.dropLoad hm w.mapped (fun _ _ => rfl) fun _ => id, sound_dropLoad h hs hm⟩
    · cases hn
  | freeLibrary l => exact h.next_freeLibrary hs hn
  | getProcAddress l name => exact h.next_getProcAddress hs hn
  | fakeProcAddress off bytes => exact h.next_fakeProcAddress hs hn
  | create i => exact h.next_create hs hn
  | compile =>
    cases hn
    refine ⟨h.handOut h.found ?_, iff_of_false not_sound_compile id⟩
    intro v hv
    rcases List.mem_cons.mp hv with rfl | hv
    · exact Or.inl rfl
    · exact h.objects v hv
  | release k =>
    simp only [Event.next] at hn
    split at hn
    · cases hn
      refine ⟨h.handOut h.found fun v hv => h.objects v (List.mem_of_mem_eraseIdx hv),
        iff_of_true ?_ trivial⟩
      rintro p (hslot | hp | ⟨v, hv, hp⟩)
      · exact hs p (Or.inl hslot)
      · exact hs p (Or.inr (Or.inl hp))
      · exact hs p (Or.inr (Or.inr ⟨v, List.mem_of_mem_eraseIdx hv, hp⟩))
    · cases hn

/-- **Every function address the guest has is callable**, in all states of a run, if and only if
    each event of the run meets its condition. -/
theorem callable_throughout_iff (host : Host) (arity : Word → Nat) (events : List Event) :
    (machine host).Throughout (fun w => w.Sound arity) {} events ↔
      (machine host).Steps (fun w e => e.Keeps host arity w) {} events :=
  Machine.throughout_iff_steps (fun _ _ _ h hs hn => h.next hs hn) inv_init sound_init

end

/-! ## Addresses that cannot be called -/

/-- Two functions of the import tables: the first takes one argument less than its table says. -/
def tabledHost : Host :=
  { loadedHost with
    surface :=
      { loadedHost.surface with
        importSpecs :=
          [⟨"kernel32.dll", "HeapReAlloc", 0x1000, 5, false⟩,
            ⟨"d3dcompiler_47.dll", "D3DCompile", 0x2000, 11, false⟩] } }

def tabledArity (target : Word) : Nat := if target = 0x1000 then 4 else 11

def noExports : ExportTable := ⟨[], [], 1, ⟨0, 0⟩⟩

/-- An EXE that imports one function, from the mapping of its file until its load returns. -/
def loadExe (l : Nat) (imp : Import) (disk : Option Nat) : List Event :=
  [.load .main 0x1000 [imp], .resolve l disk, .writeIat l noExports, .enter l]

def compiling : List Event :=
  loadExe 0 ⟨"d3dcompiler_47.dll", "D3DCompile", 0x100⟩ none ++ [.compile]

def miscounted : List Event := loadExe 0 ⟨"kernel32.dll", "HeapReAlloc", 0x100⟩ none

/-- The image that was loaded first is dropped, and then the one that was loaded second creates a
    device. -/
def outlived : List Event :=
  loadExe 0 ⟨"d3dcompiler_47.dll", "D3DCompile", 0x100⟩ none ++
    loadExe 1 ⟨"d3dcompiler_47.dll", "D3DCompile", 0x100⟩ none ++ [.dropPeImage 0, .create .device]

/-- A DLL is freed that an import of the EXE has been resolved to. -/
def unloaded : List Event :=
  [.load (.dll "a.dll") 0x1000 [], .writeIat 0 ⟨[([97], 0x200)], [0x200], 1, ⟨0, 0⟩⟩, .enter 0] ++
    loadExe 1 ⟨"a.dll", "a", 0x100⟩ (some 0) ++ [.freeLibrary 0]

/-- The run leaves the guest with an address that cannot be called. -/
def Uncallable (events : List Event) : Prop :=
  ∃ w, (machine tabledHost).exec {} events = some w ∧ ¬ w.Sound tabledArity

/-- A blob's methods are System V functions; a slot of the IAT may have a trampoline for the wrong
    number of arguments, or lead into a DLL that has been freed; and a device's methods may be in an
    arena that has been dropped. -/
theorem uncallable_runs : Uncallable compiling ∧ Uncallable miscounted ∧ Uncallable outlived ∧
    Uncallable unloaded := by
  have hcompiling : ((machine tabledHost).exec {} compiling).map (fun w => w.objects) =
      some [blobVtable] := by decide +kernel
  have hmiscounted : ((machine tabledHost).exec {} miscounted).map
      (fun w => (w.images 0).bind fun m => m.iat.lookup 0x100) =
        some (some (.trampoline 0 ⟨.listed 0x1000, 5, false⟩)) := by decide +kernel
  have houtlived : ((machine tabledHost).exec {} outlived).map
      (fun w => (w.objects, w.arenas 0)) = some ([Interface.device.vtable 0], none) := by
    decide +kernel
  have hunloaded : ((machine tabledHost).exec {} unloaded).map
      (fun w => ((w.images 1).bind fun m => m.iat.lookup 0x100, w.mapped 0)) =
        some (some (.image 0 0x200), none) := by decide +kernel
  refine ⟨?_, ?_, ?_, ?_⟩
  · obtain ⟨w, hrun, hobjects⟩ := Option.map_eq_some_iff.mp hcompiling
    refine ⟨w, hrun, fun hsound => ?_⟩
    have hrelease := hsound (.native (.blob "blob_release" 1))
      (Or.inr (Or.inr ⟨blobVtable, by rw [hobjects]; exact List.mem_cons_self, by decide⟩))
    cases hrelease
  · obtain ⟨w, hrun, hslot⟩ := Option.map_eq_some_iff.mp hmiscounted
    refine ⟨w, hrun, fun hsound => ?_⟩
    obtain ⟨m, hm, hp⟩ := Option.bind_eq_some_iff.mp hslot
    obtain ⟨ts, -, -, hexact⟩ := hsound _ (Or.inl ⟨0, m, _, hm, hp⟩)
    have hfour : 5 ≠ tabledArity 0x1000 := by decide
    exact hfour hexact
  · obtain ⟨w, hrun, hpair⟩ := Option.map_eq_some_iff.mp houtlived
    refine ⟨w, hrun, fun hsound => ?_⟩
    obtain ⟨hobjects, harena⟩ := Prod.mk.inj hpair
    obtain ⟨ts, hts, -⟩ := hsound (.trampoline 0 (comTrampoline .d3d11 ⟨"com_add_ref", 1, 1⟩))
      (Or.inr (Or.inr ⟨_, by rw [hobjects]; exact List.mem_cons_self, by decide⟩))
    cases harena.symm.trans hts
  · obtain ⟨w, hrun, hpair⟩ := Option.map_eq_some_iff.mp hunloaded
    refine ⟨w, hrun, fun hsound => ?_⟩
    obtain ⟨hslot, hunmapped⟩ := Prod.mk.inj hpair
    obtain ⟨m, hm, hp⟩ := Option.bind_eq_some_iff.mp hslot
    obtain ⟨size, hsize, -⟩ := hsound _ (Or.inl ⟨1, m, _, hm, hp⟩)
    cases hunmapped.symm.trans hsize

end WinCompat.Loader.Provenance
