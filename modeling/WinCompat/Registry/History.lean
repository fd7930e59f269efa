import WinCompat.Registry.Key

/-!
# The registry answers from its history

The registry as a map from keys and value names to typed data, with no store in it: the history of
what calls have done, newest first, says which key a handle is on (`keyAt`) and which value a key has
under a name (`value`). `Refines` relates the flat store to a history; each function keeps it, and a
query on a store that refines a history answers what the history says (`registry_answers`).
-/

namespace WinCompat.Reg

open Lib
open Lib.Utf16 (WellFormed)
open Lib.Bytes (Byte)

inductive Event
  | opened (h : Handle) (k : Key)
  | closed (h : Handle)
  | stored (k : Key) (n : Name) (v : RegValue)
  | deleted (k : Key)
  | deletedTree (k : Key)
  deriving DecidableEq

/-- What has happened, newest first. -/
abbrev History := List Event

/-! ## What a history says -/

/-- The key on which a handle was last opened, unless it was closed since. -/
def opened (hs : History) (h : Handle) : Option Key :=
  match hs with
  | [] => none
  | .opened h' k :: hs => if h = h' then some k else opened hs h
  | .closed h' :: hs => if h = h' then none else opened hs h
  | _ :: hs => opened hs h

/-- The key that a handle is on. Pseudo-handles are on their roots for ever. -/
def keyAt (hs : History) (h : Handle) : Option Key :=
  match root? h with
  | some root => some (.ofRoot root)
  | none => opened hs h

/-- What was last stored under the name since the key was last deleted. -/
def value (hs : History) (k : Key) (n : Name) : Option RegValue :=
  match hs with
  | [] => none
  | .stored k' n' v :: hs => if k = k' ∧ n = n' then some v else value hs k n
  | .deleted k' :: hs => if k = k' then none else value hs k n
  | .deletedTree k' :: hs => if k'.Covers k then none else value hs k n
  | _ :: hs => value hs k n

/-- What a call that gave `reply` adds. -/
def event (hs : History) (c : Call) (reply : Reply) : Option Event :=
  match c with
  | .openKey h subkey | .openKeyEx h subkey _ _ | .createKeyEx h subkey _ _ _ _ =>
    (keyAt hs h).bind fun k => reply.handle.map fun h' => .opened h' (k.sub subkey)
  | .closeKey h => some (.closed h)
  | .setValueEx h name _ regType data cbData =>
    (keyAt hs h).map fun k => .stored k name.name ⟨regType, valueBytes data cbData⟩
  | .deleteKey h subkey => (keyAt hs h).map fun k => .deleted (k.sub subkey)
  | .deleteTree h subkey => (keyAt hs h).map fun k => .deletedTree (k.sub subkey)
  | .queryValueEx .. | .queryInfoKey .. | .stub .. => none

/-! ## Runs -/

structure Run where
  registry : Registry
  history : History

def Run.call (s : Run) (c : Call) : Run where
  registry := (s.registry.run c).2
  history := (event s.history c (s.registry.run c).1).toList ++ s.history

/-- The key that a seeded path names. -/
def Seed.key (s : Seed) : Key :=
  (Key.ofRoot .localMachine).sub (some (Utf16.encode (s.path.drop 5)))

def Seed.event (s : Seed) : Event :=
  .stored s.key (.ofUnits (Utf16.encode s.name)) ⟨s.regType, s.data⟩

def runs : Machine Run Call where
  init s := s = ⟨seeded, (seeds.map Seed.event).reverse⟩
  next s c := some (s.call c)

/-- What `*lpcbData` says of a buffer that can be written to. -/
def Buffer.capacity (b : Buffer) : Nat := if b.data then (b.len.getD 0).toNat else 0

/-- Calls answer what the history says. -/
structure Answers (s : Run) : Prop where
  /-- A handle that is on no key does not work. -/
  invalid : ∀ c h, c.target = some h → keyAt s.history h = none →
    s.registry.run c = ({ code := errorInvalidHandle }, s.registry)
  absent : ∀ h k name b, keyAt s.history h = some k → value s.history k name.name = none →
    s.registry.regQueryValueExW h name b = { code := errorFileNotFound }
  /-- With no buffer the call reports the type and the length. -/
  lengthOnly : ∀ h k name b v, keyAt s.history h = some k →
    value s.history k name.name = some v → b.capacity = 0 →
    s.registry.regQueryValueExW h name b =
      { code := errorSuccess, regType := some v.regType,
        len := b.len.map fun _ => BitVec.ofNat 32 v.data.length }
  tooSmall : ∀ h k name b v, keyAt s.history h = some k →
    value s.history k name.name = some v → b.capacity ≠ 0 → b.capacity < v.data.length →
    s.registry.regQueryValueExW h name b =
      { code := errorMoreData, regType := some v.regType,
        len := some (BitVec.ofNat 32 v.data.length) }
  sufficient : ∀ h k name b v, keyAt s.history h = some k →
    value s.history k name.name = some v → b.capacity ≠ 0 → v.data.length ≤ b.capacity →
    s.registry.regQueryValueExW h name b =
      { code := errorSuccess, regType := some v.regType,
        len := some (BitVec.ofNat 32 v.data.length), data := some v.data }

/-! ## Values under paths -/

def Registry.valueAt (r : Registry) (path name : Text) : Option RegValue :=
  (r.keys.lookup path).bind fun key => key.values.lookup name

variable {r : Registry} {path path' name name' : Text} {hs : History} {h : Handle} {k : Key}

theorem Registry.valueAt_putValue {regType : BitVec 32} {data : List Byte} :
    (r.putValue path name regType data).valueAt path' name' =
      if path' = path ∧ name' = name then some ⟨regType, data⟩ else r.valueAt path' name' := by
  unfold Registry.valueAt Registry.putValue
  by_cases hpath : path' = path
  · subst hpath
    rw [AList.lookup_insert, Option.bind_some]
    by_cases hname : name' = name
    · subst hname
      rw [if_pos ⟨rfl, rfl⟩, AList.lookup_insert]
    · rw [if_neg (fun h => hname h.2), AList.lookup_insert_ne hname]
      cases r.keys.lookup path' with
      | none => rfl
      | some key => rfl
  · rw [if_neg (fun h => hpath h.1), AList.lookup_insert_ne hpath]

variable {handles : Handle → Option Text}

variable {next : Handle}

theorem valueAt_orDefault :
    Registry.valueAt ⟨Keyed.orDefault {} path r.keys, handles, next⟩ path' name =
      r.valueAt path' name := by
  unfold Registry.valueAt
  by_cases hpath : path' = path
  · subst hpath
    rw [Keyed.lookup_orDefault_self]
    cases r.keys.lookup path' with
    | none => rfl
    | some key => rfl
  · rw [Keyed.lookup_orDefault_ne hpath]

theorem valueAt_erase :
    Registry.valueAt ⟨r.keys.erase path, handles, next⟩ path' name =
      if path' = path then none else r.valueAt path' name := by
  unfold Registry.valueAt
  by_cases hpath : path' = path
  · rw [if_pos hpath, hpath, AList.lookup_erase]
    rfl
  · rw [if_neg hpath, AList.lookup_erase_ne hpath]

theorem valueAt_retain {p : Text → Bool} {keys : Keyed.Store Text RegKey} :
    Registry.valueAt ⟨Keyed.retain p keys, handles, next⟩ path name =
      if p path then Registry.valueAt ⟨keys, handles, next⟩ path name else none := by
  unfold Registry.valueAt
  rw [Keyed.lookup_retain]
  by_cases hp : p path
  · rw [if_pos hp, if_pos hp]
  · rw [if_neg hp, if_neg hp]
    rfl

/-! ## The store refines the history -/

structure Refines (r : Registry) (hs : History) : Prop where
  handles : ∀ h, root? h = none → r.handles h = (opened hs h).map Key.path
  values : ∀ k n, r.valueAt k.path n.text = value hs k n
  fits : ∀ k n v, value hs k n = some v → v.data.length < 2 ^ 32

theorem rootName_eq (h : Handle) : rootName h = (root? h).map fun root => (Key.ofRoot root).path := by
  unfold rootName
  congr 1
  funext root
  exact (Key.path_ofRoot root).symm

theorem Refines.resolvePath (hr : Refines r hs) (h : Handle) :
    r.resolvePath h = (keyAt hs h).map Key.path := by
  unfold Registry.resolvePath keyAt
  rw [rootName_eq]
  cases hroot : root? h with
  | some root => rfl
  | none => exact hr.handles h hroot

theorem Refines.buildPath (hr : Refines r hs) (h : Handle) (subkey : WStr) :
    r.buildPath h subkey = (keyAt hs h).map fun k => (k.sub subkey).path := by
  unfold Registry.buildPath
  rw [hr.resolvePath, Option.map_map]
  congr 1
  funext k
  exact (Key.path_sub k subkey).symm

theorem Refines.putValue (hr : Refines r hs) {k : Key} {n : Name} {regType : BitVec 32}
    {data : List Byte} (hfits : data.length < 2 ^ 32) :
    Refines (r.putValue k.path n.text regType data) (.stored k n ⟨regType, data⟩ :: hs) := by
  constructor
  · exact hr.handles
  · intro k' n'
    rw [Registry.valueAt_putValue, hr.values]
    simp only [Key.path_inj, Name.text_injective.eq_iff]
    rfl
  · intro k' n' v hv
    unfold value at hv
    by_cases hsame : k' = k ∧ n' = n
    · rw [if_pos hsame] at hv
      cases hv
      exact hfits
    · rw [if_neg hsame] at hv
      exact hr.fits k' n' v hv

theorem Refines.mint (hr : Refines r hs) (k : Key) :
    Refines ({ r with keys := Keyed.orDefault {} k.path r.keys }.mint k.path).2
      (.opened r.next k :: hs) := by
  constructor
  · intro h hroot
    unfold opened
    by_cases hh : h = r.next
    · rw [if_pos hh, hh]
      exact Function.update_self _ _ _
    · rw [if_neg hh, ← hr.handles h hroot]
      exact Function.update_of_ne hh _ _
  · intro k' n
    exact valueAt_orDefault.trans (hr.values k' n)
  · exact hr.fits

theorem Refines.close (hr : Refines r hs) (h : Handle) :
    Refines (r.regCloseKey h).2 (.closed h :: hs) := by
  unfold Registry.regCloseKey
  by_cases hclosed : (rootName h).isSome
  · rw [if_pos hclosed]
    refine ⟨?_, hr.values, hr.fits⟩
    intro h' hroot
    have hne : h' ≠ h := by
      rintro rfl
      rw [rootName, hroot] at hclosed
      cases hclosed
    unfold opened
    rw [if_neg hne]
    exact hr.handles h' hroot
  · rw [if_neg hclosed]
    refine ⟨?_, hr.values, hr.fits⟩
    intro h' hroot
    unfold opened
    by_cases hh : h' = h
    · rw [if_pos hh, hh]
      exact Function.update_self _ _ _
    · rw [if_neg hh, ← hr.handles h' hroot]
      exact Function.update_of_ne hh _ _

theorem Refines.erase (hr : Refines r hs) (k : Key) :
    Refines { r with keys := r.keys.erase k.path } (.deleted k :: hs) := by
  constructor
  · exact hr.handles
  · intro k' n
    rw [valueAt_erase, hr.values]
    simp only [Key.path_inj]
    rfl
  · intro k' n v hv
    unfold value at hv
    by_cases hsame : k' = k
    · rw [if_pos hsame] at hv
      cases hv
    · rw [if_neg hsame] at hv
      exact hr.fits k' n v hv

theorem Refines.eraseTree (hr : Refines r hs) (k : Key) :
    Refines { r with
      keys := Keyed.retain (fun path => !(k.path ++ ['\\']).isPrefixOf path) (r.keys.erase k.path) }
      (.deletedTree k :: hs) := by
  constructor
  · exact hr.handles
  · intro k' n
    have hvalue : value (.deletedTree k :: hs) k' n =
        if k.Covers k' then none else value hs k' n := rfl
    rw [valueAt_retain, valueAt_erase, hr.values, hvalue]
    by_cases hcovers : k.Covers k'
    · rw [if_pos hcovers]
      rcases Key.covers_iff.mp hcovers with hsame | hbelow
      · rw [if_pos hsame, ite_self]
      · rw [List.isPrefixOf_iff_prefix.mpr hbelow]
        rfl
    · rw [if_neg hcovers]
      have hsame : k'.path ≠ k.path := fun h => hcovers (Key.covers_iff.mpr (Or.inl h))
      have hbelow : (k.path ++ ['\\']).isPrefixOf k'.path = false := by
        rw [← Bool.not_eq_true, List.isPrefixOf_iff_prefix]
        exact fun h => hcovers (Key.covers_iff.mpr (Or.inr h))
      rw [hbelow, if_neg hsame, Bool.not_false, if_pos rfl]
  · intro k' n v hv
    unfold value at hv
    by_cases hcovers : k.Covers k'
    · rw [if_pos hcovers] at hv
      cases hv
    · rw [if_neg hcovers] at hv
      exact hr.fits k' n v hv

/-! ## Every call keeps the refinement -/

theorem length_valueBytes (data : Option (Nat → Byte)) (cbData : BitVec 32) :
    (valueBytes data cbData).length < 2 ^ 32 := by
  cases data with
  | none => exact Nat.two_pow_pos 32
  | some data =>
    unfold valueBytes
    rw [List.length_map, List.length_range]
    exact cbData.isLt

/-- What a call did: the event that records it, the code it returned and the registry it left. -/
inductive Did (r : Registry) : Option Event → BitVec 32 → Registry → Prop
  | nothing (code : BitVec 32) : Did r none code r
  | closed (h : Handle) : Did r (some (.closed h)) errorSuccess (r.regCloseKey h).2
  | opened (k : Key) : Did r (some (.opened r.next k)) errorSuccess
      ({ r with keys := Keyed.orDefault {} k.path r.keys }.mint k.path).2
  | stored (k : Key) (n : Name) (regType : BitVec 32) {data : List Byte}
      (hfits : data.length < 2 ^ 32) :
      Did r (some (.stored k n ⟨regType, data⟩)) errorSuccess (r.putValue k.path n.text regType data)
  | deleted (k : Key) : Did r (some (.deleted k))
      (if k.path ∈ r.keys then errorSuccess else errorFileNotFound)
      { r with keys := r.keys.erase k.path }
  | deletedTree (k : Key) : Did r (some (.deletedTree k))
      (if k.path ∈ r.keys then errorSuccess else errorFileNotFound)
      { r with
        keys := Keyed.retain (fun p => !(k.path ++ ['\\']).isPrefixOf p) (r.keys.erase k.path) }

theorem Refines.resolvePath_of_keyAt (hr : Refines r hs) {o : Option Key} (hk : keyAt hs h = o) :
    r.resolvePath h = o.map Key.path := by
  rw [hr.resolvePath, hk]

theorem Refines.buildPath_of_keyAt (hr : Refines r hs) (hk : keyAt hs h = some k) (subkey : WStr) :
    r.buildPath h subkey = some (k.sub subkey).path := by
  rw [hr.buildPath, hk]
  rfl

theorem Refines.did (hr : Refines r hs) (c : Call) :
    Did r (event hs c (r.run c).1) (r.run c).1.code (r.run c).2 := by
  cases htarget : c.target with
  | none =>
    cases c with
    | closeKey h =>
      have hcode : (r.regCloseKey h).1.code = errorSuccess := by
        unfold Registry.regCloseKey
        split <;> rfl
      simp only [Registry.run, event, hcode]
      exact .closed h
    | stub fn h name => exact .nothing _
    | _ => cases htarget
  | some h =>
    cases hk : keyAt hs h with
    | none =>
      have hevent : event hs c (r.run c).1 = none := by
        cases c <;> cases htarget <;> simp [event, hk]
      rw [hevent, Registry.run_invalid htarget (hr.resolvePath_of_keyAt hk)]
      exact .nothing _
    | some k =>
      have hresolve := hr.resolvePath_of_keyAt hk
      have hbuild := hr.buildPath_of_keyAt hk
      cases c with
      | closeKey | stub => cases htarget
      | openKey h subkey =>
        cases htarget
        simp only [Registry.run, event, hk, Registry.regOpenKeyW_eq (hbuild subkey)]
        exact .opened (k.sub subkey)
      | openKeyEx h subkey reserved access =>
        cases htarget
        simp only [Registry.run, Registry.regOpenKeyExW, event, hk,
          Registry.regOpenKeyW_eq (hbuild subkey)]
        exact .opened (k.sub subkey)
      | createKeyEx h subkey reserved className options access =>
        cases htarget
        simp only [Registry.run, event, hk, Registry.regCreateKeyExW_eq (hbuild subkey)]
        exact .opened (k.sub subkey)
      | queryValueEx | queryInfoKey => exact .nothing _
      | setValueEx h name reserved regType data cbData =>
        cases htarget
        simp only [Registry.run, event, hk, Registry.regSetValueExW_eq hresolve, ← WStr.text_name]
        exact .stored k name.name regType (length_valueBytes data cbData)
      | deleteKey h subkey =>
        cases htarget
        simp only [Registry.run, event, hk, Registry.regDeleteKeyW_eq (hbuild subkey)]
        exact .deleted (k.sub subkey)
      | deleteTree h subkey =>
        cases htarget
        simp only [Registry.run, event, hk, Registry.regDeleteTreeW_eq (hbuild subkey)]
        exact .deletedTree (k.sub subkey)

theorem Refines.of_did {e : Option Event} {code : BitVec 32} {r' : Registry} (hr : Refines r hs)
    (h : Did r e code r') : Refines r' (e.toList ++ hs) := by
  cases h with
  | nothing => exact hr
  | closed h => exact hr.close h
  | opened k => exact hr.mint k
  | stored k n regType hfits => exact hr.putValue hfits
  | deleted k => exact hr.erase k
  | deletedTree k => exact hr.eraseTree k

theorem Refines.call {s : Run} (hr : Refines s.registry s.history) (c : Call) :
    Refines (s.call c).registry (s.call c).history :=
  hr.of_did (hr.did c)

/-! ## The registry that guest code starts with -/

theorem refines_new : Refines .new [] := by
  constructor
  · intro h _
    rfl
  · intro k n
    rfl
  · intro k n v hv
    cases hv

theorem Seed.text_name (s : Seed) : (Name.ofUnits (Utf16.encode s.name)).text = s.name := by
  rw [Name.text_ofUnits, Utf16.decodeLossy_encode]

theorem Refines.seed (hr : Refines r hs) {l : List Seed}
    (hl : ∀ s ∈ l, s.key.path = s.path ∧ s.data.length < 2 ^ 32) :
    Refines (l.foldl (fun r s => r.putValue s.path s.name s.regType s.data) r)
      ((l.map Seed.event).reverse ++ hs) := by
  induction l generalizing r hs with
  | nil => exact hr
  | cons s l ih =>
    obtain ⟨hpath, hfits⟩ := hl s List.mem_cons_self
    have hput : Refines
        (r.putValue s.key.path (Name.ofUnits (Utf16.encode s.name)).text s.regType s.data)
        (s.event :: hs) := hr.putValue hfits
    rw [hpath, s.text_name] at hput
    rw [List.foldl_cons, List.map_cons, List.reverse_cons, List.append_assoc, List.singleton_append]
    exact ih hput fun s' hs' => hl s' (List.mem_cons_of_mem s hs')

theorem seeds_paths : ∀ s ∈ seeds, s.key.path = s.path ∧ s.data.length < 2 ^ 32 := by
  decide

theorem refines_seeded : Refines seeded (seeds.map Seed.event).reverse := by
  have hseed := refines_new.seed seeds_paths
  rwa [List.append_nil] at hseed

theorem reachable_refines {s : Run} (h : runs.Reachable s) : Refines s.registry s.history := by
  apply h.invariant
  · intro s hs
    rw [hs]
    exact refines_seeded
  · intro s c s' hr hn
    cases hn
    exact hr.call c

/-! ## Answers -/

theorem Refines.query (hr : Refines r hs) (hk : keyAt hs h = some k) (name : WStr) (b : Buffer) :
    r.regQueryValueExW h name b =
      ((value hs k name.name).map fun v => v.reply b).getD { code := errorFileNotFound } := by
  have hresolve : r.resolvePath h = some k.path := by rw [hr.resolvePath, hk]; rfl
  rw [Registry.regQueryValueExW_eq hresolve, ← hr.values, WStr.text_name]
  rfl

theorem Buffer.capacity_eq_zero {b : Buffer} :
    b.capacity = 0 ↔ b.data = false ∨ b.len.getD 0 = 0 := by
  unfold Buffer.capacity
  cases b.data with
  | false => simp
  | true => simp [← BitVec.toNat_inj]

theorem Buffer.capacity_ne_zero {b : Buffer} (hcap : b.capacity ≠ 0) :
    ∃ cap, b.len = some cap ∧ cap.toNat = b.capacity := by
  unfold Buffer.capacity at hcap ⊢
  cases hdata : b.data with
  | false => simp [hdata] at hcap
  | true =>
    cases hlen : b.len with
    | none => simp [hlen] at hcap
    | some cap => exact ⟨cap, rfl, rfl⟩

variable {v : RegValue} {b : Buffer}

theorem reply_lengthOnly (hcap : b.capacity = 0) : v.reply b =
    { code := errorSuccess, regType := some v.regType,
      len := b.len.map fun _ => BitVec.ofNat 32 v.data.length } := by
  unfold RegValue.reply
  exact if_pos (Buffer.capacity_eq_zero.mp hcap)

theorem reply_tooSmall (hfits : v.data.length < 2 ^ 32) (hcap : b.capacity ≠ 0)
    (hsmall : b.capacity < v.data.length) : v.reply b =
      { code := errorMoreData, regType := some v.regType,
        len := some (BitVec.ofNat 32 v.data.length) } := by
  obtain ⟨cap, hlen, htoNat⟩ := Buffer.capacity_ne_zero hcap
  have hlt : cap < BitVec.ofNat 32 v.data.length := by
    rw [BitVec.lt_def, BitVec.toNat_ofNat, Nat.mod_eq_of_lt hfits, htoNat]
    exact hsmall
  have hnonzero : ¬ (b.data = false ∨ b.len.getD 0 = 0) := fun h =>
    hcap (Buffer.capacity_eq_zero.mpr h)
  unfold RegValue.reply
  rw [if_neg hnonzero, hlen, Option.getD_some, if_pos hlt]
  rfl

theorem reply_sufficient (hfits : v.data.length < 2 ^ 32) (hcap : b.capacity ≠ 0)
    (henough : v.data.length ≤ b.capacity) : v.reply b =
      { code := errorSuccess, regType := some v.regType,
        len := some (BitVec.ofNat 32 v.data.length), data := some v.data } := by
  obtain ⟨cap, hlen, htoNat⟩ := Buffer.capacity_ne_zero hcap
  have hneeded : (BitVec.ofNat 32 v.data.length).toNat = v.data.length := by
    rw [BitVec.toNat_ofNat, Nat.mod_eq_of_lt hfits]
  have hnot : ¬ cap < BitVec.ofNat 32 v.data.length := by
    rw [BitVec.lt_def, hneeded, htoNat]
    exact Nat.not_lt_of_le henough
  have hnonzero : ¬ (b.data = false ∨ b.len.getD 0 = 0) := fun h =>
    hcap (Buffer.capacity_eq_zero.mpr h)
  unfold RegValue.reply
  rw [if_neg hnonzero, hlen, Option.getD_some, if_neg hnot, hneeded, List.take_length]
  rfl

theorem Refines.answers {s : Run} (hr : Refines s.registry s.history) : Answers s := by
  constructor
  · intro c h htarget hk
    apply Registry.run_invalid htarget
    rw [hr.resolvePath, hk]
    rfl
  · intro h k name b hk hv
    rw [hr.query hk, hv]
    rfl
  · intro h k name b v hk hv hcap
    rw [hr.query hk, hv]
    exact reply_lengthOnly hcap
  · intro h k name b v hk hv hcap hsmall
    rw [hr.query hk, hv]
    exact reply_tooSmall (hr.fits k name.name v hv) hcap hsmall
  · intro h k name b v hk hv hcap henough
    rw [hr.query hk, hv]
    exact reply_sufficient (hr.fits k name.name v hv) hcap henough

/-- In every run the registry answers from its history, where a key is the same whichever way it is
    reached and well-formed names are the same only if their units are. -/
theorem registry_answers {s : Run} (h : runs.Reachable s) :
    Answers s ∧
      (∀ (k : Key) (p q pq : WStr), p.units ≠ [] → q.units ≠ [] →
        pq.units = p.units ++ separator :: q.units → (k.sub p).sub q = k.sub pq) ∧
      ∀ p q : WStr, WellFormed p.units → WellFormed q.units → (p.name = q.name ↔ p.units = q.units) := by
  refine ⟨(reachable_refines h).answers, ?_, ?_⟩
  · intro k p q pq hp hq hpq
    exact Key.sub_sub hp hq hpq
  · intro p q hp hq
    exact Name.ofUnits_eq_iff hp hq

/-- A value stored under `A\B` in one call, and the same key opened in two. -/
def twoRoutes : List Call :=
  [.createKeyEx Root.currentUser.hkey (some [0x41, 0x5C, 0x42]) 0 none 0 0,
    .setValueEx 0x0002000000000001 (some [0x76]) 0 3 (some fun i => BitVec.ofNat 8 i) 2,
    .openKey Root.currentUser.hkey (some [0x41]),
    .openKey 0x0002000000000002 (some [0x42])]

theorem registry_answers_twoRoutes :
    (twoRoutes.foldl Run.call ⟨seeded, (seeds.map Seed.event).reverse⟩).registry.regQueryValueExW
      0x0002000000000003 (some [0x76]) ⟨true, some 2⟩ =
        { code := errorSuccess, regType := some 3, len := some 2, data := some [0, 1] } :=
  (registry_answers (Machine.reachable_of_exec (l := twoRoutes) rfl rfl)).1.sufficient
    0x0002000000000003
    ((Key.ofRoot .currentUser).sub (some [0x41, 0x5C, 0x42])) (some [0x76]) ⟨true, some 2⟩
    ⟨3, [0, 1]⟩ (by decide) (by decide) (by decide) (by decide)

/-- Names with unpaired surrogates are read alike, an empty buffer is no error, closing a closed
    handle succeeds and a root still works after a close. -/
theorem not_a_map_of_units :
    (seeded.replies [.setValueEx Root.currentUser.hkey (some [0xD800]) 0 3 (some fun _ => 7) 1,
      .queryValueEx Root.currentUser.hkey (some [0xD801]) ⟨true, some 1⟩] =
        [{ code := errorSuccess },
          { code := errorSuccess, regType := some 3, len := some 1, data := some [7] }]) ∧
    (seeded.replies [.setValueEx Root.currentUser.hkey none 0 3 (some fun _ => 7) 1,
      .queryValueEx Root.currentUser.hkey none ⟨true, some 0⟩] =
        [{ code := errorSuccess }, { code := errorSuccess, regType := some 3, len := some 1 }]) ∧
    (seeded.replies [.openKey Root.currentUser.hkey none, .closeKey 0x0002000000000001,
      .closeKey 0x0002000000000001] =
        [{ code := errorSuccess, handle := some 0x0002000000000001 }, { code := errorSuccess },
          { code := errorSuccess }]) ∧
    seeded.replies [.closeKey Root.currentUser.hkey, .openKey Root.currentUser.hkey none] =
      [{ code := errorSuccess }, { code := errorSuccess, handle := some 0x0002000000000001 }] := by
  decide

end WinCompat.Reg
