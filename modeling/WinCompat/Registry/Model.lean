import WinCompat.Lib.Bytes
import WinCompat.Lib.Keyed
import WinCompat.Lib.Machine
import WinCompat.Lib.Utf16

/-!
# The registry

`win32-kernel32/src/registry.rs`: keys in one flat map under their full paths, and a table from the
handles that opens have minted to paths. `spi.rs` puts four values into it before any guest code runs.

A `*const u16` is `none` when it is null, else the units from there on, where the text ends before
the first zero unit or with the list. A call's `Reply` is what it returns and what it writes through
its out-pointers; an out-pointer that is null is not written to and changes nothing else.
-/

namespace WinCompat.Reg

open Lib
open Lib.Utf16 (CodeUnit)
open Lib.Bytes (Byte le32)

abbrev Handle := BitVec 64

abbrev Status := BitVec 32

abbrev Text := List Char

abbrev WStr := Option (List CodeUnit)

/-! ## Windows registry constants -/

inductive Root
  | classesRoot
  | currentUser
  | localMachine
  | users
  | currentConfig
  deriving DecidableEq

def Root.hkey : Root → Handle
  | classesRoot => 0x80000000
  | currentUser => 0x80000001
  | localMachine => 0x80000002
  | users => 0x80000003
  | currentConfig => 0x80000005

def Root.name : Root → Text
  | classesRoot => "HKCR".toList
  | currentUser => "HKCU".toList
  | localMachine => "HKLM".toList
  | users => "HKU".toList
  | currentConfig => "HKCC".toList

def errorSuccess : Status := 0
def errorFileNotFound : Status := 2
def errorInvalidHandle : Status := 6
def errorCallNotImplemented : Status := 120
def errorMoreData : Status := 234
def errorNoMoreItems : Status := 259

def regCreatedNewKey : BitVec 32 := 1
def regOpenedExistingKey : BitVec 32 := 2

def regSz : BitVec 32 := 1
def regDword : BitVec 32 := 4

/-! ## The store and the handle table -/

structure RegValue where
  regType : BitVec 32
  data : List Byte
  deriving DecidableEq

/-- A key's values, under names that are compared exactly. -/
structure RegKey where
  values : Keyed.Store Text RegValue := ∅

/-- The one lock's contents: the keys by path, the open handles, and the counter they are minted
    from. -/
structure Registry where
  keys : Keyed.Store Text RegKey
  handles : Handle → Option Text
  next : Handle

namespace Registry

def new : Registry where
  keys := ∅
  handles _ := none
  next := 0x0002000000000001

/-- Every open takes a new handle, also for a path that is open already. -/
def mint (r : Registry) (path : Text) : Handle × Registry :=
  (r.next, { r with
    next := r.next + 1
    handles := Function.update r.handles r.next (some path) })

end Registry

/-- The root that a pseudo-handle stands for. -/
def root? (h : Handle) : Option Root :=
  if h = Root.classesRoot.hkey then some .classesRoot
  else if h = Root.currentUser.hkey then some .currentUser
  else if h = Root.localMachine.hkey then some .localMachine
  else if h = Root.users.hkey then some .users
  else if h = Root.currentConfig.hkey then some .currentConfig
  else none

def rootName (h : Handle) : Option Text := (root? h).map Root.name

def utf16ToString : WStr → Text
  | none => []
  | some units => Utf16.decodeLossy (units.takeWhile (· ≠ 0))

namespace Registry

/-- A root handle is good without being opened; any other has to be in the table. -/
def resolvePath (r : Registry) (hkey : Handle) : Option Text :=
  match rootName hkey with
  | some name => some name
  | none => r.handles hkey

def buildPath (r : Registry) (parent : Handle) (subkey : WStr) : Option Text :=
  (r.resolvePath parent).map fun parentPath =>
    let sub := utf16ToString subkey
    if sub = [] then parentPath else parentPath ++ '\\' :: sub

def putValue (r : Registry) (path name : Text) (regType : BitVec 32) (data : List Byte) : Registry :=
  let key := (r.keys.lookup path).getD {}
  { r with keys := r.keys.insert path { key with values := key.values.insert name ⟨regType, data⟩ } }

end Registry

/-! ## What the calls return and write -/

/-- What `RegQueryInfoKeyW` writes. -/
structure Info where
  className : CodeUnit := 0
  classLen : BitVec 32 := 0
  subKeys : BitVec 32
  maxSubkeyLen : BitVec 32
  maxClassLen : BitVec 32 := 0
  values : BitVec 32
  maxValueNameLen : BitVec 32
  maxValueLen : BitVec 32 := 0
  saLen : BitVec 32 := 0
  lastWrite : BitVec 64 := 0
  deriving DecidableEq

structure Reply where
  code : Status
  /-- `*phkResult`. -/
  handle : Option Handle := none
  /-- `*lpdwDisposition`. -/
  disposition : Option (BitVec 32) := none
  /-- `*lpType`. -/
  regType : Option (BitVec 32) := none
  /-- The bytes written from `lpData` on. -/
  data : Option (List Byte) := none
  /-- `*lpcbData`, or `*lpdwBufLen`. -/
  len : Option (BitVec 32) := none
  info : Option Info := none
  deriving DecidableEq

/-- The buffer of a query: whether `lpData` is not null, and what `lpcbData` points to if it is not. -/
structure Buffer where
  data : Bool
  len : Option (BitVec 32)
  deriving DecidableEq

/-- What `reg_query_value_ex_w` does once it has found the value. -/
def RegValue.reply (val : RegValue) (buffer : Buffer) : Reply :=
  let needed := BitVec.ofNat 32 val.data.length
  let cap := buffer.len.getD 0
  let len := buffer.len.map fun _ => needed
  -- the caller asks for the length only
  if buffer.data = false ∨ cap = 0 then
    { code := errorSuccess, regType := some val.regType, len := len }
  else if cap < needed then
    { code := errorMoreData, regType := some val.regType, len := len }
  else
    { code := errorSuccess, regType := some val.regType, len := len
      data := some (val.data.take needed.toNat) }

/-- The bytes that a `RegSetValueExW` stores, `data` being what is in memory from `lpData` on. -/
def valueBytes (data : Option (Nat → Byte)) (cbData : BitVec 32) : List Byte :=
  match data with
  | none => []
  | some data => (List.range cbData.toNat).map data

/-- `encode_utf16().count()` of the longest of the names, zero if there is none. -/
def maxChars (names : List Text) : Nat :=
  (names.map fun name => (Utf16.encode name).length).foldr max 0

namespace Registry

/-! ## The registry functions -/

def regOpenKeyW (r : Registry) (hkey : Handle) (subkey : WStr) : Reply × Registry :=
  match r.buildPath hkey subkey with
  | none => ({ code := errorInvalidHandle }, r)
  | some path =>
    let (h, r) := { r with keys := Keyed.orDefault {} path r.keys }.mint path
    ({ code := errorSuccess, handle := some h }, r)

def regOpenKeyExW (r : Registry) (hkey : Handle) (subkey : WStr) (_reserved _access : BitVec 32) :
    Reply × Registry :=
  r.regOpenKeyW hkey subkey

def regCreateKeyExW (r : Registry) (hkey : Handle) (subkey : WStr) (_reserved : BitVec 32)
    (_class : WStr) (_options _access : BitVec 32) : Reply × Registry :=
  match r.buildPath hkey subkey with
  | none => ({ code := errorInvalidHandle }, r)
  | some path =>
    let created := decide (path ∉ r.keys)
    let (h, r) := { r with keys := Keyed.orDefault {} path r.keys }.mint path
    let disposition := if created then regCreatedNewKey else regOpenedExistingKey
    ({ code := errorSuccess, handle := some h, disposition := some disposition }, r)

def regCloseKey (r : Registry) (hkey : Handle) : Reply × Registry :=
  if (rootName hkey).isSome then ({ code := errorSuccess }, r)
  else ({ code := errorSuccess }, { r with handles := Function.update r.handles hkey none })

def regQueryValueExW (r : Registry) (hkey : Handle) (name : WStr) (buffer : Buffer) : Reply :=
  match r.resolvePath hkey with
  | none => { code := errorInvalidHandle }
  | some path =>
    match r.keys.lookup path with
    | none => { code := errorFileNotFound }
    | some key =>
      match key.values.lookup (utf16ToString name) with
      | none => { code := errorFileNotFound }
      | some val => val.reply buffer

def regSetValueExW (r : Registry) (hkey : Handle) (name : WStr) (_reserved : BitVec 32)
    (regType : BitVec 32) (data : Option (Nat → Byte)) (cbData : BitVec 32) : Reply × Registry :=
  match r.resolvePath hkey with
  | none => ({ code := errorInvalidHandle }, r)
  | some path =>
    ({ code := errorSuccess },
      r.putValue path (utf16ToString name) regType (valueBytes data cbData))

def regDeleteKeyW (r : Registry) (hkey : Handle) (subkey : WStr) : Reply × Registry :=
  match r.buildPath hkey subkey with
  | none => ({ code := errorInvalidHandle }, r)
  | some path =>
    ({ code := if path ∈ r.keys then errorSuccess else errorFileNotFound },
      { r with keys := r.keys.erase path })

/-- The names of the direct subkeys: what is left of each stored path that begins with the key's own
    and has one component more. -/
def subkeyNames (r : Registry) (path : Text) : List Text :=
  (r.keys.keys.filterMap fun keyPath => (path ++ ['\\']).isPrefixOf? keyPath).filter fun rest =>
    decide (rest ≠ [] ∧ '\\' ∉ rest)

def valueNames (r : Registry) (path : Text) : List Text :=
  match r.keys.lookup path with
  | none => []
  | some key => key.values.keys

def regQueryInfoKeyW (r : Registry) (hkey : Handle) : Reply :=
  match r.resolvePath hkey with
  | none => { code := errorInvalidHandle }
  | some path =>
    let subkeys := r.subkeyNames path
    let values := r.valueNames path
    { code := errorSuccess
      info := some {
        subKeys := BitVec.ofNat 32 subkeys.length
        maxSubkeyLen := BitVec.ofNat 32 (maxChars subkeys)
        values := BitVec.ofNat 32 values.length
        maxValueNameLen := BitVec.ofNat 32 (maxChars values) } }

def regDeleteTreeW (r : Registry) (hkey : Handle) (subkey : WStr) : Reply × Registry :=
  match r.buildPath hkey subkey with
  | none => ({ code := errorInvalidHandle }, r)
  | some base =>
    let keys := r.keys.erase base
    -- what is below goes whether or not the key itself was there
    let keys := Keyed.retain (fun path => !(base ++ ['\\']).isPrefixOf path) keys
    ({ code := if base ∈ r.keys then errorSuccess else errorFileNotFound }, { r with keys := keys })

end Registry

/-- The functions that answer without looking at the registry: those of `registry.rs`, of `spi.rs` and
    of `anticheat.rs`. -/
inductive Stub
  | regEnumKeyW
  | regEnumValueW
  | regResolveCustomKeyHandler
  | regCopyTreeW
  | regQueryMultipleValuesW
  | regDeleteValueW
  | regEnumKeyExW
  deriving DecidableEq

def Stub.reply : Stub → Reply
  | regEnumKeyW => { code := errorNoMoreItems }
  | regEnumValueW => { code := errorNoMoreItems }
  | regResolveCustomKeyHandler => { code := errorCallNotImplemented }
  | regCopyTreeW => { code := errorSuccess }
  | regQueryMultipleValuesW => { code := errorSuccess, len := some 0 }
  | regDeleteValueW => { code := errorFileNotFound }
  | regEnumKeyExW => { code := errorNoMoreItems }

/-! ## Calls -/

inductive Call
  | openKey (hkey : Handle) (subkey : WStr)
  | openKeyEx (hkey : Handle) (subkey : WStr) (reserved access : BitVec 32)
  | createKeyEx (hkey : Handle) (subkey : WStr) (reserved : BitVec 32) (className : WStr)
      (options access : BitVec 32)
  | closeKey (hkey : Handle)
  | queryValueEx (hkey : Handle) (name : WStr) (buffer : Buffer)
  | setValueEx (hkey : Handle) (name : WStr) (reserved regType : BitVec 32)
      (data : Option (Nat → Byte)) (cbData : BitVec 32)
  | deleteKey (hkey : Handle) (subkey : WStr)
  | queryInfoKey (hkey : Handle)
  | deleteTree (hkey : Handle) (subkey : WStr)
  | stub (fn : Stub) (hkey : Handle) (name : WStr)

namespace Registry

/-- One call against the store. Those the repository stubs out answer without looking at it. -/
def run (r : Registry) : Call → Reply × Registry
  | .openKey hkey subkey => r.regOpenKeyW hkey subkey
  | .openKeyEx hkey subkey reserved access => r.regOpenKeyExW hkey subkey reserved access
  | .createKeyEx hkey subkey reserved className options access =>
    r.regCreateKeyExW hkey subkey reserved className options access
  | .closeKey hkey => r.regCloseKey hkey
  | .queryValueEx hkey name buffer => (r.regQueryValueExW hkey name buffer, r)
  | .setValueEx hkey name reserved regType data cbData =>
    r.regSetValueExW hkey name reserved regType data cbData
  | .deleteKey hkey subkey => r.regDeleteKeyW hkey subkey
  | .queryInfoKey hkey => (r.regQueryInfoKeyW hkey, r)
  | .deleteTree hkey subkey => r.regDeleteTreeW hkey subkey
  | .stub fn _ _ => (fn.reply, r)

/-- What a run of calls returns and writes, call by call. -/
def replies (r : Registry) : List Call → List Reply
  | [] => []
  | c :: calls => (r.run c).1 :: (r.run c).2.replies calls

end Registry

/-- The handle that a call resolves. -/
def Call.target : Call → Option Handle
  | .openKey h _ | .openKeyEx h _ _ _ | .createKeyEx h _ _ _ _ _ | .queryValueEx h _ _ => some h
  | .setValueEx h _ _ _ _ _ | .deleteKey h _ | .queryInfoKey h | .deleteTree h _ => some h
  | .closeKey _ | .stub .. => none

namespace Registry

variable {r : Registry} {hkey : Handle} {subkey name : WStr} {path : Text}

theorem buildPath_none (h : r.resolvePath hkey = none) : r.buildPath hkey subkey = none := by
  unfold buildPath
  rw [h]
  rfl

theorem run_invalid {c : Call} (htarget : c.target = some hkey) (h : r.resolvePath hkey = none) :
    r.run c = ({ code := errorInvalidHandle }, r) := by
  cases c <;> cases htarget <;>
    simp only [run, regOpenKeyW, regOpenKeyExW, regCreateKeyExW, regQueryValueExW, regSetValueExW,
      regDeleteKeyW, regQueryInfoKeyW, regDeleteTreeW, buildPath_none h, h]

theorem regOpenKeyW_eq (h : r.buildPath hkey subkey = some path) : r.regOpenKeyW hkey subkey =
    ({ code := errorSuccess, handle := some r.next },
      ({ r with keys := Keyed.orDefault {} path r.keys }.mint path).2) := by
  unfold regOpenKeyW
  rw [h]
  rfl

theorem regCreateKeyExW_eq {reserved options access : BitVec 32} {className : WStr}
    (h : r.buildPath hkey subkey = some path) :
    r.regCreateKeyExW hkey subkey reserved className options access =
      ({ code := errorSuccess, handle := some r.next
         disposition := some (if path ∈ r.keys then regOpenedExistingKey else regCreatedNewKey) },
        ({ r with keys := Keyed.orDefault {} path r.keys }.mint path).2) := by
  unfold regCreateKeyExW
  rw [h]
  by_cases hmem : path ∈ r.keys
  · simp [hmem, mint]
  · simp [hmem, mint]

theorem regQueryValueExW_eq {buffer : Buffer} (h : r.resolvePath hkey = some path) :
    r.regQueryValueExW hkey name buffer =
      (((r.keys.lookup path).bind fun key => key.values.lookup (utf16ToString name)).map fun val =>
        val.reply buffer).getD { code := errorFileNotFound } := by
  simp only [regQueryValueExW, h]
  cases r.keys.lookup path with
  | none => rfl
  | some key =>
    simp only [Option.bind_some]
    cases key.values.lookup (utf16ToString name) with
    | none => rfl
    | some val => rfl

theorem regSetValueExW_eq {reserved regType cbData : BitVec 32} {data : Option (Nat → Byte)}
    (h : r.resolvePath hkey = some path) :
    r.regSetValueExW hkey name reserved regType data cbData =
      ({ code := errorSuccess },
        r.putValue path (utf16ToString name) regType (valueBytes data cbData)) := by
  unfold regSetValueExW
  rw [h]

theorem regDeleteKeyW_eq (h : r.buildPath hkey subkey = some path) : r.regDeleteKeyW hkey subkey =
    ({ code := if path ∈ r.keys then errorSuccess else errorFileNotFound },
      { r with keys := r.keys.erase path }) := by
  unfold regDeleteKeyW
  rw [h]

theorem regDeleteTreeW_eq (h : r.buildPath hkey subkey = some path) : r.regDeleteTreeW hkey subkey =
    ({ code := if path ∈ r.keys then errorSuccess else errorFileNotFound },
      { r with
        keys := Keyed.retain (fun p => !(path ++ ['\\']).isPrefixOf p) (r.keys.erase path) }) := by
  unfold regDeleteTreeW
  rw [h]

end Registry

/-! ## The values of `seed_security_defaults` -/

def neBytes16 (u : CodeUnit) : List Byte := [u.extractLsb' 0 8, u.extractLsb' 8 8]

structure Seed where
  path : Text
  name : Text
  regType : BitVec 32
  data : List Byte

def seeds : List Seed :=
  [⟨"HKLM\\SYSTEM\\CurrentControlSet\\Control\\SecureBoot\\State".toList,
      "UEFISecureBootEnabled".toList, regDword, le32 1⟩,
    ⟨"HKLM\\SYSTEM\\CurrentControlSet\\Control\\IntegrityChecks".toList, [], regDword, le32 1⟩,
    ⟨"HKLM\\HARDWARE\\DESCRIPTION\\System\\BIOS".toList, "SecureBoot".toList, regDword, le32 1⟩,
    ⟨"HKLM\\SYSTEM\\CurrentControlSet\\Control\\MemoryMap".toList, [], regSz,
      (Utf16.encode "Normal".toList ++ [0]).flatMap neBytes16⟩]

def seedSecurityDefaults (r : Registry) : Registry :=
  seeds.foldl (fun r s => r.putValue s.path s.name s.regType s.data) r

/-- The registry when guest code starts. -/
def seeded : Registry := seedSecurityDefaults .new

end WinCompat.Reg
