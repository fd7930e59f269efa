import WinCompat.Loader.Exports

/-!
# Import resolution

`pe-loader/src/imports.rs`, and `write_iat`. A symbol comes from the table of implemented functions,
from a DLL on disk, or is stubbed. A DLL on disk is loaded for it, without `DllMain`, and stays
loaded whatever becomes of the load that wanted it.
-/

namespace WinCompat.Loader

open Lib Lib.Paging
open Lib.Bytes (Word)

/-- A map from `(dll, symbol)` to addresses, the last inserted first. -/
abbrev SymbolMap := List ((String × String) × Nat)

structure ImplTable where
  map : SymbolMap
  softStubThunk : Nat

def ImplTable.lookup (t : ImplTable) (dll sym : String) : Option Nat := t.map.lookup (dll, sym)

/-! ## Arenas in a load -/

/-- `ThunkArena::with_capacity`; `refused` is what becomes of an error. -/
def newArena (host : Host) (capacity : Nat) (refused : ThunkError → Stop) : Load Arena :=
  withMmap host (capacityLen capacity) fun l space os =>
    match withCapacity space capacity os with
    | .error e => (.error (refused e), l, space)
    | .ok (a, space) => (.ok a, l.withThunks a.blocks, space)

/-- `make_thunk` or `make_thunk_noreturn`, whose failure is a panic. -/
def thunk (host : Host) (msg : ThunkError → String) (target : Word) (nArgs : Nat) (noreturn : Bool)
    (a : Arena) : Load (Nat × Arena) :=
  let code := if noreturn then emitNoreturn target nArgs else emitReturning target nArgs
  withMmap host (a.growLen (roundUp a.cursor 16 + code.length)) fun l space os =>
    match if noreturn then a.makeThunkNoreturn space target nArgs os
      else a.makeThunk space target nArgs os with
    | .error e => (.error (.panic (msg e)), l, space)
    | .ok (addr, a, space) => (.ok (addr, a), l.withThunks a.blocks, space)

/-- `finalize`; `refused` is what becomes of an error. -/
def sealArena (a : Arena) (refused : ThunkError → Stop) : Load Arena :=
  onSpace fun space =>
    match a.finalize space with
    | (.ok (), a, space) => (.ok a, space)
    | (.error e, _, space) => (.error (refused e), space)

/-! ## `ImplTable::build` -/

/-- A loop that makes a thunk for every entry of a table and inserts it. -/
def thunkSpecs (host : Host) : List ImportSpec → Arena → SymbolMap → Load (Arena × SymbolMap)
  | [], a, map => return (a, map)
  | spec :: specs, a, map => do
    let (ptr, a) ← thunk host (fun e => s!"thunk for {spec.dll}!{spec.sym} failed: {e.text}")
      spec.target spec.nArgs spec.noreturn a
    thunkSpecs host specs a (((spec.dll, spec.sym), ptr) :: map)

/-- `ComVtables::build`: a thunk for every slot. -/
def thunkVtables (host : Host) : List (Word × Nat) → Arena → Load (List Nat × Arena)
  | [], a => return ([], a)
  | (target, nArgs) :: slots, a => do
    let (ptr, a) ← thunk host (fun e => s!"COM vtable thunk failed: {e.text}") target nArgs false a
    let (ptrs, a) ← thunkVtables host slots a
    return (ptr :: ptrs, a)

/-- `VTABLES.get`. -/
def getVtables (c : Crate) : Load (Option (List Nat)) := .atomically fun s => (.ok (s.2.vtables c), s)

/-- `VTABLES.set`: the first to set it has set it for good. -/
def setVtables (c : Crate) (ptrs : List Nat) : Load Unit :=
  .atomically fun s =>
    (.ok (), s.1,
      { s.2 with vtables := Function.update s.2.vtables c ((s.2.vtables c).or (some ptrs)) })

/-- `install_vtables`. -/
def installVtables (host : Host) (c : Crate) (slots : List (Word × Nat)) (a : Arena) :
    Load Arena := do
  match ← getVtables c with
  | some _ => return a
  | none =>
    let (ptrs, a) ← thunkVtables host slots a
    setVtables c ptrs
    return a

/-- Insert the entry of `(dll, sym)` under another DLL's name as well, if there is one. -/
def forward (dll : String) (map : SymbolMap) (apiset sym : String) : SymbolMap :=
  match map.lookup (dll, sym) with
  | none => map
  | some ptr => ((apiset, sym), ptr) :: map

/-- `forward_apisets`. -/
def forwardApisets (s : Surface) (map : SymbolMap) : SymbolMap :=
  let map := s.apisets.foldl (fun map apiset =>
    s.forwardSymbols.foldl (fun map sym => forward "kernel32.dll" map apiset sym) map) map
  s.apisets.foldl (fun map apiset =>
    forward "ntdll.dll" (forward "ntdll.dll" map apiset "NtTerminateProcess") apiset "NtClose") map

/-- `ImplTable::build`, with the arena as it is afterwards. -/
def ImplTable.build (host : Host) (a : Arena) : Load (Arena × ImplTable) := do
  let s := host.surface
  let (a, map) ← thunkSpecs host s.importSpecs a []
  let map := forwardApisets s map
  let a ← installVtables host .d3d11 s.d3d11Vtables a
  let (a, map) ← thunkSpecs host s.d3d11Exports a map
  let a ← installVtables host .d3d12 s.d3d12Vtables a
  let (a, map) ← thunkSpecs host s.d3d12Exports a map
  let map := s.dataExports.foldl (fun map e => e :: map) map
  let (soft, a) ← thunk host (fun _ => "soft stub thunk") s.softStub 0 false a
  return (a, ⟨map, soft⟩)

/-! ## `resolve` -/

/-- The bytes a `CString` of the symbol holds, if it can be made: a NUL cannot be in it. -/
def cString (sym : String) : Option (List Byte) :=
  let bytes := sym.toUTF8.toList.map fun b => b.toBitVec
  if bytes.contains 0 then none else some bytes

/-- The candidates that exist. -/
def Host.existing (host : Host) (found : List SearchPaths.Text) : List String :=
  (found.map String.ofList).filter host.pathExists

/-- The loop over the candidates. A candidate that cannot be loaded is passed over; a panic goes
    on up. -/
def tryCandidates (host : Host) (sym : String) : List String → Load (Option Nat)
  | [] => return none
  | path :: paths => do
    match ← .call (.load path false) with
    | .error (.panic msg) => .throw (.panic msg)
    | .error (.err _) => tryCandidates host sym paths
    | .ok h =>
      match cString sym with
      | none => return none
      | some bytes =>
        if host.bridged then
          match ← .call (.getProc h (.name bytes)) with
          | .error stop => .throw stop
          | .ok ptr => if ptr = 0 then tryCandidates host sym paths else return some ptr
        else
          tryCandidates host sym paths

/-- What `str` says of a slice, before the byte, the character and the string. -/
def sliceMessage : String := "byte index is not a char boundary"

/-- `try_resolve_from_disk`. The candidates are all found before the first is tried, and a slice
    that panics there leaves the whole of `resolve`. -/
def tryResolveFromDisk (host : Host) (dllName sym : String) : Load (Option Nat) :=
  match SearchPaths.importSearch host.lowercase host.search dllName.toList with
  | none => return none
  | some none => .throw (.panic sliceMessage)
  | some (some found) => tryCandidates host sym (host.existing found)

structure ResolvedImports where
  resolved : SymbolMap
  stubbed : List (String × String)

namespace ResolvedImports

def insert (out : ResolvedImports) (dll sym : String) (ptr : Nat) : ResolvedImports :=
  { out with resolved := ((dll, sym), ptr) :: out.resolved }

/-- No implementation: the soft stub or the trap. -/
def stub (out : ResolvedImports) (host : Host) (known : ImplTable) (dll sym : String) :
    ResolvedImports :=
  { out with stubbed := out.stubbed ++ [(dll, sym)] }.insert dll sym
    (if host.softStubs then known.softStubThunk else host.surface.trapStub)

end ResolvedImports

/-- The body of the loop of `resolve`. -/
def resolveImport (host : Host) (known : ImplTable) (imp : Import) (out : ResolvedImports) :
    Load ResolvedImports :=
  let dll := host.lowercase imp.dll
  let sym := imp.name
  match known.lookup dll sym with
  | some ptr =>
    -- A real runtime library on disk goes before the stubs of its functions.
    if dll = "vcruntime140.dll" ∨ dll = "vcruntime140_1.dll" ∨ dll = "msvcp140.dll" then do
      match ← tryResolveFromDisk host imp.dll sym with
      | some dptr => return out.insert dll sym dptr
      | none => return out.insert dll sym ptr
    else
      return out.insert dll sym ptr
  | none =>
    if dll.startsWith "api-ms-win-crt-" then
      match known.lookup "ucrtbase.dll" sym with
      | some ptr => return out.insert dll sym ptr
      | none =>
        match known.lookup "msvcrt.dll" sym with
        | some ptr => return out.insert dll sym ptr
        | none => return out.stub host known dll sym
    else if dll = "vcruntime140.dll" ∨ dll = "vcruntime140_1.dll" then
      match known.lookup "ntdll.dll" sym with
      | some ptr => return out.insert dll sym ptr
      | none => return out.stub host known dll sym
    else do
      match ← tryResolveFromDisk host imp.dll sym with
      | some ptr => return out.insert dll sym ptr
      | none => return out.stub host known dll sym

/-- `resolve`, from what has been resolved already. -/
def resolve (host : Host) (known : ImplTable) : List Import → ResolvedImports → Load ResolvedImports
  | [], out => return out
  | imp :: imps, out => do
    let out ← resolveImport host known imp out
    resolve host known imps out

/-! ## `write_iat` -/

/-- The body of the loop: the slot's pages are made writable and left so. An `mprotect` that fails
    is only logged. -/
def writeIatSlot (host : Host) (img : MappedImage) (resolved : SymbolMap) (space : Space)
    (imp : Import) : Space :=
  match resolved.lookup (host.lowercase imp.dll, imp.name) with
  | none => space
  | some ptr =>
    match img.rvaToPtr (BitVec.ofNat 32 imp.offset) with
    | none => space
    | some slot =>
      let start := roundDown slot pageSize
      let len := roundUp (slot + 8) pageSize - start
      storeBytes (mprotect space (start / pageSize) (len / pageSize) .readWrite).2 slot
        (lowBytes (BitVec.ofNat 64 ptr) 8)

def writeIat (host : Host) (img : MappedImage) (imports : List Import) (resolved : SymbolMap) :
    Load Unit :=
  onSpace fun space => (.ok (), imports.foldl (writeIatSlot host img resolved) space)

end WinCompat.Loader
