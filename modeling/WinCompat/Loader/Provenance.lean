import WinCompat.Loader.Implementations
import WinCompat.Loader.Resolution

/-!
# What an address was made as

The addresses of functions that the guest comes by: in IAT slots, from `GetProcAddress`, and in the
vtables of COM objects. `Ptr` keeps of an address what it was made as, and not its number, which the
kernel may give to other memory once this is released.

The events are the parts of `load_bytes`, `load_dll_ex`, `free_library` and `get_proc_address`
between which another thread, a nested load or `DllMain` can run, and the creation of COM objects
and blobs. A load has a number, by which its image and its arena go. What a load does before it has
an arena is of no account here: it leaves at most an image that nothing leads to.
-/

namespace WinCompat.Loader.Provenance

open Lib Lib.Paging
open Lib.Bytes (Word)

/-! ## COM -/

/-- A System V function. -/
inductive Fn
  /-- One in the tables of `ImplTable::build`, by its address. -/
  | listed (target : Word)
  /-- A COM method, with the number of its parameters. -/
  | method (crate : Crate) (name : String) (params : Nat)
  /-- A method of `ID3DBlob`. -/
  | blob (name : String) (params : Nat)
  | softStub
  | trapStub
  deriving DecidableEq

/-- What `make_thunk` or `make_thunk_noreturn` is asked for. -/
structure Trampoline where
  target : Fn
  nArgs : Nat
  noreturn : Bool
  deriving DecidableEq

/-- The function in a slot, the number of its parameters, and the number that its trampoline is made
    for. -/
structure Method where
  name : String
  params : Nat
  nArgs : Nat

inductive Interface
  | factory | swapchain | device | context | texture2d | rtv | buffer | vertexShader | pixelShader
  | inputLayout | state
  | device12 | commandQueue | commandList | commandAllocator | descriptorHeap | resource
  | pipelineState | rootSignature
  deriving DecidableEq

def Interface.crate : Interface → Crate
  | .device12 | .commandQueue | .commandList | .commandAllocator | .descriptorHeap | .resource
  | .pipelineState | .rootSignature => .d3d12
  | _ => .d3d11

/-- The first three slots of every vtable. -/
def iUnknown : List Method :=
  [⟨"com_query_interface", 3, 3⟩, ⟨"com_add_ref", 1, 1⟩, ⟨"com_release", 1, 1⟩]

/-- The slots after those of `IUnknown`. -/
def Interface.methods : Interface → List Method
  | .factory => [⟨"factory_enum_adapters", 3, 3⟩, ⟨"factory_create_swap_chain", 4, 4⟩]
  | .swapchain =>
    [⟨"swapchain_present", 3, 3⟩, ⟨"swapchain_get_buffer", 4, 4⟩, ⟨"swapchain_get_desc", 2, 2⟩,
      ⟨"swapchain_resize_buffers", 6, 6⟩]
  | .device =>
    [⟨"stub_create4", 4, 4⟩, ⟨"device_create_render_target_view", 4, 4⟩,
      ⟨"device_create_vertex_shader", 5, 5⟩, ⟨"device_create_pixel_shader", 5, 5⟩,
      ⟨"device_create_buffer", 4, 4⟩, ⟨"device_create_input_layout", 6, 6⟩,
      ⟨"device_create_rasterizer_state", 3, 3⟩, ⟨"device_create_blend_state", 3, 3⟩,
      ⟨"device_create_depth_stencil_state", 3, 3⟩, ⟨"device_create_depth_stencil_view", 4, 4⟩,
      ⟨"device_create_sampler_state", 3, 3⟩, ⟨"device_get_immediate_context", 2, 2⟩]
  | .context =>
    [⟨"context_om_set_render_targets", 4, 4⟩, ⟨"context_clear_render_target_view", 3, 3⟩,
      ⟨"context_vs_set_shader", 4, 4⟩, ⟨"context_ps_set_shader", 4, 4⟩, ⟨"noop_set_ptrs", 4, 4⟩,
      ⟨"noop_set_ptrs", 4, 4⟩, ⟨"noop_set_ptrs", 4, 4⟩, ⟨"noop_set_ptrs", 4, 4⟩,
      ⟨"noop_set_ptrs", 4, 4⟩, ⟨"noop_set_ptrs", 4, 4⟩, ⟨"context_ia_set_vertex_buffers", 6, 6⟩,
      ⟨"noop_ia_index_buffer", 4, 4⟩, ⟨"context_ia_set_input_layout", 2, 2⟩,
      ⟨"context_ia_set_primitive_topology", 2, 2⟩, ⟨"noop_update", 7, 7⟩, ⟨"context_draw", 3, 3⟩,
      ⟨"context_draw_indexed", 4, 4⟩, ⟨"noop_map", 6, 6⟩, ⟨"noop_unmap", 3, 3⟩,
      ⟨"context_flush", 1, 1⟩]
  | .device12 =>
    [⟨"device_create_command_queue", 4, 4⟩, ⟨"device_create_command_allocator", 4, 4⟩,
      ⟨"device_create_command_list", 7, 7⟩, ⟨"device_create_descriptor_heap", 4, 4⟩,
      ⟨"device_create_render_target_view", 4, 4⟩, ⟨"device_create_committed_resource", 8, 8⟩,
      ⟨"device_get_descriptor_handle_increment_size", 2, 2⟩]
  | .commandQueue => [⟨"queue_execute_command_lists", 3, 3⟩]
  | .commandList =>
    [⟨"cmdlist_close", 1, 1⟩, ⟨"cmdlist_set_pipeline_state", 2, 2⟩,
      ⟨"cmdlist_set_render_targets", 4, 4⟩, ⟨"cmdlist_clear_render_target_view", 5, 5⟩,
      ⟨"cmdlist_resource_barrier", 3, 3⟩, ⟨"cmdlist_draw_instanced", 5, 5⟩]
  | _ => []

/-- The vtables that a crate builds, in its order. -/
def interfaces : Crate → List Interface
  | .d3d11 =>
    [.factory, .swapchain, .device, .context, .texture2d, .rtv, .buffer, .vertexShader,
      .pixelShader, .inputLayout, .state]
  | .d3d12 =>
    [.device12, .commandQueue, .commandList, .commandAllocator, .descriptorHeap, .resource,
      .pipelineState, .rootSignature]

def comTrampoline (c : Crate) (m : Method) : Trampoline :=
  ⟨.method c m.name m.params, m.nArgs, false⟩

/-- `ComVtables::build`: the trampolines it makes. Those of `IUnknown` are shared. -/
def comTrampolines (c : Crate) : List Trampoline :=
  (iUnknown ++ (interfaces c).flatMap Interface.methods).map (comTrampoline c)

/-! ## Addresses -/

inductive Ptr
  /-- In the image of a load. -/
  | image (load : Nat) (rva : BitVec 32)
  /-- The start of a trampoline. -/
  | trampoline (arena : Nat) (t : Trampoline)
  /-- The function itself. -/
  | native (f : Fn)
  /-- Of a variable. -/
  | data (addr : Nat)
  deriving DecidableEq

/-- A vtable whose trampolines are in this arena. -/
def Interface.vtable (i : Interface) (arena : Nat) : List Ptr :=
  (iUnknown ++ i.methods).map fun m => .trampoline arena (comTrampoline i.crate m)

/-- `BLOB_VTABLE`. -/
def blobVtable : List Ptr :=
  [.native (.blob "blob_query_interface" 3), .native (.blob "blob_add_ref" 1),
    .native (.blob "blob_release" 1), .native (.blob "blob_get_buffer_pointer" 1),
    .native (.blob "blob_get_buffer_size" 1)]

/-! ## The table of a load -/

def softStub : Trampoline := ⟨.softStub, 0, false⟩

/-- What the name of an implementation leads to, in a table whose arena this is. -/
def implPtr (arena : Nat) : Impl → Ptr
  | .code target nArgs noreturn => .trampoline arena ⟨.listed target, nArgs, noreturn⟩
  | .data addr => .data addr

/-- `ImplTable::lookup`. -/
def known (s : Surface) (arena : Nat) (dll sym : String) : Option Ptr :=
  (s.impls.lookup (dll, sym)).map (implPtr arena)

def listed (spec : ImportSpec) : Trampoline := ⟨.listed spec.target, spec.nArgs, spec.noreturn⟩

/-- The trampolines that `ImplTable::build` makes. A crate's are left out where its vtables have
    been installed. -/
def trampolines (s : Surface) (installed : Crate → Option Nat) : List Trampoline :=
  let com (c : Crate) := if (installed c).isSome then [] else comTrampolines c
  s.importSpecs.map listed ++ com .d3d11 ++ s.d3d11Exports.map listed ++ com .d3d12 ++
    s.d3d12Exports.map listed ++ [softStub]

/-! ## Imports -/

/-- Which address an import is resolved to: `known` is the table, `disk` what is found in the DLL
    files. -/
def choose {π : Type} (known : String → String → Option π) (disk : Option π) (stub : π)
    (dll sym : String) : π :=
  match known dll sym with
  | some ptr =>
    if dll = "vcruntime140.dll" ∨ dll = "vcruntime140_1.dll" ∨ dll = "msvcp140.dll" then
      disk.getD ptr
    else
      ptr
  | none =>
    if dll.startsWith "api-ms-win-crt-" then
      ((known "ucrtbase.dll" sym).or (known "msvcrt.dll" sym)).getD stub
    else if dll = "vcruntime140.dll" ∨ dll = "vcruntime140_1.dll" then
      (known "ntdll.dll" sym).getD stub
    else
      disk.getD stub

/-- `export_addr`, as far as it is about the module's data: the RVA, unless the answer is NULL. -/
def exportRva (t : ExportTable) (size : Nat) (rva : BitVec 32) : Option (BitVec 32) :=
  let dir := t.exportDir
  if rva = 0 ∨ (dir.virtualAddress.toNat ≤ rva.toNat ∧
      rva.toNat < (saturatingAdd dir.virtualAddress dir.size).toNat) then
    none
  else if rva.toNat < size then some rva else none

/-- The export of that name or ordinal. -/
def findExport (t : ExportTable) (size : Nat) : ProcName → Option (BitVec 32)
  | .ordinal n => (t.functionRvaByOrdinal (BitVec.ofNat 32 n)).bind (exportRva t size)
  | .name bytes => (t.names.lookup (bytes.take maxNameLen)).bind (exportRva t size)

/-- `write_iat`: what is stored in the slots, by their RVAs, the last one written first. -/
def writeIat {π : Type} (host : Host) (size : Nat) (imports : List Import)
    (resolved : List ((String × String) × π)) : List (Nat × π) :=
  imports.foldl (fun iat imp =>
    match resolved.lookup (host.lowercase imp.dll, imp.name) with
    | none => iat
    | some ptr =>
      let rva := (BitVec.ofNat 32 imp.offset).toNat
      if rva < size then (rva, ptr) :: iat else iat) []

/-! ## The same of the loader's programs -/

/-- The address of what this is, in memory. -/
def Ptr.At (space : Space) (p : Nat) : Ptr → Prop
  | .trampoline _ ⟨.listed target, nArgs, noreturn⟩ => Leads space p (.code target nArgs noreturn)
  | .data addr => Leads space p (.data addr)
  | _ => False

theorem at_known {host : Host} (hsurface : host.surface.Ok) (hnull : host.NullUnmapped)
    {table : ImplTable} {space : Space} (h : Built host table space) (arena : Nat)
    (dll sym : String) :
    Option.Rel (Ptr.At space) (table.lookup dll sym) (known host.surface arena dll sym) := by
  have hleads := (h.leads hsurface hnull).lookup (dll, sym)
  unfold ImplTable.lookup known
  revert hleads
  generalize table.map.lookup (dll, sym) = found
  generalize host.surface.impls.lookup (dll, sym) = impl
  intro hleads
  cases hleads with
  | none => exact .none
  | @some p impl hp =>
    cases impl with
    | code target nArgs noreturn => exact .some hp
    | data addr => exact .some hp

theorem run_resolveImport_choose {host : Host} {table : ImplTable}
    {callee : Call → Sys → Option (Reply × Sys)} {imp : Import} {disk : Option Nat}
    {s s' : Holdings × Sys} (out : ResolvedImports)
    (hdisk : Attempt.run callee (tryResolveFromDisk host imp.dll imp.name) s =
      some (.ok disk, s')) :
    ∃ out' s'', Attempt.run callee (resolveImport host table imp out) s = some (.ok out', s'') ∧
      out'.resolved = ((host.lowercase imp.dll, imp.name), choose table.lookup disk
        (stubAddress host table) (host.lowercase imp.dll) imp.name) :: out.resolved := by
  unfold resolveImport choose
  cases hown : table.lookup (host.lowercase imp.dll) imp.name with
  | some ptr =>
    simp only [hown]
    split
    · rw [Attempt.run_bind_ok _ hdisk]
      cases disk with
      | none => exact ⟨_, _, rfl, rfl⟩
      | some dptr => exact ⟨_, _, rfl, rfl⟩
    · exact ⟨_, _, rfl, rfl⟩
  | none =>
    simp only [hown]
    split
    · cases table.lookup "ucrtbase.dll" imp.name with
      | some ptr => exact ⟨_, _, rfl, rfl⟩
      | none =>
        cases table.lookup "msvcrt.dll" imp.name with
        | some ptr => exact ⟨_, _, rfl, rfl⟩
        | none => exact ⟨_, _, rfl, rfl⟩
    · split
      · cases table.lookup "ntdll.dll" imp.name with
        | some ptr => exact ⟨_, _, rfl, rfl⟩
        | none => exact ⟨_, _, rfl, rfl⟩
      · rw [Attempt.run_bind_ok _ hdisk]
        cases disk with
        | none => exact ⟨_, _, rfl, rfl⟩
        | some dptr => exact ⟨_, _, rfl, rfl⟩

theorem procAddress_eq (m : LoadedModule) (name : ProcName) : m.procAddress name =
    ((findExport m.exports m.image.size name).map fun rva => m.image.base + rva.toNat).getD 0 := by
  have haddr : ∀ rva, exportAddr m rva =
      ((exportRva m.exports m.image.size rva).map fun rva => m.image.base + rva.toNat).getD 0 := by
    intro rva
    unfold exportAddr exportRva MappedImage.rvaToPtr
    dsimp only
    split
    · rfl
    · split
      · rfl
      · rfl
  cases name with
  | ordinal n =>
    dsimp only [LoadedModule.procAddress, findExport]
    cases m.exports.functionRvaByOrdinal (BitVec.ofNat 32 n) with
    | none => rfl
    | some rva => exact haddr rva
  | name bytes =>
    dsimp only [LoadedModule.procAddress, findExport]
    cases m.exports.names.lookup (bytes.take maxNameLen) with
    | none => rfl
    | some rva => exact haddr rva

/-- A slot is made writable and written. -/
def storeSlot (img : MappedImage) (e : Nat × Nat) (space : Space) : Space :=
  let slot := img.base + e.1
  let start := roundDown slot pageSize
  let len := roundUp (slot + 8) pageSize - start
  storeBytes (mprotect space (start / pageSize) (len / pageSize) .readWrite).2 slot
    (lowBytes (BitVec.ofNat 64 e.2) 8)

theorem writeIatSlot_eq (host : Host) (img : MappedImage) (resolved : SymbolMap) (space : Space)
    (imp : Import) : writeIatSlot host img resolved space imp =
      (writeIat host img.size [imp] resolved).foldr (storeSlot img) space := by
  unfold writeIatSlot writeIat MappedImage.rvaToPtr
  rw [List.foldl_cons, List.foldl_nil]
  cases resolved.lookup (host.lowercase imp.dll, imp.name) with
  | none => rfl
  | some ptr =>
    by_cases hrva : (BitVec.ofNat 32 imp.offset).toNat < img.size
    · simp only [hrva, if_pos]
      rfl
    · simp only [hrva, if_neg, not_false_eq_true]
      rfl

/-! ## The process -/

inductive Kind
  /-- `load_bytes`. -/
  | main
  /-- `load_dll_ex`, of the file with this canonical path. -/
  | dll (path : String)
  deriving DecidableEq

/-- A load that resolves its imports. -/
structure Resolving where
  kind : Kind
  size : Nat
  imports : List Import
  /-- The imports still to be resolved. -/
  rest : List Import
  resolved : List ((String × String) × Ptr)

/-- A live image: its IAT has been written, and neither it nor its arena has been released. -/
structure Image where
  kind : Kind
  size : Nat
  exports : ExportTable
  /-- The slots by their RVAs, the last one written first. -/
  iat : List (Nat × Ptr)
  /-- The load has returned: a DLL is in the registry, and a main image with its owner. -/
  entered : Bool

structure World where
  /-- The number of the next load, or of the next table that is built for a lookup. -/
  next : Nat := 0
  /-- The sizes of the images that are mapped. -/
  mapped : Nat → Option Nat := fun _ => none
  /-- The arenas that have not been dropped, each with what has been made in it. -/
  arenas : Nat → Option (List Trampoline) := fun _ => none
  resolving : Nat → Option Resolving := fun _ => none
  images : Nat → Option Image := fun _ => none
  /-- `VTABLES` of each crate: the arena with the trampolines. -/
  vtables : Crate → Option Nat := fun _ => none
  /-- What `GetProcAddress` has returned. -/
  found : List Ptr := []
  /-- The vtables of the objects that the guest has. -/
  objects : List (List Ptr) := []

namespace World

variable (w : World)

/-- `ThunkArena::with_capacity`, `ImplTable::build`. The first crate's vtables to be installed stay.
    Another thread may build at the same time: its own are then made in vain. -/
def build (s : Surface) : World :=
  { w with
    next := w.next + 1
    arenas := Function.update w.arenas w.next (some (trampolines s w.vtables))
    vtables := fun c => (w.vtables c).or (some w.next) }

/-- The arena is dropped, and the image is live no more. -/
def dropLoad (l : Nat) : World :=
  { w with
    arenas := Function.update w.arenas l none
    images := Function.update w.images l none }

def unmap (l : Nat) : World := { w with mapped := Function.update w.mapped l none }

/-- An image whose load has not returned. -/
def attaching (l : Nat) : Option Image := (w.images l).filter fun m => !m.entered

/-- A module of the registry. -/
def registered (l : Nat) : Option Image :=
  (w.images l).filter fun m => m.entered && decide (m.kind ≠ .main)

/-- `try_resolve_from_disk`, when the module `l` is the one of the first file that has the
    symbol. A search that panics ends the process: here it finds nothing. -/
def fromDisk (host : Host) (imp : Import) (l : Nat) : Option Ptr :=
  if ourDlls.contains (host.lowercase imp.dll) then none
  else
    (w.registered l).bind fun m =>
      if host.bridged ∧ ∃ found ∈ SearchPaths.importCandidates host.search imp.dll.toList,
          ∃ path ∈ host.existing found,
          (host.canonicalize path).toOption.map Kind.dll = some m.kind then
        (cString imp.name).bind fun bytes =>
          (findExport m.exports m.size (.name bytes)).map (.image l)
      else
        none

end World

/-- The address of the stub, for a load whose arena this is. -/
def stub (host : Host) (arena : Nat) : Ptr :=
  if host.softStubs then .trampoline arena softStub else .native .trapStub

inductive Event
  /-- `load_bytes` or `load_dll_ex` has mapped an image of `size` bytes and built its table. -/
  | load (kind : Kind) (size : Nat) (imports : List Import)
  /-- The body of the loop of `resolve`; `disk` is the module that a file has been loaded as. -/
  | resolve (l : Nat) (disk : Option Nat)
  /-- `write_iat`. What the image then exports is what `parse_export_table` will read. -/
  | writeIat (l : Nat) (exports : ExportTable)
  /-- The load fails after that. The image stays mapped. -/
  | fail (l : Nat)
  /-- `DllMain` has returned `FALSE`. -/
  | refuse (l : Nat)
  /-- The load returns. -/
  | enter (l : Nat)
  /-- The owner of a `PeImage` drops it. The image stays mapped. -/
  | dropPeImage (l : Nat)
  | freeLibrary (l : Nat)
  /-- `GetProcAddress`, with the handle of a loaded module. -/
  | getProcAddress (l : Nat) (name : ProcName)
  /-- `GetProcAddress`, with a handle that stands for an implemented DLL. -/
  | fakeProcAddress (off : Nat) (bytes : List Byte)
  /-- A COM object is created and handed out. -/
  | create (i : Interface)
  /-- `D3DCompile` returns a blob. -/
  | compile
  /-- The last reference to an object is released. -/
  | release (k : Nat)

def Event.next (host : Host) (w : World) : Event → Option World
  | .load kind size imports =>
    let w' := w.build host.surface
    some
      { w' with
        mapped := Function.update w.mapped w.next (some size)
        resolving := Function.update w.resolving w.next (some ⟨kind, size, imports, imports, []⟩) }
  | .resolve l disk =>
    match w.resolving l with
    | none => none
    | some r =>
      match r.rest with
      | [] => none
      | imp :: rest =>
        let dll := host.lowercase imp.dll
        let ptr := choose (known host.surface l) (disk.bind (w.fromDisk host imp)) (stub host l)
          dll imp.name
        let r' := { r with rest := rest, resolved := ((dll, imp.name), ptr) :: r.resolved }
        some { w with resolving := Function.update w.resolving l (some r') }
  | .writeIat l exports =>
    match w.resolving l with
    | none => none
    | some r =>
      if r.rest = [] then
        let m : Image :=
          ⟨r.kind, r.size, exports, Provenance.writeIat host r.size r.imports r.resolved, false⟩
        some
          { w with
            resolving := Function.update w.resolving l none
            images := Function.update w.images l (some m) }
      else none
  | .fail l => (w.attaching l).map fun _ => w.dropLoad l
  | .refuse l =>
    (w.attaching l).bind fun m =>
      if m.kind = .main then none else some ((w.dropLoad l).unmap l)
  | .enter l =>
    (w.attaching l).map fun m =>
      { w with images := Function.update w.images l (some { m with entered := true }) }
  | .dropPeImage l =>
    (w.images l).bind fun m =>
      if m.entered ∧ m.kind = .main then some (w.dropLoad l) else none
  | .freeLibrary l =>
    match w.registered l with
    | none => some w
    | some _ => some ((w.dropLoad l).unmap l)
  | .getProcAddress l name =>
    match (w.registered l).bind fun m => findExport m.exports m.size name with
    | none => some w
    | some rva => some { w with found := .image l rva :: w.found }
  | .fakeProcAddress off bytes =>
    let w' := w.build host.surface
    match known host.surface w.next (fakeModule off) (host.fromUtf8Lossy (bytes.take 256)) with
    -- The arena is leaked.
    | some ptr => some { w' with found := ptr :: w.found }
    | none => some { w' with arenas := Function.update w'.arenas w.next none }
  | .create i =>
    match w.vtables i.crate with
    | none => none
    | some arena => some { w with objects := i.vtable arena :: w.objects }
  | .compile => some { w with objects := blobVtable :: w.objects }
  | .release k =>
    if k < w.objects.length then some { w with objects := w.objects.eraseIdx k } else none

/-- Any number of loads, lookups and objects, from a process that has just started. -/
def machine (host : Host) : Machine World Event where
  init w := w = {}
  next := Event.next host

end WinCompat.Loader.Provenance
