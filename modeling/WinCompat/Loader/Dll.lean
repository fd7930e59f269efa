import WinCompat.Loader.Imports

/-!
# Loading a DLL

`load_dll_ex`, `free_library` and `get_proc_address` of `pe-loader/src/dllmod.rs`, with the
`map_image_anywhere` of `mapping.rs`, as programs: the locks and the system calls are their actions,
and a nested load, a lookup and `DllMain` their calls.

`MappedImage` has no `Drop`, while an arena and a stack have one: a `?` after they are made releases
these and not the image.
-/

namespace WinCompat.Loader

open Lib Lib.Paging
open Lib.Bytes (Word)

/-! ## Opening the file -/

def imageFileDll : BitVec 16 := 0x2000

/-- Everything that is checked of a file before it is mapped. -/
def openDll (host : Host) (path canonical : String) : Except Stop DllFile :=
  match host.read path with
  | .error msg => .error (.err (.read msg))
  | .ok bytes =>
    match host.goblin bytes with
    | .error msg => .error (.err (.parse msg))
    | .ok file =>
      if file.characteristics &&& imageFileDll = 0 then
        .error (.err (.bootstrap s!"{canonical} is not a DLL (IMAGE_FILE_DLL flag not set)"))
      else
        match file.optionalHeader with
        | none => .error (.err (.bootstrap "PE has no optional header"))
        | some opt => .ok ⟨bytes, file, opt⟩

/-! ## Mapping -/

theorem roundUp_page_le (v : BitVec 32) : roundUp v.toNat pageSize ≤ 2 ^ 32 := by
  have hv := v.isLt
  unfold roundUp pageSize
  omega

/-- The image of a file at a page. -/
def DllFile.imageAt (f : DllFile) (page : Nat) : MappedImage where
  basePage := page
  size := roundUp f.opt.sizeOfImage.toNat pageSize
  preferredBase := f.opt.imageBase
  size_le := roundUp_page_le _

/-- A call that fills memory. `dst` is counted from the start of the mapping and `src` from that of
    the file. -/
inductive Fill
  /-- `write_bytes`, of zeros. -/
  | zero (dst len : Nat)
  /-- `copy_nonoverlapping`. -/
  | copy (src dst len : Nat)
  deriving DecidableEq

namespace Fill

/-- Nothing is read outside a file of that length or written outside a mapping of that size. -/
def Inside (fileLen size : Nat) : Fill → Prop
  | zero dst len => dst + len ≤ size
  | copy src dst len => src + len ≤ fileLen ∧ dst + len ≤ size

def start : Fill → Nat
  | zero dst _ => dst
  | copy _ dst _ => dst

def content (bytes : List Byte) : Fill → List Byte
  | zero _ len => List.replicate len 0
  | copy src _ len => (bytes.drop src).take len

def run (bytes : List Byte) (base : Nat) (space : Space) (a : Fill) : Space :=
  storeBytes space (base + a.start) (a.content bytes)

end Fill

/-- The calls for one section, on a file and in an image of these sizes. -/
def sectionFills (fileLen size : Nat) (sec : Section) : List Fill :=
  let virtSize := sec.virtualSize.toNat
  let rva := sec.virtualAddress.toNat
  if virtSize = 0 ∨ size ≤ rva then
    []
  else
    let copyLen := min (rva + virtSize) size - rva
    let rawSize := sec.sizeOfRawData.toNat
    let rawOff := sec.pointerToRawData.toNat
    if 0 < rawSize ∧ rawOff < fileLen then
      [.zero rva copyLen, .copy rawOff rva (min (min rawSize (fileLen - rawOff)) copyLen)]
    else
      [.zero rva copyLen]

/-- The calls that copy the headers and the sections. -/
def copyFills (f : DllFile) (size : Nat) : List Fill :=
  .copy 0 0 (min (min f.opt.sizeOfHeaders.toNat f.bytes.length) size) ::
    f.file.pe.sections.flatMap (sectionFills f.bytes.length size)

theorem sectionFills_inside {fileLen size : Nat} (sec : Section) :
    ∀ a ∈ sectionFills fileLen size sec, a.Inside fileLen size := by
  unfold sectionFills
  dsimp only
  split_ifs with hskip hraw
  · exact nofun
  · simp only [List.mem_cons, List.not_mem_nil, or_false, forall_eq_or_imp, forall_eq,
      Fill.Inside]
    omega
  · simp only [List.mem_singleton, forall_eq, Fill.Inside]
    omega

theorem copyFills_inside (f : DllFile) (size : Nat) :
    ∀ a ∈ copyFills f size, a.Inside f.bytes.length size := by
  refine List.forall_mem_cons.mpr ⟨?_, fun a ha => ?_⟩
  · unfold Fill.Inside
    omega
  · obtain ⟨sec, -, hsec⟩ := List.mem_flatMap.mp ha
    exact sectionFills_inside sec a hsec

theorem Fill.Inside.start_add_length {bytes : List Byte} {size : Nat} {a : Fill}
    (h : a.Inside bytes.length size) : a.start + (a.content bytes).length ≤ size := by
  cases a with
  | zero dst len =>
    unfold Fill.start Fill.content
    rw [List.length_replicate]
    exact h
  | copy src dst len =>
    have hlen : (Fill.content bytes (.copy src dst len)).length ≤ len := by
      simp [Fill.content]
    exact Nat.le_trans (Nat.add_le_add_left hlen dst) h.2

/-- Copy the headers and the sections. The memory is fresh, so that the zeroing of all of it that
    comes first changes nothing and is left out. -/
def copyImage (f : DllFile) (img : MappedImage) (space : Space) : Space :=
  (copyFills f img.size).foldl (Fill.run f.bytes img.base) space

/-- Give each section its protection; the sections are read-write so far. -/
def protectSections (img : MappedImage) : List Section → Space → Except Stop Unit × Space
  | [], space => (.ok (), space)
  | sec :: secs, space =>
    let rva := sec.virtualAddress.toNat
    let virtSize := sec.virtualSize.toNat
    let prot := sectionProt sec.name sec.characteristics
    if virtSize = 0 ∨ img.size ≤ rva ∨ prot = .readWrite then
      protectSections img secs space
    else
      let start := roundDown rva pageSize
      let len := roundUp (min (rva + virtSize) img.size) pageSize - start
      let r := mprotect space ((img.base + start) / pageSize) (len / pageSize) prot
      if r.1 then
        protectSections img secs r.2
      else
        (.error (.err (.map (.mprotectFailed sec.name (img.base + start) len))), r.2)

/-- `map_anywhere`. -/
def mapAnywhere (host : Host) (f : DllFile) : Load MappedImage :=
  let size := roundUp f.opt.sizeOfImage.toNat pageSize
  withMmap host size fun l space os =>
    match os with
    | .error msg => (.error (.err (.mmapFailed size msg)), l, space)
    | .ok page =>
      (.ok (f.imageAt page), l.withImage (some (f.imageAt page).block),
        mapZero space page (size / pageSize) .readWrite)

/-- `map_image_anywhere`. -/
def mapImageAnywhere (host : Host) (f : DllFile) : Load MappedImage :=
  if roundUp f.opt.sizeOfImage.toNat pageSize = 0 then
    fail (.mmapFailed 0 "SizeOfImage is zero")
  else do
    let mapped ← mapAnywhere host f
    onSpace fun space => protectSections mapped f.file.pe.sections (copyImage f mapped space)
    return mapped

/-- `apply_relocations` on the shared memory. -/
def relocate (f : DllFile) (mapped : MappedImage) : Load Unit :=
  match f.opt.baseRelocationTable with
  | none => return ()
  | some dir =>
    onSpace fun space =>
      let r := applyRelocations mapped f.bytes f.file.pe dir ⟨space, []⟩
      (r.1.mapError fun e => .err (.map e), r.2.space)

/-! ## The stack of `DllMain` -/

/-- The usable megabyte and the guard page below it. -/
def stackLen : Nat := roundUp (2 ^ 20) pageSize + 4096

/-- `Stack::new_default`; `refused` is what becomes of an error, by its text. -/
def newStack (host : Host) (refused : String → Stop) : Load Block :=
  withMmap host stackLen fun l space os =>
    match os with
    | .error msg => (.error (refused s!"mmap of stack failed ({msg})"), l, space)
    | .ok page =>
      let b : Block := ⟨page, stackLen / pageSize⟩
      let r := mprotect (mapZero space page (stackLen / pageSize) .readWrite) page 1 .noAccess
      if r.1 then
        (.ok b, l.withStack (some b), r.2)
      else
        (.error (refused "mprotect of stack guard page failed (errno 12)"), l, unmapBlock r.2 b)

/-! ## The registry -/

/-- What `lookup_by_path` finds, and what the load makes of it. -/
def lookup (canonical : String) (s : Holdings × Sys) : Except Stop (Option Nat) × Holdings × Sys :=
  match s.2.modules.find? fun m => m.modulePath = canonical with
  | some m => (.ok (some m.hModule), { s.1 with checked := true }, s.2)
  | none => (.ok none, { s.1 with checked := true, claim := some canonical }, s.2)

def lookupByPath (canonical : String) : Load (Option Nat) := .atomically (lookup canonical)

/-- Enter the module in the registry, which from now on owns what the load did. -/
def register (m : LoadedModule) : Load Unit :=
  .atomically fun s =>
    (.ok (), ⟨s.1.checked, none, none, [], none⟩, { s.2 with modules := s.2.modules ++ [m] })

/-! ## `load_dll_ex` -/

/-- What a load has made by the time it comes to `DllMain`. -/
structure Bound where
  arena : Arena
  exports : ExportTable
  stack : Block

/-- From the mapped image to the stack. -/
def bindImage (host : Host) (f : DllFile) (mapped : MappedImage) : Load Bound := do
  relocate f mapped
  let arena ← newArena host (32 * 1024) fun e => .err (.bootstrap s!"thunk arena alloc: {e.text}")
  let (arena, table) ← ImplTable.build host arena
  let resolved ← resolve host table f.file.imports ⟨[], []⟩
  writeIat host mapped f.file.imports resolved.resolved
  let arena ← (sealArena arena fun e => .err (.bootstrap s!"thunk arena seal: {e.text}")).onError
    (dropArena arena)
  let exports ← onSpace fun space => (.ok (parseExportTable space mapped), space)
  let stack ← (newStack host fun msg =>
    .err (.bootstrap s!"DllMain stack allocation failed: {msg}")).onError (dropArena arena)
  return ⟨arena, exports, stack⟩

def hexDigits (n : Nat) : String := "0x" ++ String.ofList (Nat.toDigits 16 n)

/-- Drop the stack and the arena, and return the error. -/
def abandon {α : Type} (b : Bound) (e : Stop) : Load α := do
  dropStack b.stack
  dropArena b.arena
  .throw e

/-- Run `DllMain`, unless it is not to be run or there is none. Its result is an `i32`; it returns
    one, or nothing of the load goes on. -/
def attach (f : DllFile) (canonical : String) (mapped : MappedImage) (b : Bound)
    (runDllMain : Bool) : Load Unit :=
  let entryRva := f.opt.addressOfEntryPoint
  if runDllMain = false ∨ entryRva = 0 then
    return ()
  else
    match mapped.rvaToPtr entryRva with
    | none =>
      abandon b (.err (.bootstrap
        s!"DLL entrypoint RVA {hexDigits entryRva.toNat} is outside the mapped image"))
    | some entry => do
      match ← .call (.dllMain entry mapped.base) with
      | .error _ => .throw (.panic "no return from DllMain")
      | .ok result =>
        if BitVec.ofNat 32 result = 0 then do
          mapped.unmap
          abandon b (.err (.bootstrap
            s!"DllMain(DLL_PROCESS_ATTACH) for {canonical} returned FALSE; load failed"))
        else
          return ()

/-- Everything up to `DllMain`. -/
def prepare (host : Host) (f : DllFile) : Load (MappedImage × Bound) := do
  let mapped ← mapImageAnywhere host f
  let b ← bindImage host f mapped
  return (mapped, b)

/-- The load of a file that is not loaded. -/
def loadFile (host : Host) (f : DllFile) (canonical : String) (runDllMain : Bool) : Load Nat := do
  let (mapped, b) ← prepare host f
  attach f canonical mapped b runDllMain
  register ⟨canonical, b.exports, mapped, b.stack, b.arena⟩
  return mapped.base

def loadDllEx (host : Host) (path : String) (runDllMain : Bool) : Load Nat :=
  match host.canonicalize path with
  | .error msg => fail (.read msg)
  | .ok canonical => do
    match ← lookupByPath canonical with
    | some h => return h
    | none =>
      let f ← .ofExcept (openDll host path canonical)
      loadFile host f canonical runDllMain

/-! ## `free_library` -/

/-- Take the first module with this handle out of the registry. -/
def removeModule (hModule : Nat) : Load (Option LoadedModule) :=
  .atomically fun s =>
    match s.2.modules.find? fun m => m.hModule = hModule with
    | none => (.ok none, s)
    | some m =>
      (.ok (some m),
        { s.1 with
          image := some m.image.block
          thunks := m.thunkArena.blocks
          stack := some m.stack },
        { s.2 with modules := s.2.modules.eraseP fun m => m.hModule = hModule })

/-- The answer is 1 for true. An `Arc` that a lookup still holds would put the release off, and no
    more. -/
def freeLibrary (hModule : Nat) : Load Nat := do
  match ← removeModule hModule with
  | none => return 0
  | some m =>
    m.image.unmap
    dropStack m.stack
    dropArena m.thunkArena
    return 1

/-! ## `get_proc_address` -/

def exeBase : Nat := 0x140000000

/-- The DLL that a handle just above `exeBase` stands for. -/
def fakeModule (off : Nat) : String :=
  match off with
  | 0x2000 => "ntdll.dll"
  | 0x4000 => "user32.dll"
  | 0x5000 => "gdi32.dll"
  | 0x6000 => "advapi32.dll"
  | _ => "kernel32.dll"

/-- A symbol of an implemented DLL: the table is built anew, and the arena with it is kept only if
    the symbol is found. -/
def fakeProcAddress (host : Host) (dllName : String) (bytes : List Byte) : Load Nat := do
  let arena ← newArena host (32 * 1024) fun _ => .panic "thunk arena for GetProcAddress bridge"
  let (arena, table) ← ImplTable.build host arena
  let arena ← sealArena arena fun _ => .panic "seal thunk arena"
  match table.lookup dllName (host.fromUtf8Lossy (bytes.take 256)) with
  | some ptr => return ptr
  | none =>
    dropArena arena
    return 0

def getProcAddress (host : Host) (hModule : Nat) (name : ProcName) : Load Nat :=
  if hModule = 0 then
    return 0
  else if exeBase ≤ hModule ∧ hModule < exeBase + 0x10000 then
    match name with
    | .ordinal _ => return 0
    | .name bytes => fakeProcAddress host (fakeModule (hModule - exeBase)) bytes
  else
    .atomically fun s =>
      match s.2.modules.find? fun m => m.hModule = hModule with
      | none => (.ok 0, s)
      | some m => (.ok (m.procAddress name), s)

/-! ## The system -/

/-- The program behind each call; `DllMain` is the guest's. -/
def body (host : Host) : Call → Option (Proc (Holdings × Sys) Call Reply Reply)
  | .load path runDllMain => some (loadDllEx host path runDllMain)
  | .getProc hModule name => some (getProcAddress host hModule name)
  | .free hModule => some (freeLibrary hModule)
  | .dllMain _ _ => none

/-- One call after the other, nested to a given depth; `guest` is what the guest's entry points
    do. -/
def perform (host : Host) (guest : Call → Sys → Option (Reply × Sys)) :
    Nat → Call → Sys → Option (Reply × Sys)
  | 0, _, _ => none
  | depth + 1, c, s =>
    match body host c with
    | none => guest c s
    | some p => (Proc.run (perform host guest depth) p (.none, s)).map fun r => (r.1, r.2.2)

/-- Any number of threads, from an empty registry. -/
def loaderSystem (host : Host) : System Holdings Sys Call Reply where
  fresh := .none
  body := body host
  start s := s.modules = []

end WinCompat.Loader
