import WinCompat.Lib.Reentry
import WinCompat.Loader.Arena
import WinCompat.Loader.Reloc
import WinCompat.Loader.SearchPaths

/-!
# Loaded modules

The data of `pe-loader/src/dllmod.rs`, and what surrounds a load. `Host` is everything the loader
asks and does not decide: the files, goblin, the kernel's choice of addresses, and the table of
implemented functions, whose addresses are the linker's.

`Holdings` is what a call in progress owns through its local variables. A mapping that is in no
`Holdings` and in no registered module is one that nobody will release.
-/

namespace WinCompat.Loader

open Lib Lib.Paging
open Lib.Bytes (Word)

/-- `LoadError`. What the system and goblin report is kept as its text. -/
inductive LoadError
  | read (msg : String)
  | parse (msg : String)
  /-- `MapError::MmapFailed`. -/
  | mmapFailed (size : Nat) (msg : String)
  | map (e : MapError)
  | bootstrap (msg : String)
  deriving DecidableEq

/-- Why a program did not return a value. -/
inductive Stop
  | err (e : LoadError)
  | panic (msg : String)
  deriving DecidableEq

def ThunkError.text : ThunkError → String
  | .tooManyArgs n => s!"thunk argument count {n} exceeds the supported maximum of 32"
  | .allocFailed size msg => s!"failed to allocate executable thunk memory ({size} bytes): {msg}"
  | .execFailed size msg => s!"failed to make thunk memory executable ({size} bytes): {msg}"

/-! ## Files -/

/-- The fields of the optional header that the loader reads. -/
structure OptionalHeader where
  addressOfEntryPoint : BitVec 32
  imageBase : BitVec 64
  sizeOfImage : BitVec 32
  sizeOfHeaders : BitVec 32
  /-- The base relocation entry of the data directories. -/
  baseRelocationTable : Option DataDirectory
  deriving DecidableEq

structure Import where
  dll : String
  name : String
  /-- goblin's `offset`: the RVA of the IAT slot. -/
  offset : Nat
  deriving DecidableEq

/-- A file as goblin parses it. -/
structure PeFile where
  pe : Pe
  characteristics : BitVec 16
  optionalHeader : Option OptionalHeader
  imports : List Import
  deriving DecidableEq

/-- A file that is a DLL. -/
structure DllFile where
  bytes : List Byte
  file : PeFile
  opt : OptionalHeader
  deriving DecidableEq

/-! ## The implemented functions -/

structure ImportSpec where
  dll : String
  sym : String
  target : Word
  nArgs : Nat
  noreturn : Bool

/-- The crates that have COM vtables. -/
inductive Crate
  /-- `d3d11-com`, which is DXGI as well. -/
  | d3d11
  | d3d12
  deriving DecidableEq

/-- The tables that `ImplTable::build` goes through, in its order. -/
structure Surface where
  importSpecs : List ImportSpec
  apisets : List String
  forwardSymbols : List String
  d3d11Vtables : List (Word × Nat)
  d3d11Exports : List ImportSpec
  d3d12Vtables : List (Word × Nat)
  d3d12Exports : List ImportSpec
  /-- Data symbols, by address. -/
  dataExports : List ((String × String) × Nat)
  softStub : Word
  trapStub : Nat

/-- What the loader is told. -/
structure Host where
  /-- `std::fs::canonicalize`, as the string that modules are registered under. -/
  canonicalize : String → Except String String
  read : String → Except String (List Byte)
  goblin : List Byte → Except String PeFile
  /-- `str::to_lowercase`. -/
  lowercase : String → String
  /-- `String::from_utf8_lossy`. -/
  fromUtf8Lossy : List Byte → String
  /-- Where DLLs are looked for. -/
  search : SearchPaths.Env
  /-- `Path::exists`. -/
  pathExists : String → Bool
  surface : Surface
  /-- `NIGG_SOFT_STUBS`. -/
  softStubs : Bool
  /-- The kernel32 bridge has been registered. -/
  bridged : Bool
  /-- What the kernel answers in the `n`-th action that may ask it for memory. -/
  mmap : Nat → Space → Nat → MmapAnswer
  mmap_fresh : ∀ n space len, FreshAnswer space len (mmap n space len)

/-! ## Modules -/

/-- `ExportTable`. The map of names is a list, the last inserted first. -/
structure ExportTable where
  names : List (List Byte × BitVec 32)
  functionRvas : List (BitVec 32)
  ordinalBase : BitVec 32
  /-- `ExportDirSpan`. -/
  exportDir : DataDirectory

structure LoadedModule where
  modulePath : String
  exports : ExportTable
  image : MappedImage
  stack : Block
  thunkArena : Arena

def MappedImage.block (img : MappedImage) : Block := ⟨img.basePage, img.size / pageSize⟩

namespace LoadedModule

/-- The `HMODULE`. -/
def hModule (m : LoadedModule) : Nat := m.image.base

end LoadedModule

/-- What all threads share. `asked` counts the actions that may have asked the kernel for memory. -/
structure Sys where
  space : Space
  modules : List LoadedModule
  asked : Nat
  /-- `VTABLES` of each crate: the trampolines in the slots, once it has been set. -/
  vtables : Crate → Option (List Nat)

/-- What a call in progress owns. `claim` is the path a load has found not to be loaded; nothing
    reads it, nor `checked`, which says that the load has looked. -/
structure Holdings where
  checked : Bool
  claim : Option String
  image : Option Block
  thunks : List Block
  stack : Option Block
  deriving DecidableEq

namespace Holdings

def none : Holdings := ⟨false, .none, .none, [], .none⟩

def blocks (l : Holdings) : List Block := l.image.toList ++ l.thunks ++ l.stack.toList

def withImage (l : Holdings) (b : Option Block) : Holdings := { l with image := b }

def withThunks (l : Holdings) (bs : List Block) : Holdings := { l with thunks := bs }

def withStack (l : Holdings) (b : Option Block) : Holdings := { l with stack := b }

end Holdings

/-- The blocks a module owns. -/
def LoadedModule.blocks (m : LoadedModule) : List Block :=
  [m.image.block] ++ m.thunkArena.blocks ++ [m.stack]

/-- The name argument of `GetProcAddress`: below `0x10000` it is an ordinal. -/
inductive ProcName
  | ordinal (n : Nat)
  | name (bytes : List Byte)
  deriving DecidableEq

inductive Call
  /-- `load_dll_ex`. -/
  | load (path : String) (runDllMain : Bool)
  | getProc (hModule : Nat) (name : ProcName)
  | free (hModule : Nat)
  /-- The entry point of a DLL, with the handle it is told. -/
  | dllMain (entry hModule : Nat)
  deriving DecidableEq

/-- Every call answers with a word, if it answers. -/
abbrev Reply := Except Stop Nat

abbrev Load := Attempt (Holdings × Sys) Call Reply Stop

/-! ## Actions -/

def fail {α : Type} (e : LoadError) : Load α := .throw (.err e)

/-- An action on memory that is nobody else's. -/
def onSpace {α : Type} (f : Space → Except Stop α × Space) : Load α :=
  .atomically fun s => ((f s.2.space).1, s.1, { s.2 with space := (f s.2.space).2 })

/-- An action that may map `len` bytes of anonymous memory, by the kernel's answer. -/
def withMmap {α : Type} (host : Host) (len : Nat)
    (f : Holdings → Space → MmapAnswer → Except Stop α × Holdings × Space) : Load α :=
  .atomically fun s =>
    let r := f s.1 s.2.space (host.mmap s.2.asked s.2.space len)
    (r.1, r.2.1, { s.2 with space := r.2.2, asked := s.2.asked + 1 })

def unmapBlock (space : Space) (b : Block) : Space := unmap space b.page b.count

def unmapBlocks (space : Space) : List Block → Space
  | [] => space
  | b :: bs => unmapBlocks (unmapBlock space b) bs

/-- `ThunkArena::drop`. -/
def dropArena (a : Arena) : Load Unit :=
  .atomically fun s =>
    (.ok (), s.1.withThunks [], { s.2 with space := unmapBlocks s.2.space a.blocks })

/-- `Stack::drop`. -/
def dropStack (b : Block) : Load Unit :=
  .atomically fun s => (.ok (), s.1.withStack none, { s.2 with space := unmapBlock s.2.space b })

/-- `MappedImage::unmap`. -/
def MappedImage.unmap (img : MappedImage) : Load Unit :=
  .atomically fun s =>
    (.ok (), s.1.withImage none, { s.2 with space := unmapBlock s.2.space img.block })

end WinCompat.Loader
