import WinCompat.Loader.Implementations
import WinCompat.Loader.Resolution

/-!
# Handles that stand for an implemented DLL

`LoadLibrary` of `win32-kernel32/src/dllload.rs`, `GetModuleHandle` of `process.rs`, and how
`GetProcAddress` takes their handles. A DLL that is implemented has no file, so that its handle is
an address in the main EXE, at an offset that says which DLL it is.

A symbol that is looked up through such a handle is found exactly if an import of it is resolved
from the table, and is of the same implementation (`links_alike`), where the EXE is at the address
that `GetProcAddress` takes it to be at. An API set stands for kernel32. There are no ordinals
behind these handles, and a DLL that `GetModuleHandle` does not know has none, though the table may
have entries for it (`unknown_though_implemented`).
-/

namespace WinCompat.Loader

open Lib Lib.Paging

/-! ## The handles -/

namespace Kernel32

/-- `register_exe_base`: the first registration counts. -/
def registerExeBase (exe : Option Nat) (base : Nat) : Option Nat := exe.or (some base)

/-- `exe_base`. -/
def exeBase (exe : Option Nat) : Nat := exe.getD 0x140000000

/-- `resolve_module_handle`, which is all that `GetModuleHandle` does. -/
def resolveModuleHandle (host : Host) (exe : Option Nat) (name : String) : Nat :=
  if name = "" then exeBase exe
  else
    let lower := host.lowercase name
    if lower = "kernel32.dll" ∨ lower = "kernel32" then exeBase exe + 0x1000
    else if lower = "ntdll.dll" ∨ lower = "ntdll" then exeBase exe + 0x2000
    else if lower = "kernelbase.dll" ∨ lower = "kernelbase" then exeBase exe + 0x3000
    else if lower.startsWith "api-ms-win-" then exeBase exe + 0x1000
    else if lower = "user32.dll" ∨ lower = "user32" then exeBase exe + 0x4000
    else if lower = "gdi32.dll" ∨ lower = "gdi32" then exeBase exe + 0x5000
    else if lower = "advapi32.dll" ∨ lower = "advapi32" then exeBase exe + 0x6000
    else 0

/-- The loop over the candidates, which stops at the first that can be loaded. -/
def loadFirst (runDllMain : Bool) : List String → Load Nat
  | [] => return 0
  | path :: paths => do
    match ← .call (.load path runDllMain) with
    | .error (.panic msg) => .throw (.panic msg)
    | .error (.err _) => loadFirst runDllMain paths
    | .ok h => if h = 0 then loadFirst runDllMain paths else return h

/-- `load_with_search`; NULL is 0. -/
def loadWithSearch (host : Host) (exe : Option Nat) (name : String) (runDllMain : Bool) :
    Load Nat :=
  if name = "" then return 0
  else
    let lower := host.lowercase name
    if lower.startsWith "api-ms-win-" then return exeBase exe + 0x1000
    else if lower = "kernel32.dll" ∨ lower = "kernel32" ∨ lower = "kernelbase.dll" ∨
        lower = "kernelbase" then return exeBase exe + 0x1000
    else if lower = "ntdll.dll" ∨ lower = "ntdll" then return exeBase exe + 0x2000
    -- No loader has been registered.
    else if host.bridged = false then return 0
    else
      match SearchPaths.candidatePaths host.search name.toList with
      | none => .throw (.panic sliceMessage)
      | some found => loadFirst runDllMain (host.existing found)

end Kernel32

open Kernel32 (resolveModuleHandle loadWithSearch)

/-! ## What they stand for -/

/-- The DLL whose functions a name in lower case is about. KERNELBASE and the API sets are other names
    for kernel32. -/
def implementedDll (lower : String) : Option String :=
  if lower = "kernel32.dll" ∨ lower = "kernel32" then some "kernel32.dll"
  else if lower = "ntdll.dll" ∨ lower = "ntdll" then some "ntdll.dll"
  else if lower = "kernelbase.dll" ∨ lower = "kernelbase" then some "kernel32.dll"
  else if lower.startsWith "api-ms-win-" then some "kernel32.dll"
  else if lower = "user32.dll" ∨ lower = "user32" then some "user32.dll"
  else if lower = "gdi32.dll" ∨ lower = "gdi32" then some "gdi32.dll"
  else if lower = "advapi32.dll" ∨ lower = "advapi32" then some "advapi32.dll"
  else none

/-- kernel32, ntdll, or an API set. -/
def AlwaysLoaded (lower : String) : Prop :=
  lower = "kernel32.dll" ∨ lower = "kernel32" ∨ lower = "ntdll.dll" ∨ lower = "ntdll" ∨
    lower.startsWith "api-ms-win-" = true

/-- In whatever load an import of the symbol is resolved, it comes from the table if `p` is not
    NULL, as an address of the implementation that `p` is of, and else it is stubbed. -/
def LinkedAs (host : Host) (dll sym : String) (p : Nat) (space : Space) : Prop :=
  ∀ known space', Built host known space' → ∀ imp : Import, imp.key host = (dll, sym) →
    ∀ callee out s, ∃ out', Attempt.run callee (resolveImport host known imp out) s =
        some (.ok out', s) ∧
      (p ≠ 0 → ∃ ptr impl, known.lookup dll sym = some ptr ∧ out' = out.insert dll sym ptr ∧
        Denotes space' ptr impl ∧ Denotes space p impl) ∧
      (p = 0 → known.lookup dll sym = none ∧ out' = out.stub host known dll sym)

/-- Through the handle `h`, symbols are found as imports from `dll` are. A lookup needs memory, and
    panics if the kernel refuses it. -/
structure FindsAs (host : Host) (h : Nat) (dll : String) : Prop where
  name : ∀ bytes callee s, Attempt.Achieves callee (getProcAddress host h (.name bytes)) s
    (fun p s' => LinkedAs host dll (host.fromUtf8Lossy (bytes.take 256)) p s'.2.space) (Panics host)
  ordinal : ∀ n callee s, Attempt.run callee (getProcAddress host h (.ordinal n)) s = some (.ok 0, s)

/-- **Dynamic linking finds what static linking finds**, for a main EXE registered at `exe`. -/
structure LinksAlike (host : Host) (exe : Option Nat) : Prop where
  /-- Loading a DLL and asking for it give one handle, whatever else the process does. -/
  same : ∀ name, name ≠ "" → AlwaysLoaded (host.lowercase name) →
    resolveModuleHandle host exe name ≠ 0 ∧ ∀ runDllMain callee s,
      Attempt.run callee (loadWithSearch host exe name runDllMain) s =
        some (.ok (resolveModuleHandle host exe name), s)
  /-- A name that stands for nothing has no handle. -/
  unknown : ∀ name, name ≠ "" →
    (resolveModuleHandle host exe name = 0 ↔ implementedDll (host.lowercase name) = none)
  symbols : Kernel32.exeBase exe = exeBase → ∀ name dll, name ≠ "" →
    implementedDll (host.lowercase name) = some dll →
    FindsAs host (resolveModuleHandle host exe name) dll
  /-- A loaded module outside the EXE's first pages is looked up as itself. -/
  real : ∀ m callee l (s : Sys), ¬ StandIn m.hModule → m.hModule ≠ 0 →
    s.modules.find? (fun m' => m'.hModule = m.hModule) = some m → ∀ n,
    Attempt.run callee (getProcAddress host m.hModule n) (l, s) = some (.ok (m.procAddress n), l, s)

/-! ## One import -/

section

variable {host : Host}

theorem not_on_disk {lower dll : String} (h : implementedDll lower = some dll) :
    ourDlls.contains dll = true ∧ ¬ IsRuntime dll ∧ dll.startsWith "api-ms-win-crt-" = false := by
  have hfive : dll = "kernel32.dll" ∨ dll = "ntdll.dll" ∨ dll = "user32.dll" ∨ dll = "gdi32.dll" ∨
      dll = "advapi32.dll" := by
    unfold implementedDll at h
    split_ifs at h
    all_goals cases h; simp
  unfold IsRuntime
  rcases hfive with rfl | rfl | rfl | rfl | rfl
  all_goals simp [ourDlls]

theorem run_resolveImport_implemented {known : ImplTable} {imp : Import} {dll sym lower : String}
    (hdll : implementedDll lower = some dll) (hkey : imp.key host = (dll, sym))
    (callee : Call → Sys → Option (Reply × Sys)) (out : ResolvedImports) (s : Holdings × Sys) :
    Attempt.run callee (resolveImport host known imp out) s =
      some (.ok (match known.lookup dll sym with
        | some ptr => out.insert dll sym ptr
        | none => out.stub host known dll sym), s) := by
  obtain ⟨hours, hruntime, hset⟩ := not_on_disk hdll
  obtain ⟨hlower, hname⟩ := Prod.mk.inj hkey
  unfold IsRuntime at hruntime
  have hsearch : SearchPaths.importSearch host.lowercase host.search imp.dll.toList = none := by
    unfold SearchPaths.importSearch
    rw [String.ofList_toList, hlower, if_pos hours]
  unfold resolveImport tryResolveFromDisk
  simp only [hlower, hname, hsearch]
  cases known.lookup dll sym with
  | some ptr =>
    simp only [if_neg hruntime]
    rfl
  | none =>
    have hvc : ¬ (dll = "vcruntime140.dll" ∨ dll = "vcruntime140_1.dll") := fun h =>
      hruntime (h.elim Or.inl fun h => Or.inr (Or.inl h))
    simp only [hset, hvc, if_false, Bool.false_eq_true]
    rfl

/-! ## One handle -/

variable {exe : Option Nat}

theorem resolveModuleHandle_eq_zero {name : String} (hname : name ≠ "") :
    resolveModuleHandle host exe name = 0 ↔ implementedDll (host.lowercase name) = none := by
  unfold resolveModuleHandle implementedDll
  rw [if_neg hname]
  dsimp only
  split_ifs
  all_goals simp

theorem fakeModule_resolveModuleHandle {name dll : String} (hexe : Kernel32.exeBase exe = exeBase)
    (hname : name ≠ "") (hdll : implementedDll (host.lowercase name) = some dll) :
    StandIn (resolveModuleHandle host exe name) ∧
      fakeModule (resolveModuleHandle host exe name - exeBase) = dll := by
  unfold resolveModuleHandle
  unfold implementedDll at hdll
  rw [if_neg hname, hexe]
  dsimp only
  split_ifs at hdll ⊢
  all_goals cases hdll
  all_goals exact ⟨by decide, rfl⟩

theorem run_loadWithSearch_alwaysLoaded {name : String} (hname : name ≠ "")
    (h : AlwaysLoaded (host.lowercase name)) (runDllMain : Bool)
    (callee : Call → Sys → Option (Reply × Sys)) (s : Holdings × Sys) :
    Attempt.run callee (loadWithSearch host exe name runDllMain) s =
      some (.ok (resolveModuleHandle host exe name), s) := by
  unfold loadWithSearch resolveModuleHandle
  unfold AlwaysLoaded at h
  rw [if_neg hname, if_neg hname]
  dsimp only
  generalize host.lowercase name = lower at h
  have hpure : ∀ h : Nat, Attempt.run callee (pure h : Load Nat) s = some (.ok h, s) := fun _ => rfl
  rcases h with rfl | rfl | rfl | rfl | hset
  · simp [hpure]
  · simp [hpure]
  · simp [hpure]
  · simp [hpure]
  · have hne : ∀ dll : String, dll.startsWith "api-ms-win-" = false → lower ≠ dll := by
      rintro dll hdll rfl
      rw [hset] at hdll
      cases hdll
    simp [hpure, hset, hne "kernel32.dll" (by simp), hne "kernel32" (by simp),
      hne "ntdll.dll" (by simp), hne "ntdll" (by simp), hne "kernelbase.dll" (by simp),
      hne "kernelbase" (by simp)]

theorem findsAs_of_standIn (hsurface : host.surface.Ok) (hnull : host.NullUnmapped) {h : Nat}
    {lower dll : String} (hin : StandIn h) (hfake : fakeModule (h - exeBase) = dll)
    (hdll : implementedDll lower = some dll) : FindsAs host h dll := by
  have hzero : h ≠ 0 := by
    intro hz
    rw [hz] at hin
    exact absurd hin (by decide)
  have hwindow : exeBase ≤ h ∧ h < exeBase + 0x10000 := hin
  constructor
  · intro bytes callee s
    have heq : getProcAddress host h (.name bytes) = fakeProcAddress host dll bytes := by
      unfold getProcAddress
      rw [if_neg hzero, if_pos hwindow, hfake]
    rw [heq]
    refine (achieves_fakeProcAddress hsurface hnull dll bytes s).mono ?_ fun _ _ h => h
    intro p s' hp known space' hbuilt imp hkey callee' out s₁
    have hlookup := (hbuilt.leads hsurface hnull).lookup
      (dll, host.fromUtf8Lossy (bytes.take 256))
    refine ⟨_, run_resolveImport_implemented hdll hkey callee' out s₁, ?_⟩
    unfold ImplTable.lookup
    cases himpl : host.surface.impls.lookup (dll, host.fromUtf8Lossy (bytes.take 256)) with
    | none =>
      rw [himpl] at hp hlookup
      cases hknown : known.map.lookup (dll, host.fromUtf8Lossy (bytes.take 256)) with
      | none => exact ⟨fun hne => absurd hp hne, fun _ => ⟨rfl, rfl⟩⟩
      | some ptr =>
        rw [hknown] at hlookup
        cases hlookup
    | some impl =>
      rw [himpl] at hp hlookup
      cases hknown : known.map.lookup (dll, host.fromUtf8Lossy (bytes.take 256)) with
      | none =>
        rw [hknown] at hlookup
        cases hlookup
      | some ptr =>
        rw [hknown] at hlookup
        cases hlookup with
        | some hptr =>
          exact ⟨fun _ => ⟨ptr, impl, rfl, rfl, hptr.2, hp.2⟩, fun hz => absurd hz hp.1⟩
  · intro n callee s
    unfold getProcAddress
    rw [if_neg hzero, if_pos hwindow]
    rfl

/-- **Dynamic and static linking agree** on what `GetModuleHandle` knows. All of it goes through one
    fact, that a stand-in handle leads back to the name it was made from. -/
theorem links_alike (hsurface : host.surface.Ok) (hnull : host.NullUnmapped) (exe : Option Nat) :
    LinksAlike host exe := by
  constructor
  · intro name hname hloaded
    refine ⟨?_, fun _ _ _ => run_loadWithSearch_alwaysLoaded hname hloaded _ _ _⟩
    intro hzero
    rw [resolveModuleHandle_eq_zero hname] at hzero
    unfold implementedDll at hzero
    unfold AlwaysLoaded at hloaded
    split_ifs at hzero
    tauto
  · intro name hname
    exact resolveModuleHandle_eq_zero hname
  · intro hexe name dll hname hdll
    obtain ⟨hin, hfake⟩ := fakeModule_resolveModuleHandle hexe hname hdll
    exact findsAs_of_standIn hsurface hnull hin hfake hdll
  · intro m callee l s hreal hzero hfind n
    rw [run_getProcAddress host callee l hreal hfind n, if_neg hzero]

end

/-! ## A small surface -/

/-- A function, one that is imported by ordinal, and a variable. -/
def smallHost : Host :=
  { raceHost with
    fromUtf8Lossy := fun bytes => String.ofList (bytes.map fun b => Char.ofNat b.toNat)
    surface :=
      { importSpecs := [⟨"kernel32.dll", "Sleep", 0x401000, 1, false⟩,
          ⟨"comctl32.dll", "ORDINAL 410", 0x402000, 4, false⟩]
        apisets := ["api-ms-win-core-synch-l1-1-0"]
        forwardSymbols := ["Sleep"]
        d3d11Vtables := [(0x403000, 2)]
        d3d11Exports := [⟨"d3d11.dll", "D3D11CreateDevice", 0x404000, 10, false⟩]
        d3d12Vtables := []
        d3d12Exports := []
        dataExports := [(("msvcrt.dll", "_fmode"), 0x5000)]
        softStub := 0x1000
        trapStub := 0x2000 } }

theorem pickPage_ne_zero (n : Nat) (space : Space) (len page : Nat)
    (h : pickPage n space len = .ok page) : page ≠ 0 := by
  unfold pickPage at h
  split_ifs at h
  cases h
  omega

theorem links_alike_small :
    LinksAlike smallHost (Kernel32.registerExeBase none 0x140000000) := by
  apply links_alike
  · constructor
    · decide
    · decide
    · decide
  · exact pickPage_ne_zero

/-- The table has a function of COMCTL32, but no handle leads to it. -/
theorem unknown_though_implemented : ∃ known space, Built smallHost known space ∧
    (known.lookup "comctl32.dll" "ORDINAL 410").isSome = true ∧
    resolveModuleHandle smallHost (Kernel32.registerExeBase none 0x140000000) "comctl32.dll" = 0 ∧
    ∀ callee s, Attempt.run callee (loadWithSearch smallHost
      (Kernel32.registerExeBase none 0x140000000) "comctl32.dll" true) s = some (.ok 0, s) := by
  have hbuild : ((Attempt.run (fun _ _ => none)
      (newArena smallHost (32 * 1024) (fun _ => .panic "") >>= ImplTable.build smallHost)
      (.none, atRest.shared)).map fun r => r.1.toOption.map fun x =>
        (x.2.lookup "comctl32.dll" "ORDINAL 410").isSome) = some (some true) := by
    decide +kernel
  obtain ⟨⟨r, s⟩, hrun, hfound⟩ := Option.map_eq_some_iff.mp hbuild
  cases r with
  | error e => cases hfound
  | ok x =>
    obtain ⟨a, known⟩ := x
    refine ⟨known, s.2.space, ⟨_, _, _, a, s, hrun, rfl⟩, Option.some.inj hfound, ?_, ?_⟩
    · decide +kernel
    · intro callee s
      have hlower : smallHost.lowercase "comctl32.dll" = "comctl32.dll" := rfl
      have hbridged : smallHost.bridged = true := rfl
      have hfound : (SearchPaths.candidatePaths smallHost.search "comctl32.dll".toList).map
          smallHost.existing = some [] := by
        decide
      obtain ⟨found, hsearch, hexisting⟩ := Option.map_eq_some_iff.mp hfound
      simp only [loadWithSearch, hlower, hbridged, hsearch, hexisting]
      simp
      rfl

end WinCompat.Loader
