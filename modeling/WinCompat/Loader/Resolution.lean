import WinCompat.Loader.ExportLookup

/-!
# What an import is bound to

`resolve` as a function of the import list, the table and the DLL files. `places` says in what order
a symbol of a DLL is looked for; the first place that has it gives the address, and where none has
it the import is stubbed. A run of `resolve`, whatever order the list is in, binds every import so
and stubs no other (`resolve_meets`).

The files come in as what the loader answers about them (`DllFiles`): the handle for a path, which
stays the same from the first load on, and the addresses behind a handle. `ofSys` are the files of a
process that has them loaded, and the loader's own programs answer so (`ofSys_serves`).

Two kinds of import are left out of `Plain`, as the code means to serve them and does not. The
aliases of the `api-ms-win-core-` sets are entered without the `.dll` that every import has, so that
none is ever found; and an ordinal that comes to a file is looked up there as a name.
-/

namespace WinCompat.Loader

open Lib Lib.Paging

/-! ## The DLL files -/

structure DllFiles where
  /-- The handle of the module, or why the file cannot be loaded. -/
  load : String → Except LoadError Nat
  /-- The address of an export, or 0. -/
  getProc : Nat → ProcName → Nat

namespace DllFiles

/-- While `I` holds, and it goes on holding, loads and lookups are answered from the files. `I`
    stands for all that may have been registered by then, so nested loads are covered. -/
structure Serves (files : DllFiles) (callee : Call → Sys → Option (Reply × Sys)) (I : Sys → Prop) :
    Prop where
  load : ∀ path s, I s → ∃ s', I s' ∧
    callee (.load path false) s = some ((files.load path).mapError .err, s')
  getProc : ∀ path h name s, files.load path = .ok h → I s → ∃ s', I s' ∧
    callee (.getProc h name) s = some (.ok (files.getProc h name), s')

/-- What `GetProcAddress` answers: nothing, before the bridge is registered. -/
def procOf (files : DllFiles) (host : Host) (h : Nat) (bytes : List Byte) : Nat :=
  if host.bridged then files.getProc h (.name bytes) else 0

/-- The export of that name, of the file at `path`. -/
def exportAt (files : DllFiles) (host : Host) (bytes : List Byte) (path : String) : Option Nat :=
  match files.load path with
  | .error _ => none
  | .ok h => if files.procOf host h bytes = 0 then none else some (files.procOf host h bytes)

/-- The export of that name, of the first file in the search path that can be loaded and has it.
    No file is looked for in place of a DLL that is implemented. -/
def exportOf (files : DllFiles) (host : Host) (dllName sym : String) : Option Nat :=
  if ourDlls.contains (host.lowercase dllName) then none
  else
    (cString sym).bind fun bytes =>
      (host.existing (SearchPaths.candidates host.search dllName.toList)).findSome?
        (files.exportAt host bytes)

end DllFiles

/-! ## Where a symbol is looked for -/

inductive Place
  /-- The table's entry under this DLL's name. -/
  | table (dll : String)
  /-- The DLL files. -/
  | disk
  deriving DecidableEq

/-- A VCRUNTIME140 symbol the table lacks is one that is implemented under ntdll. -/
def places (known : ImplTable) (dll sym : String) : List Place :=
  if dll = "vcruntime140.dll" ∨ dll = "vcruntime140_1.dll" then
    if (known.lookup dll sym).isSome then [.disk, .table dll] else [.table "ntdll.dll"]
  else if dll = "msvcp140.dll" then [.disk, .table dll]
  else if dll.startsWith "api-ms-win-crt-" then
    [.table dll, .table "ucrtbase.dll", .table "msvcrt.dll"]
  else [.table dll, .disk]

/-- The search comes to the DLL files: nothing before them has the symbol. -/
def comesToDisk (known : ImplTable) (sym : String) : List Place → Bool
  | [] => false
  | .disk :: _ => true
  | .table dll :: rest => (known.lookup dll sym).isNone && comesToDisk known sym rest

section

variable (host : Host) (known : ImplTable) (files : DllFiles)

def Place.find (imp : Import) : Place → Option Nat
  | .table dll => known.lookup dll imp.name
  | .disk => files.exportOf host imp.dll imp.name

/-- What an import is bound to, if anything has it. -/
def binding (imp : Import) : Option Nat :=
  (places known (host.lowercase imp.dll) imp.name).findSome? fun p => p.find host known files imp

/-- What is called in place of what nothing has. -/
def stubAddress : Nat := if host.softStubs then known.softStubThunk else host.surface.trapStub

/-- What the loader knows an import by. -/
def Import.key (imp : Import) : String × String := (host.lowercase imp.dll, imp.name)

/-- A symbol that is forwarded to the `api-ms-win-core-` sets, under such a name, and not in the
    table under it. -/
def CoreAlias (imp : Import) : Prop :=
  (host.lowercase imp.dll).startsWith "api-ms-win-core-" = true ∧
    (imp.name ∈ host.surface.forwardSymbols ∨ imp.name = "NtTerminateProcess" ∨
      imp.name = "NtClose") ∧
    known.lookup (host.lowercase imp.dll) imp.name = none

/-- An import by ordinal, in goblin's words, that comes to the DLL files. -/
def OrdinalOnDisk (imp : Import) : Prop :=
  (∃ n : BitVec 16, imp.name = s!"ORDINAL {n.toNat}") ∧
    comesToDisk known imp.name (places known (host.lowercase imp.dll) imp.name) = true

/-- Neither of the two kinds. -/
def Plain (imp : Import) : Prop := ¬ CoreAlias host known imp ∧ ¬ OrdinalOnDisk host known imp

/-- What a list of imports is to be resolved to. -/
structure Resolved (imports : List Import) (out : ResolvedImports) : Prop where
  /-- Each import has one address, and a plain one that of the first place that has it. -/
  address : ∀ imp ∈ imports, ∃ a, out.resolved.lookup (imp.key host) = some a ∧
    (Plain host known imp → a = (binding host known files imp).getD (stubAddress host known))
  /-- Nothing else has an address. -/
  only : ∀ k a, out.resolved.lookup k = some a → ∃ imp ∈ imports, imp.key host = k
  /-- A plain import is listed as stubbed if and only if no place has it. -/
  stubbed : ∀ imp ∈ imports, Plain host known imp →
    (imp.key host ∈ out.stubbed ↔ binding host known files imp = none)
  /-- Only imports are listed. -/
  stubbed_only : ∀ k ∈ out.stubbed, ∃ imp ∈ imports, imp.key host = k

/-- A run of `resolve` answers, with what the list is to be resolved to; and for the same imports in
    another order it answers with the same addresses and the same stubs. -/
def Resolves (callee : Call → Sys → Option (Reply × Sys)) (imports : List Import) (l : Holdings)
    (s : Sys) : Prop :=
  ∃ out s', Attempt.run callee (resolve host known imports ⟨[], []⟩) (l, s) = some (.ok out, l, s') ∧
    Resolved host known files imports out ∧
    ∀ imports', imports'.Perm imports → ∃ out' s'',
      Attempt.run callee (resolve host known imports' ⟨[], []⟩) (l, s) = some (.ok out', l, s'') ∧
      (∀ k, out'.resolved.lookup k = out.resolved.lookup k) ∧ out'.stubbed.Perm out.stubbed

/-- The list spells the name of a DLL in one way: the files are looked for as it is spelled, while
    the results are kept under the name in lower case. -/
def SpelledOnce (imports : List Import) : Prop :=
  ∀ imp ∈ imports, ∀ imp' ∈ imports, host.lowercase imp.dll = host.lowercase imp'.dll →
    imp.dll = imp'.dll

/-- The search for a DLL of this name does not panic: no path that it looks at has the fourth byte
    from its end inside a character. A name that ends in `.dll`, as the names in PE files do, is
    such a name in any directory. -/
def Searchable (dllName : String) : Prop :=
  ∀ base ∈ SearchPaths.bases host.search dllName.toList, SearchPaths.AtChar base

end

/-! ## One import -/

section

variable {host : Host} {known : ImplTable} {files : DllFiles}
  {callee : Call → Sys → Option (Reply × Sys)} {I : Sys → Prop}

theorem run_tryCandidates (hserves : files.Serves callee I) (sym : String) (l : Holdings)
    (paths : List String) : ∀ s, I s → ∃ s', I s' ∧
      Attempt.run callee (tryCandidates host sym paths) (l, s) =
        some (.ok ((cString sym).bind fun bytes => paths.findSome? (files.exportAt host bytes)),
          l, s') := by
  induction paths with
  | nil =>
    intro s hs
    refine ⟨s, hs, ?_⟩
    cases cString sym <;> rfl
  | cons path paths ih =>
    intro s hs
    obtain ⟨s₁, hs₁, hload⟩ := hserves.load path s hs
    have hcall : Attempt.run callee (Attempt.call (Call.load path false) : Load Reply) (l, s) =
        some (.ok ((files.load path).mapError .err), l, s₁) := by
      rw [Attempt.run_call, hload]
      rfl
    unfold tryCandidates
    rw [Attempt.run_bind_ok _ hcall]
    simp only [List.findSome?_cons, DllFiles.exportAt]
    cases hfile : files.load path with
    | error e => exact ih s₁ hs₁
    | ok h =>
      simp only [Except.mapError]
      cases hsym : cString sym with
      | none => exact ⟨s₁, hs₁, rfl⟩
      | some bytes =>
        have hrest := ih
        rw [hsym] at hrest
        simp only [Option.bind_some, DllFiles.procOf]
        by_cases hbridged : host.bridged = true
        · obtain ⟨s₂, hs₂, hproc⟩ := hserves.getProc path h (.name bytes) s₁ hfile hs₁
          have hlook : Attempt.run callee
              (Attempt.call (Call.getProc h (.name bytes)) : Load Reply) (l, s₁) =
                some (.ok (.ok (files.getProc h (.name bytes))), l, s₂) := by
            rw [Attempt.run_call, hproc]
            rfl
          simp only [if_pos hbridged]
          rw [Attempt.run_bind_ok _ hlook]
          dsimp only
          split
          · exact hrest s₂ hs₂
          · exact ⟨s₂, hs₂, rfl⟩
        · simp only [if_neg hbridged]
          exact hrest s₁ hs₁

theorem run_tryResolveFromDisk (hserves : files.Serves callee I) {dllName : String} (sym : String)
    (hsearch : Searchable host dllName) (l : Holdings) {s : Sys} (hs : I s) : ∃ s', I s' ∧
      Attempt.run callee (tryResolveFromDisk host dllName sym) (l, s) =
        some (.ok (files.exportOf host dllName sym), l, s') := by
  unfold tryResolveFromDisk SearchPaths.importSearch DllFiles.exportOf
  rw [String.ofList_toList, SearchPaths.importCandidates_eq,
    SearchPaths.candidatePaths_of_atChar hsearch]
  by_cases hours : ourDlls.contains (host.lowercase dllName) = true
  · rw [if_pos hours, if_pos hours]
    exact ⟨s, hs, rfl⟩
  · rw [if_neg hours, if_neg hours]
    exact run_tryCandidates hserves sym l _ s hs

/-- An import is recorded with what it is bound to. -/
def ResolvedImports.add (host : Host) (known : ImplTable) (imp : Import) (found : Option Nat)
    (out : ResolvedImports) : ResolvedImports :=
  match found with
  | some ptr => out.insert (host.lowercase imp.dll) imp.name ptr
  | none => out.stub host known (host.lowercase imp.dll) imp.name

/-- A DLL whose functions a real file may have. -/
def IsRuntime (dll : String) : Prop :=
  dll = "vcruntime140.dll" ∨ dll = "vcruntime140_1.dll" ∨ dll = "msvcp140.dll"

/-- One place after the other. -/
@[simp] theorem findSome?_places (f : Place → Option Nat) (p : Place) (ps : List Place) :
    (p :: ps).findSome? f = (f p).or (ps.findSome? f) := by
  rw [List.findSome?_cons]
  cases f p <;> rfl

theorem binding_own {imp : Import} {ptr : Nat}
    (hown : known.lookup (host.lowercase imp.dll) imp.name = some ptr) :
    (IsRuntime (host.lowercase imp.dll) → binding host known files imp =
      (files.exportOf host imp.dll imp.name).or (some ptr)) ∧
    (¬ IsRuntime (host.lowercase imp.dll) → binding host known files imp = some ptr) := by
  unfold binding places IsRuntime
  generalize host.lowercase imp.dll = dll at hown
  constructor
  · rintro (rfl | rfl | rfl) <;> simp [hown, Place.find, -Option.or_some]
  · intro hnot
    obtain ⟨h₁, h₂, h₃⟩ : dll ≠ "vcruntime140.dll" ∧ dll ≠ "vcruntime140_1.dll" ∧
        dll ≠ "msvcp140.dll" := by simpa using hnot
    rw [if_neg (by simp [h₁, h₂]), if_neg h₃]
    split <;> simp [hown, Place.find]

theorem binding_lacking {imp : Import}
    (hown : known.lookup (host.lowercase imp.dll) imp.name = none) :
    binding host known files imp =
      if (host.lowercase imp.dll).startsWith "api-ms-win-crt-" then
        (known.lookup "ucrtbase.dll" imp.name).or (known.lookup "msvcrt.dll" imp.name)
      else if host.lowercase imp.dll = "vcruntime140.dll" ∨
          host.lowercase imp.dll = "vcruntime140_1.dll" then known.lookup "ntdll.dll" imp.name
      else files.exportOf host imp.dll imp.name := by
  unfold binding places
  generalize host.lowercase imp.dll = dll at hown
  by_cases hruntime : dll = "vcruntime140.dll" ∨ dll = "vcruntime140_1.dll"
  · have hset : dll.startsWith "api-ms-win-crt-" = false := by
      obtain rfl | rfl := hruntime <;> simp
    simp [hruntime, hset, hown, Place.find]
  · rw [if_neg hruntime, if_neg hruntime]
    by_cases hmsvcp : dll = "msvcp140.dll"
    · subst hmsvcp
      simp [hown, Place.find]
    · rw [if_neg hmsvcp]
      split <;> simp [hown, Place.find]

theorem run_resolveImport (hserves : files.Serves callee I) {imp : Import} (out : ResolvedImports)
    (hsearch : Searchable host imp.dll) (l : Holdings) {s : Sys} (hs : I s) : ∃ s', I s' ∧
      Attempt.run callee (resolveImport host known imp out) (l, s) =
        some (.ok (out.add host known imp (binding host known files imp)), l, s') := by
  obtain ⟨s₁, hs₁, hdisk⟩ := @run_tryResolveFromDisk host files _ _ hserves _
    imp.name hsearch l _ hs
  unfold resolveImport
  cases hown : known.lookup (host.lowercase imp.dll) imp.name with
  | some ptr =>
    obtain ⟨hruntime, hother⟩ := @binding_own host known files imp ptr hown
    simp only [hown]
    split
    · rename_i hdll
      rw [hruntime hdll, Attempt.run_bind_ok _ hdisk]
      refine ⟨s₁, hs₁, ?_⟩
      cases files.exportOf host imp.dll imp.name <;> rfl
    · rename_i hdll
      rw [hother hdll]
      exact ⟨s, hs, rfl⟩
  | none =>
    rw [binding_lacking hown]
    simp only [hown]
    split
    · refine ⟨s, hs, ?_⟩
      cases known.lookup "ucrtbase.dll" imp.name with
      | some ptr =>
        simp only [Option.some_or]
        rfl
      | none =>
        simp only [Option.none_or]
        cases known.lookup "msvcrt.dll" imp.name <;> rfl
    · split
      · refine ⟨s, hs, ?_⟩
        cases known.lookup "ntdll.dll" imp.name <;> rfl
      · rw [Attempt.run_bind_ok _ hdisk]
        refine ⟨s₁, hs₁, ?_⟩
        cases files.exportOf host imp.dll imp.name <;> rfl

/-! ## The list -/

theorem run_resolve (hserves : files.Serves callee I) (l : Holdings) (imports : List Import) :
    (∀ imp ∈ imports, Searchable host imp.dll) →
    ∀ (out : ResolvedImports) (s : Sys), I s → ∃ s', I s' ∧
      Attempt.run callee (resolve host known imports out) (l, s) =
        some (.ok (imports.foldl (fun out imp =>
          out.add host known imp (binding host known files imp)) out), l, s') := by
  induction imports with
  | nil => exact fun _ out s hs => ⟨s, hs, rfl⟩
  | cons imp imps ih =>
    intro hsearch out s hs
    rw [List.forall_mem_cons] at hsearch
    obtain ⟨s₁, hs₁, hone⟩ := @run_resolveImport host known files _ _ hserves _ out hsearch.1 l _ hs
    obtain ⟨s₂, hs₂, hrest⟩ := ih hsearch.2 (out.add host known imp (binding host known files imp)) s₁ hs₁
    refine ⟨s₂, hs₂, ?_⟩
    unfold resolve
    rw [Attempt.run_bind_ok _ hone]
    exact hrest

variable (host known files) in
/-- The address an import is given. -/
def addressOf (imp : Import) : Nat :=
  (binding host known files imp).getD (stubAddress host known)

theorem add_resolved (imp : Import) (out : ResolvedImports) :
    (out.add host known imp (binding host known files imp)).resolved =
      (imp.key host, addressOf host known files imp) :: out.resolved := by
  unfold addressOf
  cases binding host known files imp <;> rfl

theorem add_stubbed (imp : Import) (out : ResolvedImports) :
    (out.add host known imp (binding host known files imp)).stubbed =
      out.stubbed ++ if binding host known files imp = none then [imp.key host] else [] := by
  cases binding host known files imp with
  | none => rfl
  | some ptr => exact (List.append_nil _).symm

theorem foldl_resolved (imports : List Import) : ∀ out : ResolvedImports,
    (imports.foldl (fun out imp => out.add host known imp (binding host known files imp))
      out).resolved =
      (imports.map fun imp => (imp.key host, addressOf host known files imp)).reverse ++
        out.resolved := by
  induction imports with
  | nil => exact fun _ => rfl
  | cons imp imps ih =>
    intro out
    rw [List.foldl_cons, ih, add_resolved, List.map_cons, List.reverse_cons, List.append_assoc]
    rfl

theorem foldl_stubbed (imports : List Import) : ∀ out : ResolvedImports,
    (imports.foldl (fun out imp => out.add host known imp (binding host known files imp))
      out).stubbed =
      out.stubbed ++ (imports.filter fun imp => binding host known files imp = none).map
        (Import.key host) := by
  induction imports with
  | nil => exact fun _ => (List.append_nil _).symm
  | cons imp imps ih =>
    intro out
    rw [List.foldl_cons, ih, add_stubbed, List.filter_cons, List.append_assoc]
    by_cases h : binding host known files imp = none
    · simp [h]
    · simp [h]

theorem SpelledOnce.alike {imports : List Import} (h : SpelledOnce host imports)
    {imp imp' : Import} (hmem : imp ∈ imports) (hmem' : imp' ∈ imports)
    (hkey : imp.key host = imp'.key host) :
    binding host known files imp = binding host known files imp' := by
  obtain ⟨hdll, hname⟩ := Prod.mk.inj hkey
  have hspelled := h imp hmem imp' hmem' hdll
  unfold binding
  rw [hdll, hname]
  congr 1
  funext p
  cases p with
  | table dll => exact congrArg (known.lookup dll) hname
  | disk => rw [Place.find, Place.find, hspelled, hname]

theorem resolved_of_lists {imports : List Import} {out : ResolvedImports}
    (hspelled : SpelledOnce host imports)
    (hresolved : out.resolved =
      (imports.map fun imp => (imp.key host, addressOf host known files imp)).reverse)
    (hstubbed : out.stubbed =
      (imports.filter fun imp => binding host known files imp = none).map (Import.key host)) :
    Resolved host known files imports out ∧ ∀ k a, out.resolved.lookup k = some a ↔
      ∃ imp ∈ imports, imp.key host = k ∧ addressOf host known files imp = a := by
  have hmem : ∀ k a, (k, a) ∈ out.resolved ↔
      ∃ imp ∈ imports, imp.key host = k ∧ addressOf host known files imp = a := by
    intro k a
    rw [hresolved, List.mem_reverse, List.mem_map]
    simp only [Prod.mk.injEq]
  have hlookup : ∀ k a, out.resolved.lookup k = some a ↔
      ∃ imp ∈ imports, imp.key host = k ∧ addressOf host known files imp = a := by
    intro k a
    rw [← hmem]
    apply Assoc.lookup_eq_some_iff_mem
    intro k v v' hv hv'
    obtain ⟨imp, himp, hkey, rfl⟩ := (hmem k v).mp hv
    obtain ⟨imp', himp', hkey', rfl⟩ := (hmem k v').mp hv'
    unfold addressOf
    rw [hspelled.alike himp himp' (hkey.trans hkey'.symm)]
  refine ⟨⟨?_, ?_, ?_, ?_⟩, hlookup⟩
  · intro imp himp
    exact ⟨_, (hlookup _ _).mpr ⟨imp, himp, rfl, rfl⟩, fun _ => rfl⟩
  · intro k a h
    obtain ⟨imp, himp, hkey, _⟩ := (hlookup k a).mp h
    exact ⟨imp, himp, hkey⟩
  · intro imp himp _
    rw [hstubbed, List.mem_map]
    constructor
    · rintro ⟨imp', h', hkey⟩
      obtain ⟨himp', hnone⟩ := List.mem_filter.mp h'
      rw [← hspelled.alike himp' himp hkey]
      exact of_decide_eq_true hnone
    · exact fun hnone => ⟨imp, List.mem_filter.mpr ⟨himp, decide_eq_true hnone⟩, rfl⟩
  · intro k hk
    rw [hstubbed] at hk
    obtain ⟨imp, himp, hkey⟩ := List.mem_map.mp hk
    exact ⟨imp, (List.mem_filter.mp himp).1, hkey⟩

/-- **Import resolution**, for any list of names that can be searched for, each spelled in one way,
    any table and any DLL files. Every import adds one entry to the map and at most one to the
    stubs, whatever came before it, so that the order shows in neither. -/
theorem resolve_meets (hserves : files.Serves callee I) {imports : List Import}
    (hsearch : ∀ imp ∈ imports, Searchable host imp.dll) (hspelled : SpelledOnce host imports)
    (l : Holdings) {s : Sys} (hs : I s) : Resolves host known files callee imports l s := by
  have hrun : ∀ imports', (∀ imp ∈ imports', Searchable host imp.dll) →
      SpelledOnce host imports' → ∃ out s',
      Attempt.run callee (resolve host known imports' ⟨[], []⟩) (l, s) = some (.ok out, l, s') ∧
      out.stubbed = (imports'.filter fun imp => binding host known files imp = none).map
        (Import.key host) ∧
      Resolved host known files imports' out ∧ ∀ k a, out.resolved.lookup k = some a ↔
        ∃ imp ∈ imports', imp.key host = k ∧ addressOf host known files imp = a := by
    intro imports' hsearch' hspelled'
    obtain ⟨s', _, hrun⟩ :=
      @run_resolve host known files _ _ hserves l imports' hsearch' ⟨[], []⟩ s hs
    have hresolved := @foldl_resolved host known files imports' ⟨[], []⟩
    have hstubbed := @foldl_stubbed host known files imports' ⟨[], []⟩
    rw [List.append_nil] at hresolved
    rw [List.nil_append] at hstubbed
    exact ⟨_, s', hrun, hstubbed, resolved_of_lists hspelled' hresolved hstubbed⟩
  obtain ⟨out, s', hout, hstubbed, hresolved, hlookup⟩ := hrun imports hsearch hspelled
  refine ⟨out, s', hout, hresolved, ?_⟩
  intro imports' hperm
  have hspelled' : SpelledOnce host imports' := fun imp himp imp' himp' =>
    hspelled imp (hperm.mem_iff.mp himp) imp' (hperm.mem_iff.mp himp')
  obtain ⟨out', s'', hout', hstubbed', _, hlookup'⟩ :=
    hrun imports' (fun imp himp => hsearch imp (hperm.mem_iff.mp himp)) hspelled'
  refine ⟨out', s'', hout', ?_, ?_⟩
  · intro k
    apply Option.ext
    intro a
    rw [hlookup', hlookup]
    simp only [hperm.mem_iff]
  · rw [hstubbed', hstubbed]
    exact (hperm.filter _).map _

end

/-! ## The loader's own answers -/

/-- The files of a process that has them loaded. -/
def DllFiles.ofSys (host : Host) (s : Sys) : DllFiles where
  load path :=
    match host.canonicalize path with
    | .error msg => .error (.read msg)
    | .ok canonical =>
      match s.modules.find? fun m => m.modulePath = canonical with
      | some m => .ok m.hModule
      | none =>
        match openDll host path canonical with
        | .error (.err e) => .error e
        | _ => .error (.read canonical)
  getProc h name :=
    match s.modules.find? fun m => m.hModule = h with
    | some m => if h = 0 then 0 else m.procAddress name
    | none => 0

theorem run_loadDllEx_loaded {host : Host} {s : Sys}
    (hloaded : ∀ path canonical, host.canonicalize path = .ok canonical →
      (∃ m ∈ s.modules, m.modulePath = canonical) ∨
        ∃ e, openDll host path canonical = .error (.err e))
    (callee : Call → Sys → Option (Reply × Sys)) (path : String) (runDllMain : Bool)
    (l : Holdings) : ∃ l', Attempt.run callee (loadDllEx host path runDllMain) (l, s) =
      some (((DllFiles.ofSys host s).load path).mapError .err, l', s) := by
  unfold loadDllEx DllFiles.ofSys
  cases hcanon : host.canonicalize path with
  | error msg =>
    simp only [hcanon]
    exact ⟨l, rfl⟩
  | ok canonical =>
    have hlook : Attempt.run callee (lookupByPath canonical) (l, s) =
        some (lookup canonical (l, s)) := rfl
    simp only [hcanon]
    cases hfind : s.modules.find? fun m => m.modulePath = canonical with
    | some m =>
      simp only [lookup, hfind] at hlook
      rw [Attempt.run_bind_ok _ hlook]
      exact ⟨_, rfl⟩
    | none =>
      simp only [lookup, hfind] at hlook
      rw [Attempt.run_bind_ok _ hlook]
      obtain ⟨m, hm, hpath⟩ | ⟨e, hopen⟩ := hloaded path canonical hcanon
      · have hno := List.find?_eq_none.mp hfind m hm
        simp [hpath] at hno
      · simp only [hopen]
        exact ⟨_, rfl⟩

theorem perform_of_run {host : Host} {guest : Call → Sys → Option (Reply × Sys)} {depth : Nat}
    {c : Call} {p : Proc (Holdings × Sys) Call Reply Reply} (hbody : body host c = some p)
    {s s' : Sys} {r : Reply} {l' : Holdings}
    (hrun : Proc.run (perform host guest depth) p (.none, s) = some (r, l', s')) :
    perform host guest (depth + 1) c s = some (r, s') := by
  simp only [perform, hbody, hrun]
  rfl

theorem exists_of_load {host : Host} {s : Sys} {path : String} {h : Nat}
    (hload : (DllFiles.ofSys host s).load path = .ok h) : ∃ m ∈ s.modules, m.hModule = h := by
  simp only [DllFiles.ofSys] at hload
  split at hload
  · cases hload
  · split at hload
    · rename_i m hfind
      exact ⟨m, List.mem_of_find?_eq_some hfind, Except.ok.inj hload⟩
    · split at hload <;> cases hload

theorem ofSys_serves (host : Host) (guest : Call → Sys → Option (Reply × Sys)) (depth : Nat)
    {s : Sys} (hloaded : ∀ path canonical, host.canonicalize path = .ok canonical →
      (∃ m ∈ s.modules, m.modulePath = canonical) ∨
        ∃ e, openDll host path canonical = .error (.err e))
    (hreal : ∀ m ∈ s.modules, ¬ StandIn m.hModule) :
    (DllFiles.ofSys host s).Serves (perform host guest (depth + 1)) (fun s' => s' = s) := by
  constructor
  · rintro path s' rfl
    obtain ⟨l', hrun⟩ := run_loadDllEx_loaded hloaded (perform host guest depth) path false .none
    exact ⟨s', rfl, perform_of_run rfl hrun⟩
  · rintro path h name s' hload rfl
    obtain ⟨m₀, hm₀, rfl⟩ := exists_of_load hload
    cases hfind : s'.modules.find? fun m => m.hModule = m₀.hModule with
    | none =>
      have hno := List.find?_eq_none.mp hfind m₀ hm₀
      simp at hno
    | some m =>
      have hm : m.hModule = m₀.hModule := by simpa using List.find?_some hfind
      have hrun := run_getProcAddress host (perform host guest depth) .none
        (hreal m (List.mem_of_find?_eq_some hfind)) (hm.symm ▸ hfind) name
      have hanswer : (DllFiles.ofSys host s').getProc m₀.hModule name =
          if m.hModule = 0 then 0 else m.procAddress name := by
        simp only [DllFiles.ofSys, hfind, hm]
      rw [← hanswer, hm] at hrun
      exact ⟨s', rfl, perform_of_run rfl hrun⟩

/-- The files of `exportSys`, by their names; nothing else can be read. -/
def loadedHost : Host :=
  { raceHost with
    canonicalize := fun path => .ok path
    read := fun _ => .error "No such file or directory"
    search := ⟨some [], none⟩
    pathExists := fun _ => true }

theorem resolve_meets_loaded :
    Resolves loadedHost ⟨[(("kernel32.dll", "Sleep"), 0x5000)], 0x6000⟩
      (.ofSys loadedHost (exportSys 2)) (perform loadedHost (fun _ _ => none) 1)
      [⟨"a.dll", "a", 0⟩, ⟨"kernel32.dll", "Sleep", 8⟩, ⟨"b.dll", "b", 16⟩] .none (exportSys 2) := by
  apply resolve_meets (ofSys_serves loadedHost _ 0 ?_ ?_) ?_ ?_ .none rfl
  · intro path canonical _
    exact .inr ⟨_, rfl⟩
  · intro m hm
    cases List.mem_singleton.mp hm
    exact exportModule_real 2
  · have hends : ∀ imp ∈ [(⟨"a.dll", "a", 0⟩ : Import), ⟨"kernel32.dll", "Sleep", 8⟩,
        ⟨"b.dll", "b", 16⟩], SearchPaths.endsInDll imp.dll.toList = true := by decide
    exact fun imp himp => SearchPaths.atChar_of_endsInDll (hends imp himp)
  · intro imp _ imp' _ h
    exact h

/-! ## Two DLLs that are implemented -/

/-- The loader's answers, from the files alone. -/
def DllFiles.answer (files : DllFiles) : Call → Sys → Option (Reply × Sys)
  | .load path _, s => some ((files.load path).mapError .err, s)
  | .getProc h name, s => some (.ok (files.getProc h name), s)
  | _, _ => none

theorem answer_serves (files : DllFiles) : files.Serves files.answer fun _ => True where
  load _ s _ := ⟨s, trivial, rfl⟩
  getProc _ _ _ s _ _ := ⟨s, trivial, rfl⟩

/-- Two real DLLs beside the EXE; they export whatever is asked for. -/
def besideExe : DllFiles where
  load path :=
    if path = "user32.dll" ∨ path = "vcruntime140.dll" then .ok 0x7F0000000000
    else .error (.read "No such file or directory")
  getProc _ _ := 0x7F0000001000

def smallTable : ImplTable :=
  ⟨[(("ntdll.dll", "__C_specific_handler"), 0x5000), (("kernel32.dll", "Sleep"), 0x5010)], 0x6000⟩

/-- A symbol the table lacks is not taken from the file of a DLL that is implemented, but stubbed;
    and one of VCRUNTIME140 is ntdll's, though the table has no entry for it and the file has. -/
theorem files_passed_over : ∃ out s,
    Attempt.run besideExe.answer (resolve loadedHost smallTable
      [⟨"user32.dll", "NewApi", 0⟩, ⟨"vcruntime140.dll", "__C_specific_handler", 8⟩] ⟨[], []⟩)
      (.none, atRest.shared) = some (.ok out, s) ∧
    smallTable.lookup "user32.dll" "NewApi" = none ∧
    out.resolved.lookup ("user32.dll", "NewApi") = some loadedHost.surface.trapStub ∧
    out.stubbed = [("user32.dll", "NewApi")] ∧
    smallTable.lookup "vcruntime140.dll" "__C_specific_handler" = none ∧
    out.resolved.lookup ("vcruntime140.dll", "__C_specific_handler") = some 0x5000 ∧
    ∀ dll ∈ ["user32.dll", "vcruntime140.dll"],
      ∃ found ∈ SearchPaths.candidatePaths loadedHost.search dll.toList,
      ∃ path ∈ loadedHost.existing found,
      ∃ h, besideExe.load path = .ok h ∧ ∀ name, besideExe.getProc h name = 0x7F0000001000 := by
  have hlacking : binding loadedHost smallTable besideExe ⟨"user32.dll", "NewApi", 0⟩ = none := by
    decide
  have hntdll : binding loadedHost smallTable besideExe
      ⟨"vcruntime140.dll", "__C_specific_handler", 8⟩ = some 0x5000 := by
    decide
  have hends : ∀ imp ∈ [(⟨"user32.dll", "NewApi", 0⟩ : Import),
      ⟨"vcruntime140.dll", "__C_specific_handler", 8⟩],
      SearchPaths.endsInDll imp.dll.toList = true := by decide
  obtain ⟨s, _, hrun⟩ := @run_resolve loadedHost smallTable besideExe _ _ (answer_serves besideExe)
    .none _ (fun imp himp => SearchPaths.atChar_of_endsInDll (hends imp himp)) ⟨[], []⟩
    atRest.shared trivial
  rw [List.foldl_cons, List.foldl_cons, hlacking, hntdll] at hrun
  refine ⟨_, _, hrun, rfl, rfl, rfl, rfl, rfl, ?_⟩
  have hfirst : ∀ dll ∈ ["user32.dll", "vcruntime140.dll"],
      ∃ found ∈ SearchPaths.candidatePaths loadedHost.search dll.toList,
        dll ∈ loadedHost.existing found := by decide
  intro dll hdll
  obtain ⟨found, hsearch, hpath⟩ := hfirst dll hdll
  exact ⟨found, hsearch, dll, hpath, _, if_pos (by simpa using hdll), fun _ => rfl⟩

end WinCompat.Loader
