import WinCompat.Loader.Mapping
import WinCompat.Loader.StaticTls

/-!
# Where control goes

`load_bytes` and `PeImage::run` of `pe-loader/src/lib.rs`, with the `map_image` of `mapping.rs`. The
main image is loaded as a DLL is, except that its preferred base is tried first, that nothing is
exported or registered, and that static TLS is set up for it. What `load_bytes` tells kernel32 (the
base, and the exception table of Seh/Lookup) has no part in what is called.

Three addresses are called. A TLS callback is dropped when it is outside the image, and a `DllMain`
goes through `rva_to_ptr`. Nothing looks at the entry point of the main image, so that it is inside
exactly when the file says so (`control_inside`).
-/

namespace WinCompat.Loader

open Lib Lib.Paging
open Lib.Bytes (Word)

/-- The address is in the mapping. -/
def MappedImage.Spans (img : MappedImage) (a : Nat) : Prop := img.base ≤ a ∧ a < img.base + img.size

instance (img : MappedImage) (a : Nat) : Decidable (img.Spans a) :=
  inferInstanceAs (Decidable (_ ∧ _))

def Block.Spans (b : Block) (a : Nat) : Prop := b.base ≤ a ∧ a < b.base + b.len

/-! ## `load_bytes` -/

/-- What the loader is told of the main image. -/
structure ExeHost extends Host where
  /-- goblin's `get_tls_table`. -/
  tlsTable : List Byte → Option DataDirectory
  /-- What the kernel answers in the `n`-th action to an `mmap` at an address: a page number, or a
      refusal. An old kernel takes the address as a hint. -/
  mmapAt : Nat → Space → Nat → Nat → Option Nat
  mmapAt_fresh : ∀ n space addr len page, mmapAt n space addr len = some page →
    FreshAnswer space len (.ok page)

structure PeImage where
  mapped : MappedImage
  /-- Relative to the base. -/
  entryRva : BitVec 32
  imports : ResolvedImports
  stack : Block
  thunkArena : Arena
  /-- The data of the `TlsBlock`. -/
  tlsBlock : Option (List Byte)
  tlsCallbacks : List Nat

/-- Everything that is checked of a file before it is mapped. -/
def openExe (host : Host) (bytes : List Byte) : Except Stop DllFile :=
  match host.goblin bytes with
  | .error msg => .error (.err (.parse msg))
  | .ok file =>
    match file.optionalHeader with
    | none => .error (.err (.bootstrap "PE has no optional header"))
    | some opt => .ok ⟨bytes, file, opt⟩

/-- `try_map_at`. What was mapped elsewhere than asked for is released again. -/
def tryMapAt (host : ExeHost) (f : DllFile) : Load (Option MappedImage) :=
  let preferred := f.opt.imageBase.toNat
  let size := roundUp f.opt.sizeOfImage.toNat pageSize
  if preferred = 0 then
    return none
  else
    .atomically fun s =>
      let asked := s.2.asked + 1
      match host.mmapAt s.2.asked s.2.space preferred size with
      | none => (.ok none, s.1, { s.2 with asked := asked })
      | some page =>
        if page * pageSize ≠ preferred then
          (.ok none, s.1, { s.2 with asked := asked })
        else
          (.ok (some (f.imageAt page)), s.1.withImage (some (f.imageAt page).block),
            { s.2 with
              space := mapZero s.2.space page (size / pageSize) .readWrite
              asked := asked })

/-- At the preferred base, or else where the kernel likes. -/
def placeImage (host : ExeHost) (f : DllFile) : Load MappedImage := do
  match ← tryMapAt host f with
  | some mapped => return mapped
  | none => mapAnywhere host.toHost f

/-- `map_image`. -/
def mapImage (host : ExeHost) (f : DllFile) : Load MappedImage :=
  if roundUp f.opt.sizeOfImage.toNat pageSize = 0 then
    fail (.mmapFailed 0 "SizeOfImage is zero")
  else do
    let mapped ← placeImage host f
    onSpace fun space => protectSections mapped f.file.pe.sections (copyImage f mapped space)
    return mapped

def Tls.TlsError.text : Tls.TlsError → String
  | .outOfBounds rva => s!"TLS directory RVA {hexDigits rva.toNat} is outside the mapped image"
  | .malformed start stop =>
    s!"TLS directory is malformed: RawDataEnd {hexDigits stop.toNat} < " ++
      s!"RawDataStart {hexDigits start.toNat}"

/-- The image in memory, as the functions of `tls.rs` are given it. -/
def tlsMapping (img : MappedImage) (space : Space) : Tls.Mapping where
  base := img.base
  bytes := (List.range img.size).map (bytesOf img space)
  size_le := by simpa using img.size_le

/-- The static TLS and the callbacks, by the TLS entry of the data directories. A directory that
    cannot be used is passed over. -/
def setUpTls (img : MappedImage) (table : Option DataDirectory) :
    Load (Option (List Byte) × List Nat) :=
  match table with
  | none => return (none, [])
  | some dir =>
    if dir.virtualAddress = 0 then
      return (none, [])
    else
      onSpace fun space =>
        let imageBase := BitVec.ofNat 64 img.base
        match Tls.readTlsDirectory (tlsMapping img space) dir.virtualAddress with
        | none => (.error (.panic "read_tls_directory"), space)
        | some (.error _) => (.ok (none, []), space)
        | some (.ok d) =>
          match Tls.initStaticTls (tlsMapping img space) imageBase d with
          | none => (.error (.panic "init_static_tls"), space)
          | some setup =>
            let space := storeBytes space img.base setup.image
            match setup.result with
            | .error e => (.error (.err (.bootstrap s!"static TLS setup: {e.text}")), space)
            | .ok data =>
              match Tls.collectCallbacks (tlsMapping img space) imageBase d with
              | none => (.error (.panic "collect_callbacks"), space)
              | some callbacks => (.ok (some data, callbacks), space)

def loadBytes (host : ExeHost) (bytes : List Byte) : Load PeImage := do
  let f ← .ofExcept (openExe host.toHost bytes)
  let mapped ← mapImage host f
  relocate f mapped
  let arena ← newArena host.toHost (32 * 1024) fun e =>
    .err (.bootstrap s!"thunk arena alloc: {e.text}")
  let (arena, table) ← ImplTable.build host.toHost arena
  let imports ← resolve host.toHost table f.file.imports ⟨[], []⟩
  writeIat host.toHost mapped f.file.imports imports.resolved
  let arena ← (sealArena arena fun e => .err (.bootstrap s!"thunk arena seal: {e.text}")).onError
    (dropArena arena)
  let stack ← (newStack host.toHost fun msg => .err (.bootstrap msg)).onError (dropArena arena)
  let tls ← (setUpTls mapped (host.tlsTable bytes)).onError do
    dropStack stack
    dropArena arena
  return ⟨mapped, f.opt.addressOfEntryPoint, imports, stack, arena, tls.1, tls.2⟩

/-! ## `PeImage::run` -/

namespace PeImage

def entrypoint (img : PeImage) : Nat := img.mapped.base + img.entryRva.toNat

/-- The addresses that are called, in order: as many of them as return, and one more. `setGs` is how
    setting the `gs` base ends. -/
def run (img : PeImage) (setGs : Except String Unit) : Except LoadError (List Nat) :=
  match setGs with
  | .error msg => .error (.bootstrap msg)
  | .ok () => .ok (img.tlsCallbacks ++ [img.entrypoint])

end PeImage

/-! ## The main image -/

section

variable {host : ExeHost} {c : Call} {l : Holdings} {f : DllFile} {img : MappedImage}

/-- The image is of the size that the file says. -/
def DllFile.Sizes (f : DllFile) (img : MappedImage) : Prop :=
  img.size = roundUp f.opt.sizeOfImage.toNat pageSize

abbrev Free : Discipline Holdings Sys Call := Meets.anything Holdings Sys Call

theorem result_pure {α : Type} {post : Except Stop α → Holdings → Prop} {a : α}
    (h : post (.ok a) l) : Meets Free c post (pure a : Load α) l := h

theorem sizes_mapAnywhere (host : Host) (f : DllFile) :
    Meets Free c (Meets.Ends (fun img _ => f.Sizes img) fun _ _ => True)
      (mapAnywhere host f) l := by
  unfold mapAnywhere withMmap
  apply Meets.attempt_atomically
  intro s _ _
  refine ⟨trivial, ?_⟩
  dsimp only
  cases host.mmap s.asked s.space (roundUp f.opt.sizeOfImage.toNat pageSize) with
  | error msg => trivial
  | ok page => exact rfl

theorem sizes_tryMapAt (host : ExeHost) (f : DllFile) :
    Meets Free c (Meets.Ends (fun r _ => ∀ img, r = some img → f.Sizes img) fun _ _ => True)
      (tryMapAt host f) l := by
  unfold tryMapAt
  dsimp only
  split_ifs with hzero
  · exact result_pure nofun
  · apply Meets.attempt_atomically
    intro s _ _
    refine ⟨trivial, ?_⟩
    dsimp only
    split
    · exact nofun
    · split_ifs with hat
      · exact nofun
      · intro img himg
        cases himg
        exact rfl

theorem sizes_placeImage (host : ExeHost) (f : DllFile) :
    Meets Free c (Meets.Ends (fun img _ => f.Sizes img) fun _ _ => True) (placeImage host f) l := by
  unfold placeImage
  refine Meets.attempt_bind _ _ (sizes_tryMapAt host f) ?_ fun _ _ _ => trivial
  intro r l₁ hr
  cases r with
  | some img => exact result_pure (hr img rfl)
  | none => exact sizes_mapAnywhere host.toHost f

theorem sizes_mapImage (host : ExeHost) (f : DllFile) :
    Meets Free c (Meets.Ends (fun img _ => f.Sizes img) fun _ _ => True) (mapImage host f) l := by
  unfold mapImage
  split_ifs with hsize
  · exact trivial
  · refine Meets.attempt_bind _ _ (sizes_placeImage host f) ?_ fun _ _ _ => trivial
    intro img l₁ himg
    exact Meets.attempt_after _ _ fun _ _ => result_pure himg

/-! ### The callbacks -/

theorem collectFrom_inside {m : Tls.Mapping} {imageBase : Word} {n rva : Nat} {out : List Nat}
    (h : Tls.collectFrom m imageBase n rva = some out) :
    ∀ a ∈ out, m.base ≤ a ∧ a < m.base + m.size := by
  induction n generalizing rva out with
  | zero =>
    cases h
    exact fun _ h => absurd h List.not_mem_nil
  | succ n ih =>
    simp only [Tls.collectFrom, Option.bind_eq_bind, Option.bind_eq_some_iff] at h
    obtain ⟨next, -, h⟩ := h
    split_ifs at h with hend
    · cases h
      exact fun _ h => absurd h List.not_mem_nil
    · obtain ⟨va, -, h⟩ := Option.bind_eq_some_iff.mp h
      split_ifs at h with hzero hbeyond
      · cases h
        exact fun _ h => absurd h List.not_mem_nil
      · obtain ⟨rest, hrest, h⟩ := Option.bind_eq_some_iff.mp h
        cases h
        exact ih hrest
      · obtain ⟨rest, hrest, h⟩ := Option.bind_eq_some_iff.mp h
        cases h
        intro a ha
        rcases List.mem_cons.mp ha with rfl | ha
        · exact ⟨Nat.le_add_right _ _, Nat.add_lt_add_left (Nat.not_le.mp hbeyond) _⟩
        · exact ih hrest a ha

theorem collectCallbacks_inside {m : Tls.Mapping} {imageBase : Word} {d : Tls.TlsDirectory}
    {out : List Nat} (h : Tls.collectCallbacks m imageBase d = some out) :
    ∀ a ∈ out, m.base ≤ a ∧ a < m.base + m.size := by
  unfold Tls.collectCallbacks at h
  split_ifs at h with hnone
  · cases h
    exact fun _ h => absurd h List.not_mem_nil
  · exact collectFrom_inside h

theorem tlsMapping_size (img : MappedImage) (space : Space) :
    (tlsMapping img space).size = img.size := by
  simp [tlsMapping, Tls.Mapping.size]

theorem inside_setUpTls (img : MappedImage) (table : Option DataDirectory) :
    Meets Free c (Meets.Ends (fun r _ => ∀ a ∈ r.2, img.Spans a) fun _ _ => True)
      (setUpTls img table) l := by
  cases table with
  | none => exact result_pure nofun
  | some dir =>
    unfold setUpTls
    dsimp only
    split_ifs with hzero
    · exact result_pure nofun
    · apply Meets.attempt_atomically
      intro s _ _
      refine ⟨trivial, ?_⟩
      dsimp only
      split
      · trivial
      · exact nofun
      · split
        · trivial
        · split
          · trivial
          · split
            · trivial
            · rename_i callbacks hcollect
              intro a ha
              have hin := collectCallbacks_inside hcollect a ha
              rw [tlsMapping_size] at hin
              exact hin

/-! ### The load -/

/-- What `load_bytes` has made of a file. -/
structure Loads (f : DllFile) (img : PeImage) : Prop where
  size : f.Sizes img.mapped
  entry : img.entryRva = f.opt.addressOfEntryPoint
  callbacks : ∀ a ∈ img.tlsCallbacks, img.mapped.Spans a

theorem loads_loadBytes {bytes : List Byte} (hopen : openExe host.toHost bytes = .ok f) :
    Meets Free c (Meets.Ends (fun img _ => Loads f img) fun _ _ => True)
      (loadBytes host bytes) l := by
  unfold loadBytes
  have hfile : Meets Free c (Meets.Ends (fun f' _ => f = f') fun _ _ => True)
      (Attempt.ofExcept (openExe host.toHost bytes) : Load DllFile) l := by
    rw [hopen]
    exact rfl
  refine Meets.attempt_bind _ _ hfile ?_ fun _ _ _ => trivial
  rintro _ l₁ rfl
  refine Meets.attempt_bind _ _ (sizes_mapImage host f) ?_ fun _ _ _ => trivial
  intro mapped l₂ hsize
  refine Meets.attempt_after _ _ fun _ _ => ?_
  refine Meets.attempt_after _ _ fun _ _ => ?_
  refine Meets.attempt_after _ _ fun _ _ => ?_
  refine Meets.attempt_after _ _ fun _ _ => ?_
  refine Meets.attempt_after _ _ fun _ _ => ?_
  refine Meets.attempt_after _ _ fun arena _ => ?_
  refine Meets.attempt_after _ _ fun stack l' => ?_
  have htls : Meets Free c (Meets.Ends (fun r _ => ∀ a ∈ r.2, mapped.Spans a) fun _ _ => True)
      ((setUpTls mapped (host.tlsTable bytes)).onError do
        dropStack stack
        dropArena arena) l' := by
    refine Meets.attempt_onError _ _ (inside_setUpTls mapped _) fun _ _ _ => ?_
    exact Meets.attempt_trivially _
  refine Meets.attempt_bind _ _ htls ?_ fun _ _ _ => trivial
  exact fun tls _ hin => result_pure ⟨hsize, rfl, hin⟩

theorem loads_of_run {callee : Call → Sys → Option (Reply × Sys)} {bytes : List Byte}
    {s s' : Sys} {l' : Holdings} {exe : PeImage} (hopen : openExe host.toHost bytes = .ok f)
    (hrun : Attempt.run callee (loadBytes host bytes) (l, s) = some (.ok exe, l', s')) :
    Loads f exe :=
  (@loads_loadBytes host (.free 0) l f bytes hopen).result hrun

theorem Loads.spans_iff {exe : PeImage} (h : Loads f exe) {setGs : Except String Unit}
    {calls : List Nat} (hcalls : exe.run setGs = .ok calls) :
    (∀ a ∈ calls, exe.mapped.Spans a) ↔
      f.opt.addressOfEntryPoint.toNat < roundUp f.opt.sizeOfImage.toNat pageSize := by
  cases setGs with
  | error msg => cases hcalls
  | ok u =>
    cases hcalls
    have hentry : exe.mapped.Spans exe.entrypoint ↔
        f.opt.addressOfEntryPoint.toNat < roundUp f.opt.sizeOfImage.toNat pageSize := by
      unfold MappedImage.Spans PeImage.entrypoint
      rw [h.entry, h.size]
      omega
    rw [← hentry]
    constructor
    · exact fun hall => hall _ (List.mem_append_right _ List.mem_cons_self)
    · intro hin a ha
      rcases List.mem_append.mp ha with ha | ha
      · exact h.callbacks a ha
      · rwa [List.mem_singleton.mp ha]

end

/-! ## `DllMain` -/

/-- `memoryDiscipline`, in which a `DllMain` is only called in the image that the caller holds. -/
def controlDiscipline (host : Host) : Discipline Holdings Sys Call :=
  { memoryDiscipline host with
    calls := fun l d => l.claim.isSome ∧ ∀ entry h, d = .dllMain entry h →
      ∃ b, l.image = some b ∧ h = b.base ∧ b.Spans entry }

section

variable {host : Host} {c : Call} {l : Holdings} {f : DllFile}

theorem controlled {α : Type} {post : α → Holdings → Prop} {p : Proc (Holdings × Sys) Call Reply α}
    (h : Meets (upkeep host fun d => ∀ entry h, d ≠ .dllMain entry h) c post p l) :
    Meets (controlDiscipline host) c post p l := by
  refine Meets.weaken ?_ ?_ ?_ ?_ p h
  · exact fun _ _ => trivial
  · exact fun _ _ h => h.owned
  · exact fun _ _ _ _ h => h
  · exact fun _ _ h => ⟨h.1, fun entry x hd => absurd hd (h.2 entry x)⟩

theorem sizes_prepare (host : Host) (f : DllFile) :
    Meets Free c (Meets.Ends (fun r _ => f.Sizes r.1) fun _ _ => True) (prepare host f) l := by
  unfold prepare
  have hmap : Meets Free c (Meets.Ends (fun img _ => f.Sizes img) fun _ _ => True)
      (mapImageAnywhere host f) l := by
    unfold mapImageAnywhere
    split_ifs with hsize
    · exact trivial
    · refine Meets.attempt_bind _ _ (sizes_mapAnywhere host f) ?_ fun _ _ _ => trivial
      intro img l₁ himg
      exact Meets.attempt_after _ _ fun _ _ => result_pure himg
  refine Meets.attempt_bind _ _ hmap ?_ fun _ _ _ => trivial
  intro img l₁ himg
  exact Meets.attempt_after _ _ fun _ _ => result_pure himg

theorem spans_block {img : MappedImage} (hsize : f.Sizes img) {rva : BitVec 32} {a : Nat}
    (h : img.rvaToPtr rva = some a) : img.block.Spans a := by
  have hlen : img.block.len = img.size := by
    have hmod := roundUp_mod f.opt.sizeOfImage.toNat pageSize
    rw [← hsize] at hmod
    exact Nat.div_mul_cancel (Nat.dvd_of_mod_eq_zero hmod)
  have hbase : img.block.base = img.base := rfl
  unfold MappedImage.rvaToPtr at h
  split_ifs at h with hlt
  cases h
  unfold Block.Spans
  rw [hlen, hbase]
  omega

theorem control_attach (f : DllFile) (canonical : String) {mapped : MappedImage} {b : Bound}
    (runDllMain : Bool) (hsize : f.Sizes mapped) (hclaim : l.claim.isSome)
    (himage : l.image = some mapped.block) (hthunks : l.thunks = b.arena.blocks)
    (hstack : l.stack = some b.stack) :
    Meets (controlDiscipline host) c (Meets.Ends (Same l) fun _ _ => True)
      (attach f canonical mapped b runDllMain) l := by
  unfold attach
  dsimp only
  split_ifs with hskip
  · exact rfl
  · split
    · exact controlled (meets_abandon hthunks hstack trivial)
    · rename_i entry hptr
      have hcall : Meets (controlDiscipline host) c (Meets.Ends (Same l) (Same l))
          (Attempt.call (Call.dllMain entry mapped.base) : Load Reply) l := by
        refine Meets.attempt_call _ ⟨hclaim, ?_⟩ fun _ => rfl
        rintro entry' h ⟨⟩
        exact ⟨mapped.block, himage, rfl, spans_block hsize hptr⟩
      refine Meets.attempt_bind _ _ hcall ?_ fun _ _ _ => trivial
      rintro reply l₁ rfl
      cases reply with
      | error stop => exact trivial
      | ok result =>
        dsimp only
        split_ifs
        · refine Meets.attempt_bind _ _ (controlled (meets_unmapImage himage)) ?_
            fun _ _ h => h.elim
          rintro _ l₂ rfl
          exact controlled (meets_abandon hthunks hstack trivial)
        · exact rfl

theorem control_loadFile (f : DllFile) (canonical : String) (runDllMain : Bool) :
    Meets (controlDiscipline host) c (fun _ _ => True) (loadFile host f canonical runDllMain)
      (.claiming canonical) := by
  unfold loadFile
  have hprepare := Meets.attempt_also (prepare host f)
    (controlled (@meets_prepare host _ c (.claiming canonical) f rfl rfl rfl rfl
      (fun _ => nofun) (fun _ _ => nofun)))
    (sizes_prepare host f)
  refine Meets.attempt_bind _ _ hprepare ?_ fun _ _ _ => trivial
  rintro ⟨mapped, b⟩ l₁ ⟨rfl, hsize⟩
  refine Meets.attempt_bind _ _
    (control_attach f canonical runDllMain hsize rfl rfl rfl rfl) ?_ fun _ _ _ => trivial
  rintro _ l₂ rfl
  refine Meets.attempt_bind _ _ (controlled (meets_register rfl rfl rfl)) ?_ fun _ _ _ => trivial
  exact fun _ _ _ => trivial

theorem control_body {p : Proc (Holdings × Sys) Call Reply Reply} (hp : body host c = some p) :
    Meets (controlDiscipline host) c (fun _ _ => True) p .none := by
  cases c with
  | load path runDllMain =>
    cases hp
    exact meets_load (fun _ hcanon => controlled (meets_lookupByPath runDllMain hcanon))
      fun f canonical => control_loadFile f canonical runDllMain
  | getProc h name =>
    cases hp
    exact controlled (meets_getProcAddress h name)
  | free h =>
    cases hp
    exact controlled (meets_freeLibrary h)
  | dllMain entry h => cases hp

theorem controlDiscipline_lawful (host : Host) :
    (controlDiscipline host).Lawful (loaderSystem host) :=
  { memoryDiscipline_lawful host with body := fun _ _ hp => control_body hp }

end

/-! ## Every transfer -/

/-- **Control is only transferred into the image exactly when** the entry point of the main image is
    in it. The callbacks always are, and every `DllMain`, whatever any number of threads load. -/
theorem control_inside (host : ExeHost) :
    (∀ callee bytes f l s exe l' s' setGs calls, openExe host.toHost bytes = .ok f →
      Attempt.run callee (loadBytes host bytes) (l, s) = some (.ok exe, l', s') →
      exe.run setGs = .ok calls →
      ((∀ a ∈ calls, exe.mapped.Spans a) ↔
        f.opt.addressOfEntryPoint.toNat < roundUp f.opt.sizeOfImage.toNat pageSize)) ∧
    ∀ T, (loaderSystem host.toHost).machine.Reachable T → ∀ t, ∀ fr ∈ T.stack t, ∀ entry h k,
      fr.prog = .call (.dllMain entry h) k →
        ∃ b, fr.own.image = some b ∧ h = b.base ∧ b.Spans entry ∧
          Mapped T.shared.space b.page b.count := by
  constructor
  · intro callee bytes f l s exe l' s' setGs calls hopen hrun hcalls
    exact (loads_of_run hopen hrun).spans_iff hcalls
  · intro T hT t fr hfr entry h k hprog
    have hdisc : (controlDiscipline host.toHost).Disciplined T := by
      apply (controlDiscipline_lawful host.toHost).disciplined
      exact hT.mono fun _ _ _ _ _ _ _ _ => ⟨fun _ _ => trivial, fun _ _ _ _ => trivial⟩
    obtain ⟨b, himage, hbase, hspans⟩ := (hdisc.called hfr hprog).1.2 entry h rfl
    have hown : HeldOk fr.own T.shared := hdisc.frame t fr hfr
    have hmem : b ∈ fr.own.blocks := by
      unfold Holdings.blocks
      rw [himage]
      exact List.mem_append_left _ (List.mem_append_left _ List.mem_cons_self)
    exact ⟨b, himage, hbase, hspans, hown.owned.mapped b hmem⟩

/-! ### An entry point beyond the image -/

/-- A kernel that maps where it is asked to, if that is free. -/
def grant (_ : Nat) (space : Space) (addr len : Nat) : Option Nat :=
  if addr % pageSize = 0 ∧ FreshAnswer space len (.ok (addr / pageSize)) then some (addr / pageSize)
  else none

theorem grant_fresh (n : Nat) (space : Space) (addr len page : Nat)
    (h : grant n space addr len = some page) : FreshAnswer space len (.ok page) := by
  unfold grant at h
  split_ifs at h with hfree
  cases h
  exact hfree.2

/-- A DLL of one page with headers and nothing else. -/
def pageFile (entry : List Byte) : List Byte :=
  [0x4D, 0x5A] ++ List.replicate 58 0 ++ [0x40, 0, 0, 0] ++
  -- The signature and the COFF header.
  [0x50, 0x45, 0, 0] ++ [0x64, 0x86, 0, 0] ++ List.replicate 12 0 ++ [0xF0, 0, 0x22, 0x20] ++
  -- The optional header: the base is 0x140000000, and no header is to be copied.
  [0x0B, 0x02] ++ List.replicate 14 0 ++ entry ++ List.replicate 4 0 ++
  [0, 0, 0, 0x40, 1, 0, 0, 0] ++ [0, 0x10, 0, 0, 0, 2, 0, 0] ++ List.replicate 16 0 ++
  [0, 0x10, 0, 0, 0, 0, 0, 0] ++ List.replicate 44 0 ++ [16, 0, 0, 0] ++ List.replicate 128 0

/-- The same, parsed. -/
def pageParsed (entry : BitVec 32) : PeFile where
  pe := ⟨[]⟩
  characteristics := 0x2022
  optionalHeader := some ⟨entry, 0x140000000, 0x1000, 0, none⟩
  imports := []

def pageHost (entry : BitVec 32) : ExeHost :=
  { bareHost (pageFile (Lib.Bytes.le32 entry)) (pageParsed entry) with
    tlsTable := fun _ => none
    mmapAt := grant
    mmapAt_fresh := grant_fresh }

def startPage (entry : BitVec 32) : Option (Except Stop PeImage × Holdings × Sys) :=
  Attempt.run (fun _ _ => none) (loadBytes (pageHost entry) (pageFile (Lib.Bytes.le32 entry)))
    (.none, atRest.shared)

theorem startPage_ok {entry : BitVec 32} (h : (startPage entry).any fun r => r.1.isOk) :
    ∃ exe l' s', startPage entry = some (.ok exe, l', s') := by
  cases hrun : startPage entry with
  | none =>
    rw [hrun] at h
    cases h
  | some r =>
    obtain ⟨result, l', s'⟩ := r
    rw [hrun] at h
    cases result with
    | error e => cases h
    | ok exe => exact ⟨exe, l', s', rfl⟩

theorem openExe_pageHost (entry : BitVec 32) :
    openExe (pageHost entry).toHost (pageFile (Lib.Bytes.le32 entry)) =
      .ok ⟨pageFile (Lib.Bytes.le32 entry), pageParsed entry,
        ⟨entry, 0x140000000, 0x1000, 0, none⟩⟩ := by
  simp [openExe, pageHost, bareHost, pageParsed]

/-- The call that a frame is about to make. -/
def calling (fr : Frame Holdings Sys Call Reply) : Option Call :=
  match fr.prog with
  | .call c _ => some c
  | _ => none

/-- Thread 0 has loaded the file and is about to call its `DllMain`. -/
def attaching : Option (Threads Holdings Sys Call Reply) :=
  (loaderSystem (pageHost 0x200).toHost).machine.exec atRest
    (.start 0 (.load "a.dll" true) :: List.replicate 13 (.act 0))

/-- The entry point is at 0x200. -/
theorem control_inside_pageHost : (∃ exe l' s', startPage 0x200 = some (.ok exe, l', s') ∧
      ∀ a ∈ exe.tlsCallbacks ++ [exe.entrypoint], exe.mapped.Spans a) ∧
    ∃ T fr rest k b, attaching = some T ∧ T.stack 0 = fr :: rest ∧
      fr.prog = .call (.dllMain 0x10000200 0x10000000) k ∧ fr.own.image = some b ∧
        b.Spans 0x10000200 := by
  obtain ⟨exe, l', s', hrun⟩ := @startPage_ok 0x200 (by decide +kernel)
  have hall := control_inside (pageHost 0x200)
  refine ⟨⟨exe, l', s', hrun, ?_⟩, ?_⟩
  · refine (hall.1 _ _ _ _ _ _ _ _ (.ok ()) _ (openExe_pageHost 0x200) hrun rfl).mpr ?_
    decide
  · have hcall : (attaching.bind fun T => (T.stack 0).head?.bind calling) =
        some (.dllMain 0x10000200 0x10000000) := by decide +kernel
    obtain ⟨T, hT, hcall⟩ := Option.bind_eq_some_iff.mp hcall
    obtain ⟨fr, hfr, hcall⟩ := Option.bind_eq_some_iff.mp hcall
    obtain ⟨rest, hstack⟩ := List.head?_eq_some_iff.mp hfr
    unfold calling at hcall
    split at hcall
    · rename_i c k hprog
      obtain rfl := Option.some.inj hcall
      have hreach := Machine.reachable_of_exec (atRest_init _) hT
      obtain ⟨b, himage, -, hspans, -⟩ :=
        hall.2 T hreach 0 fr (hstack ▸ List.mem_cons_self) _ _ k hprog
      exact ⟨T, fr, rest, k, b, hT, hstack, hprog, himage, hspans⟩
    · cases hcall

/-- The file has one page, and the entry point is on the sixth. -/
theorem entry_beyond_image : ∃ exe l' s' calls, startPage 0x5000 = some (.ok exe, l', s') ∧
    exe.run (.ok ()) = .ok calls ∧ ∃ a ∈ calls, ¬ exe.mapped.Spans a := by
  obtain ⟨exe, l', s', hrun⟩ := @startPage_ok 0x5000 (by decide +kernel)
  refine ⟨exe, l', s', _, hrun, rfl, ?_⟩
  by_contra hno
  have hloads := loads_of_run (openExe_pageHost 0x5000) hrun
  have hcalls : exe.run (.ok ()) = .ok (exe.tlsCallbacks ++ [exe.entrypoint]) := rfl
  have hin := (hloads.spans_iff hcalls).mp fun a ha => by
    by_contra hout
    exact hno ⟨a, ha, hout⟩
  exact absurd hin (by decide)

end WinCompat.Loader
