import WinCompat.Lib.Assoc
import WinCompat.Loader.ArenaStable
import WinCompat.Loader.Dll

/-!
# What the table of implemented functions leads to

Every call of `ImplTable::build` makes new trampolines, so that two tables have different addresses
under the same names. `Surface.impls` is what they have in common: the implementation that each name
leads to, by the same loops. A build ends with a table that has an address of the right
implementation under each name and nothing under any other, or in a panic at a request for memory
that the kernel refused (`achieves_build`); sealing the arena changes none of it.
-/

namespace WinCompat.Loader

open Lib Lib.Paging
open Lib.Bytes (Word)

/-- What an address in the table is of. -/
inductive Impl
  /-- A function, which a trampoline calls. -/
  | code (target : Word) (nArgs : Nat) (noreturn : Bool)
  /-- A variable. -/
  | data (addr : Nat)
  deriving DecidableEq

/-- The trampoline of a function. -/
def thunkCode (target : Word) (nArgs : Nat) (noreturn : Bool) : List Byte :=
  if noreturn then emitNoreturn target nArgs else emitReturning target nArgs

/-- The address is of this implementation. -/
def Denotes (space : Space) (p : Nat) : Impl → Prop
  | .code target nArgs noreturn => Holds space p (thunkCode target nArgs noreturn)
  | .data addr => p = addr

/-! ## The surface -/

abbrev ImplMap := List ((String × String) × Impl)

def ImportSpec.impl (spec : ImportSpec) : (String × String) × Impl :=
  ((spec.dll, spec.sym), .code spec.target spec.nArgs spec.noreturn)

/-- `forward`, of implementations. -/
def forwardImpl (dll : String) (map : ImplMap) (apiset sym : String) : ImplMap :=
  match map.lookup (dll, sym) with
  | none => map
  | some impl => ((apiset, sym), impl) :: map

/-- `forwardApisets`, of implementations. -/
def forwardImpls (s : Surface) (map : ImplMap) : ImplMap :=
  let map := s.apisets.foldl (fun map apiset =>
    s.forwardSymbols.foldl (fun map sym => forwardImpl "kernel32.dll" map apiset sym) map) map
  s.apisets.foldl (fun map apiset =>
    forwardImpl "ntdll.dll" (forwardImpl "ntdll.dll" map apiset "NtTerminateProcess") apiset
      "NtClose") map

def addSpecs (specs : List ImportSpec) (map : ImplMap) : ImplMap :=
  specs.foldl (fun map spec => spec.impl :: map) map

def addData (vars : List ((String × String) × Nat)) (map : ImplMap) : ImplMap :=
  vars.foldl (fun map e => (e.1, .data e.2) :: map) map

/-- The implementation under each name. -/
def Surface.impls (s : Surface) : ImplMap :=
  addData s.dataExports
    (addSpecs s.d3d12Exports (addSpecs s.d3d11Exports (forwardImpls s (addSpecs s.importSpecs []))))

/-- The number of arguments that a trampoline can be made for. -/
def maxArgs (noreturn : Bool) : Nat := if noreturn then 6 else 32

/-- The tables are such that no trampoline is refused, and a variable has an address. -/
structure Surface.Ok (s : Surface) : Prop where
  specs : ∀ spec ∈ s.importSpecs ++ s.d3d11Exports ++ s.d3d12Exports,
    spec.nArgs ≤ maxArgs spec.noreturn
  slots : ∀ slot ∈ s.d3d11Vtables ++ s.d3d12Vtables, slot.2 ≤ maxArgs false
  data : ∀ e ∈ s.dataExports, e.2 ≠ 0

/-- The kernel never maps the page at address 0 unless that is asked for. -/
def Host.NullUnmapped (host : Host) : Prop :=
  ∀ n space len page, host.mmap n space len = .ok page → page ≠ 0

/-- The kernel refused what was last asked for. -/
def Refused (host : Host) (s : Sys) : Prop :=
  ∃ len msg, host.mmap (s.asked - 1) s.space len = .error msg

/-! ## Emitting -/

namespace Holder

variable {space space' : Space} {h : Holder}

/-- An arena by itself. -/
theorem Ok.alone (hok : h.Ok space) :
    ArenaInv (ArenaState.setHolder ⟨space, fun _ => none⟩ 0 space h) := by
  apply (arenaInv_init (s := ⟨space, fun _ => none⟩) fun _ => rfl).setHolder hok
  · intro i _
    rfl
  · intro k' h' _ hk'
    cases hk'

theorem Ok.emit (hok : h.Ok space) {code : List Byte} {os : MmapAnswer} {addr : Nat} {a' : Arena}
    (hfresh : FreshAnswer space (h.arena.growLen (roundUp h.arena.cursor 16 + code.length)) os)
    (hemit : h.arena.emit space code os = .ok (addr, a', space')) :
    Holder.Ok space' { h with arena := a', spans := ⟨addr, code⟩ :: h.spans } := by
  have hself : ∀ (s : ArenaState) (space : Space) (h : Holder),
      (s.setHolder 0 space h).arenas 0 = some h := by
    intro s space h
    simp [ArenaState.setHolder]
  exact (hok.alone.emit (hself _ _ _) hfresh hemit).holder 0 _ (hself _ _ _)

end Holder

/-- An arena that is being filled: it is in order, and not at address 0. -/
structure Filling (space : Space) (a : Arena) (spans : List Span) : Prop where
  ok : Holder.Ok space ⟨a, spans, none⟩
  nonnull : ∀ b ∈ a.blocks, b.page ≠ 0

/-- An address that was handed out for an implementation, or that of the variable itself. -/
def Made (spans : List Span) (p : Nat) : Impl → Prop
  | .code target nArgs noreturn => ⟨p, thunkCode target nArgs noreturn⟩ ∈ spans
  | .data addr => p = addr ∧ addr ≠ 0

/-- A table in the making has an address for each implementation. -/
def Tabled (space : Space) (a : Arena) (map : SymbolMap) (impls : ImplMap) : Prop :=
  ∃ spans, Filling space a spans ∧ Assoc.Matched (Made spans) map impls

theorem Made.mono {spans spans' : List Span} (h : ∀ sp ∈ spans, sp ∈ spans') {p : Nat} {impl : Impl}
    (hp : Made spans p impl) : Made spans' p impl := by
  cases impl with
  | code target nArgs noreturn => exact h _ hp
  | data addr => exact hp

variable {a : Arena}

theorem emit_error {space : Space} {code : List Byte} {os : MmapAnswer} {e : ThunkError}
    (hopen : a.sealed = false) (h : a.emit space code os = .error e) : ∃ msg, os = .error msg := by
  cases os with
  | error msg => exact ⟨msg, rfl⟩
  | ok page =>
    exfalso
    unfold Arena.emit Arena.alloc at h
    by_cases hgrow : a.block.len < roundUp a.cursor 16 + code.length
    · simp [hopen, hgrow, Arena.grow, mmapBlock, bind, Except.bind, pure, Except.pure] at h
    · simp [hopen, hgrow, bind, Except.bind, pure, Except.pure] at h

variable {spans : List Span}

theorem Filling.emit {space space' : Space} {a a' : Arena} {code : List Byte} {os : MmapAnswer}
    {addr : Nat} (h : Filling space a spans)
    (hfresh : FreshAnswer space (a.growLen (roundUp a.cursor 16 + code.length)) os)
    (hpage : ∀ page, os = .ok page → page ≠ 0)
    (hemit : a.emit space code os = .ok (addr, a', space')) :
    Filling space' a' (⟨addr, code⟩ :: spans) := by
  refine ⟨h.ok.emit hfresh hemit, ?_⟩
  obtain ⟨-, ⟨-, -, rfl, -⟩ | ⟨page, hos, -, rfl, -⟩⟩ := Arena.emit_cases hemit
  · exact h.nonnull
  · intro b hb
    rcases Arena.mem_blocks.mp hb with hret | rfl
    · rcases List.mem_append.mp hret with hret | hlive
      · exact h.nonnull b (Arena.mem_blocks.mpr (Or.inl hret))
      · exact h.nonnull b (Arena.mem_blocks.mpr (Or.inr (List.mem_singleton.mp hlive)))
    · exact hpage page hos

theorem Filling.addr_ne_zero {space : Space} (h : Filling space a spans) {sp : Span}
    (hsp : sp ∈ spans) : sp.addr ≠ 0 := by
  obtain ⟨b, hb, hlow, -⟩ := h.ok.contained hsp
  have hpage := Nat.pos_of_ne_zero (h.nonnull b hb)
  have hbase : 0 < b.base := Nat.mul_pos hpage (by decide)
  omega

/-! ## The loops -/

section

variable {host : Host} {callee : Call → Sys → Option (Reply × Sys)}

/-- How a build can fail. -/
def Panics (host : Host) (e : Stop) (s : Holdings × Sys) : Prop :=
  (∃ msg, e = .panic msg) ∧ Refused host s.2

/-- A thunk is what is emitted for it. -/
theorem run_thunk (msg : ThunkError → String) {target : Word} {nArgs : Nat} {noreturn : Bool}
    (hargs : nArgs ≤ maxArgs noreturn) (a : Arena) (s : Holdings × Sys) :
    Attempt.run callee (thunk host msg target nArgs noreturn a) s =
      match a.emit s.2.space (thunkCode target nArgs noreturn)
        (host.mmap s.2.asked s.2.space (a.growLen (roundUp a.cursor 16 +
          (thunkCode target nArgs noreturn).length))) with
      | .error e => some (.error (.panic (msg e)), s.1, { s.2 with asked := s.2.asked + 1 })
      | .ok (addr, a', space') =>
        some (.ok (addr, a'), s.1.withThunks a'.blocks,
          { s.2 with space := space', asked := s.2.asked + 1 }) := by
  have hfew : ¬ maxArgs noreturn < nArgs := Nat.not_lt.mpr hargs
  unfold thunk withMmap
  rw [Attempt.run_atomically]
  cases noreturn with
  | true =>
    simp only [if_true, thunkCode, Arena.makeThunkNoreturn, if_neg (show ¬ 6 < nArgs from hfew)]
    split
    · rename_i he
      simp [he]
    · rename_i he
      simp [he]
  | false =>
    simp only [Bool.false_eq_true, if_false, thunkCode, Arena.makeThunk,
      if_neg (show ¬ 32 < nArgs from hfew)]
    split
    · rename_i he
      simp [he]
    · rename_i he
      simp [he]

theorem achieves_thunk (hnull : host.NullUnmapped) (msg : ThunkError → String) {target : Word}
    {nArgs : Nat} {noreturn : Bool} (hargs : nArgs ≤ maxArgs noreturn) {map : SymbolMap}
    {impls : ImplMap} {s : Holdings × Sys} (h : Tabled s.2.space a map impls) (k : String × String) :
    Attempt.Achieves callee (thunk host msg target nArgs noreturn a) s
      (fun r s' => Tabled s'.2.space r.2 ((k, r.1) :: map)
        ((k, .code target nArgs noreturn) :: impls)) (Panics host) := by
  obtain ⟨spans, hfill, hmap⟩ := h
  unfold Attempt.Achieves
  rw [run_thunk msg hargs]
  cases hemit : a.emit s.2.space (thunkCode target nArgs noreturn)
      (host.mmap s.2.asked s.2.space (a.growLen (roundUp a.cursor 16 +
        (thunkCode target nArgs noreturn).length))) with
  | error e =>
    have hopen : a.sealed = false := hfill.ok.sealed_eq
    obtain ⟨text, htext⟩ := emit_error hopen hemit
    exact ⟨_, _, rfl, ⟨_, rfl⟩, _, text, htext⟩
  | ok r =>
    obtain ⟨addr, a', space'⟩ := r
    refine ⟨_, _, rfl, _, hfill.emit (host.mmap_fresh _ _ _) (hnull _ _ _) hemit, ?_⟩
    apply Assoc.Matched.cons
    · exact hmap.mono fun _ _ => Made.mono fun _ => List.mem_cons_of_mem _
    · exact List.mem_cons_self

theorem achieves_thunkSpecs (hnull : host.NullUnmapped) (specs : List ImportSpec) :
    ∀ {a : Arena} {map : SymbolMap} {impls : ImplMap} {s : Holdings × Sys},
      (∀ spec ∈ specs, spec.nArgs ≤ maxArgs spec.noreturn) → Tabled s.2.space a map impls →
      Attempt.Achieves callee (thunkSpecs host specs a map) s
        (fun r s' => Tabled s'.2.space r.1 r.2 (addSpecs specs impls)) (Panics host) := by
  induction specs with
  | nil =>
    intro a map impls s _ h
    exact .pure h
  | cons spec specs ih =>
    intro a map impls s hargs h
    apply (achieves_thunk hnull _ (hargs spec List.mem_cons_self) h (spec.dll, spec.sym)).bind
    intro r s' h'
    exact ih (fun spec' hspec' => hargs spec' (List.mem_cons_of_mem _ hspec')) h'

theorem achieves_thunkVtables (hnull : host.NullUnmapped) (slots : List (Word × Nat)) :
    ∀ {a : Arena} {map : SymbolMap} {impls : ImplMap} {s : Holdings × Sys},
      (∀ slot ∈ slots, slot.2 ≤ maxArgs false) → Tabled s.2.space a map impls →
      Attempt.Achieves callee (thunkVtables host slots a) s
        (fun r s' => Tabled s'.2.space r.2 map impls) (Panics host) := by
  induction slots with
  | nil =>
    intro a map impls s _ h
    exact .pure h
  | cons slot slots ih =>
    intro a map impls s hargs h
    obtain ⟨target, nArgs⟩ := slot
    apply (achieves_thunk hnull _ (hargs _ List.mem_cons_self) h ("", "")).bind
    rintro ⟨p, a'⟩ s' ⟨spans, hfill, hmap⟩
    have htabled : Tabled s'.2.space a' map impls := by
      cases hmap with
      | cons _ hrest => exact ⟨spans, hfill, hrest⟩
    apply (ih (fun slot' hslot' => hargs slot' (List.mem_cons_of_mem _ hslot')) htabled).bind
    rintro ⟨ptrs, a''⟩ s'' h''
    exact .pure h''

theorem achieves_installVtables (hnull : host.NullUnmapped) (c : Crate) (slots : List (Word × Nat))
    {map : SymbolMap} {impls : ImplMap} {s : Holdings × Sys}
    (hargs : ∀ slot ∈ slots, slot.2 ≤ maxArgs false) (h : Tabled s.2.space a map impls) :
    Attempt.Achieves callee (installVtables host c slots a) s
      (fun a' s' => Tabled s'.2.space a' map impls) (Panics host) := by
  have hget : Attempt.Achieves callee (getVtables c) s (fun _ s' => s' = s) (Panics host) :=
    ⟨_, _, rfl, rfl⟩
  apply hget.bind
  rintro (_ | ptrs) s' rfl
  · apply (achieves_thunkVtables hnull slots hargs h).bind
    rintro ⟨ptrs, a'⟩ s'' h''
    exact ⟨_, _, rfl, h''⟩
  · exact .pure h

end

/-! ## What needs no trampoline -/

section

variable {R : Nat → Impl → Prop} {map : SymbolMap} {impls : ImplMap}

theorem matched_forward (h : Assoc.Matched R map impls) (dll apiset sym : String) :
    Assoc.Matched R (forward dll map apiset sym) (forwardImpl dll impls apiset sym) := by
  unfold forward forwardImpl
  cases hmap : map.lookup (dll, sym) with
  | none =>
    rw [h.lookup_none hmap]
    exact h
  | some p =>
    obtain ⟨impl, himpl, hp⟩ := h.lookup_some hmap
    rw [himpl]
    exact h.cons _ hp

theorem matched_forwardApisets (h : Assoc.Matched R map impls) (s : Surface) :
    Assoc.Matched R (forwardApisets s map) (forwardImpls s impls) := by
  unfold forwardApisets forwardImpls
  apply List.foldl_rel
  · apply List.foldl_rel h
    intro apiset _ map impls h
    apply List.foldl_rel h
    intro sym _ map impls h
    exact matched_forward h _ _ _
  · intro apiset _ map impls h
    exact matched_forward (matched_forward h _ _ _) _ _ _

theorem matched_addData (h : Assoc.Matched (Made spans) map impls)
    {vars : List ((String × String) × Nat)} (hvars : ∀ e ∈ vars, e.2 ≠ 0) :
    Assoc.Matched (Made spans) (vars.foldl (fun map e => e :: map) map) (addData vars impls) := by
  apply List.foldl_rel h
  intro e he map impls h
  exact h.cons e.1 ⟨rfl, hvars e he⟩

end

/-! ## The build -/

section

variable {host : Host} {callee : Call → Sys → Option (Reply × Sys)}

theorem achieves_build (hsurface : host.surface.Ok) (hnull : host.NullUnmapped) {s : Holdings × Sys}
    (h : Filling s.2.space a []) :
    Attempt.Achieves callee (ImplTable.build host a) s
      (fun r s' => Tabled s'.2.space r.1 r.2.map host.surface.impls) (Panics host) := by
  have hspecs := hsurface.specs
  have hslots := hsurface.slots
  simp only [List.mem_append] at hspecs hslots
  unfold ImplTable.build
  apply (achieves_thunkSpecs hnull _ (fun spec hs => hspecs spec (Or.inl (Or.inl hs)))
    ⟨[], h, Assoc.Matched.nil⟩).bind
  rintro ⟨a₁, map₁⟩ s₁ ⟨spans, hfill, hmap⟩
  apply (achieves_installVtables hnull _ _ (fun slot hs => hslots slot (Or.inl hs))
    ⟨spans, hfill, matched_forwardApisets hmap _⟩).bind
  intro a₂ s₂ h₂
  apply (achieves_thunkSpecs hnull _ (fun spec hs => hspecs spec (Or.inl (Or.inr hs))) h₂).bind
  rintro ⟨a₃, map₃⟩ s₃ h₃
  apply (achieves_installVtables hnull _ _ (fun slot hs => hslots slot (Or.inr hs)) h₃).bind
  intro a₄ s₄ h₄
  apply (achieves_thunkSpecs hnull _ (fun spec hs => hspecs spec (Or.inr hs)) h₄).bind
  rintro ⟨a₅, map₅⟩ s₅ ⟨spans₅, hfill₅, hmap₅⟩
  apply (achieves_thunk hnull _ (Nat.zero_le _)
    ⟨spans₅, hfill₅, matched_addData hmap₅ hsurface.data⟩ ("", "")).bind
  rintro ⟨soft, a₆⟩ s₆ ⟨spans₆, hfill₆, hmap₆⟩
  apply Attempt.Achieves.pure
  cases hmap₆ with
  | cons _ hrest => exact ⟨spans₆, hfill₆, hrest⟩

theorem achieves_newArena (hnull : host.NullUnmapped) (capacity : Nat) (refused : ThunkError → Stop)
    (s : Holdings × Sys) : Attempt.Achieves callee (newArena host capacity refused) s
      (fun a s' => Filling s'.2.space a [])
      (fun e s' => (∃ te, e = refused te) ∧ Refused host s'.2) := by
  have hpos : 0 < capacityLen capacity / pageSize := by
    apply Nat.div_pos _ (by decide)
    exact Nat.le_trans (Nat.le_max_right _ _) (le_roundUp _ (by decide))
  unfold Attempt.Achieves newArena withMmap
  rw [Attempt.run_atomically]
  cases hos : host.mmap s.2.asked s.2.space (capacityLen capacity) with
  | error msg => exact ⟨_, _, rfl, ⟨_, rfl⟩, _, msg, hos⟩
  | ok page =>
    refine ⟨_, _, rfl, @Holder.ok_new s.2.space ⟨page, capacityLen capacity / pageSize⟩ hpos, ?_⟩
    intro b hb
    cases List.mem_singleton.mp hb
    exact hnull _ _ _ _ hos

/-! ## The addresses of a table -/

/-- An address that calls lead to. -/
def Leads (space : Space) (p : Nat) (impl : Impl) : Prop := p ≠ 0 ∧ Denotes space p impl

theorem Tabled.leads {space : Space} {map : SymbolMap} {impls : ImplMap}
    (h : Tabled space a map impls) : Assoc.Matched (Leads space) map impls := by
  obtain ⟨spans, hfill, hmap⟩ := h
  apply hmap.mono
  intro p impl hp
  cases impl with
  | code target nArgs noreturn => exact ⟨hfill.addr_ne_zero hp, hfill.ok.intact _ hp⟩
  | data addr =>
    obtain ⟨rfl, hne⟩ := hp
    exact ⟨hne, rfl⟩

/-- Sealing an arena changes no byte. -/
theorem achieves_sealArena {map : SymbolMap} {impls : ImplMap} {s : Holdings × Sys}
    (h : Tabled s.2.space a map impls) (refused : ThunkError → Stop)
    (bad : Stop → Holdings × Sys → Prop) : Attempt.Achieves callee (sealArena a refused) s
      (fun _ s' => Assoc.Matched (Leads s'.2.space) map impls) bad := by
  obtain ⟨spans, hfill, hmap⟩ := h
  have hopen : a.sealed = false := hfill.ok.sealed_eq
  obtain ⟨hsealed, -, -, hbytes⟩ := sealBlocks_of_mapped fun b hb i hi => hfill.ok.mapped hb hi
  have hrun : a.finalize s.2.space =
      (.ok (), { a with sealed := true }, (sealBlocks s.2.space a.blocks).2) := by
    unfold Arena.finalize
    simp [hopen, hsealed]
  refine ⟨.ok { a with sealed := true },
    (s.1, { s.2 with space := (sealBlocks s.2.space a.blocks).2 }), ?_, ?_⟩
  · unfold sealArena onSpace
    rw [Attempt.run_atomically]
    dsimp only
    rw [hrun]
  · apply (Tabled.leads ⟨spans, hfill, hmap⟩).mono
    intro p impl hp
    refine ⟨hp.1, ?_⟩
    cases impl with
    | code target nArgs noreturn => exact hp.2.congr fun x _ _ => hbytes x
    | data addr => exact hp.2

/-- The table that the imports of a module are resolved from, and the memory when it is built. -/
def Built (host : Host) (known : ImplTable) (space : Space) : Prop :=
  ∃ callee refused s a s', Attempt.run callee
      (newArena host (32 * 1024) refused >>= ImplTable.build host) s = some (.ok (a, known), s') ∧
    s'.2.space = space

theorem Built.leads (hsurface : host.surface.Ok) (hnull : host.NullUnmapped) {known : ImplTable}
    {space : Space} (h : Built host known space) :
    Assoc.Matched (Leads space) known.map host.surface.impls := by
  obtain ⟨callee, refused, s, a, s', hrun, rfl⟩ := h
  have hach : Attempt.Achieves callee (newArena host (32 * 1024) refused >>= ImplTable.build host) s
      (fun r s' => Tabled s'.2.space r.1 r.2.map host.surface.impls) (fun _ _ => True) := by
    apply ((achieves_newArena hnull _ refused s).mono (fun _ _ h => h) fun _ _ _ => trivial).bind
    intro a s₁ hfill
    exact (achieves_build hsurface hnull hfill).mono (fun _ _ h => h) fun _ _ _ => trivial
  exact (hach.of_run hrun).leads

theorem achieves_fakeProcAddress (hsurface : host.surface.Ok) (hnull : host.NullUnmapped)
    (dllName : String) (bytes : List Byte) (s : Holdings × Sys) :
    Attempt.Achieves callee (fakeProcAddress host dllName bytes) s
      (fun p s' => match host.surface.impls.lookup
          (dllName, host.fromUtf8Lossy (bytes.take 256)) with
        | some impl => Leads s'.2.space p impl
        | none => p = 0) (Panics host) := by
  unfold fakeProcAddress
  apply ((achieves_newArena hnull _ _ s).mono (fun _ _ h => h) ?_).bind
  · intro a s₁ hfill
    apply (achieves_build hsurface hnull hfill).bind
    rintro ⟨a₂, table⟩ s₂ htable
    apply (achieves_sealArena htable _ _).bind
    intro a₃ s₃ hleads
    have hlookup := hleads.lookup (dllName, host.fromUtf8Lossy (bytes.take 256))
    unfold ImplTable.lookup
    dsimp only at hlookup ⊢
    revert hlookup
    cases table.map.lookup (dllName, host.fromUtf8Lossy (bytes.take 256)) with
    | none =>
      cases host.surface.impls.lookup (dllName, host.fromUtf8Lossy (bytes.take 256)) with
      | none => exact fun _ => ⟨_, _, rfl, rfl⟩
      | some impl => exact nofun
    | some p =>
      cases host.surface.impls.lookup (dllName, host.fromUtf8Lossy (bytes.take 256)) with
      | none => exact nofun
      | some impl =>
        intro hlookup
        cases hlookup with
        | some hp => exact .pure hp
  · rintro e s' ⟨⟨te, rfl⟩, hrefused⟩
    exact ⟨⟨_, rfl⟩, hrefused⟩

end

end WinCompat.Loader
