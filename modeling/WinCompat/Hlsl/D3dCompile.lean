import WinCompat.Hlsl.ControlFlow
import WinCompat.Hlsl.Lexer
import WinCompat.Hlsl.ParserTotal

/-!
# `D3DCompile`

`win32-kernel32/src/d3dcompiler.rs` over `hlsl-compiler/src/lib.rs`. The call reads the entry name
and the target, and of these the compiler is handed the stage alone: `codegen` looks for a function
`main`, and a target that does not begin with `vs` is a pixel shader's. So the request is honoured
for the entry name `main` and the two profiles (`honours_iff`).
-/

namespace WinCompat.Hlsl

open Lib Lib.Comp

/-! ## The call -/

inductive CompileError
  | lex (e : LexError)
  | parse (e : ParseError)
  | codegen (e : CodegenError)

/-- `compile`. -/
def compile (source : List UInt8) (stage : ShaderStage) : Outcome CompileError Spirv.Builder :=
  match lex source with
  | .error e => .err (.lex e)
  | .ok tokens =>
      match parse tokens with
      | .err e => .err (.parse e)
      | .panic => .panic
      | .outOfFuel => .outOfFuel
      | .ok unit =>
          match codegen unit stage with
          | .ok b => .ok b
          | .err e => .err (.codegen e)
          | .panic => .panic
          | .outOfFuel => .outOfFuel

theorem frontEnd_returns (source : List UInt8) : (∃ e, lex source = .error e) ∨
    ∃ tokens, lex source = .ok tokens ∧
      ((∃ e, parse tokens = .err e) ∨ ∃ unit p, parse tokens = .ok unit ∧
        unitLoop (16 * (tokens.length + 2)) [] ⟨tokens, 0, []⟩ = .ok (unit, p) ∧
        p.idx + 1 = tokens.length) := by
  cases h : lex source with
  | error e => exact .inl ⟨e, rfl⟩
  | ok tokens =>
    obtain ⟨ts, rfl, hts⟩ := ((Lexer.run_reads h).covers (Nat.zero_le _) rfl).final
    refine .inr ⟨_, rfl, (parse_of_wf ⟨by simp, ?_⟩).imp id ?_⟩
    · intro t ht
      rw [List.length_append, List.length_singleton, Nat.add_sub_cancel,
        List.getElem?_concat_length] at ht
      cases ht
      rfl
    · rintro ⟨unit, p, hunit, hloop, t, ht, heof⟩
      refine ⟨unit, p, hunit, hloop, ?_⟩
      obtain ⟨hlt, rfl⟩ := List.getElem?_eq_some_iff.mp ht
      rw [List.length_append, List.length_singleton] at hlt ⊢
      -- Before the last token there is no `Eof`.
      by_contra hne
      have hidx : p.idx < ts.length := by omega
      rw [List.getElem_append_left hidx] at heof
      exact (hts _ (List.getElem_mem hidx)).1 heof

inductive HResult
  | sOk
  | eFail
  deriving DecidableEq

/-- What the call returns, and what it writes to `*code`. -/
structure Compiled where
  hr : HResult
  code : Option Spirv.Builder

/-- The bytes at `entry` and `target` go as far as the guest's memory does; `code` says that the
    pointer is not null. -/
structure CompileArgs where
  src : Option (List UInt8)
  entry : Option (List UInt8)
  target : Option (List UInt8)
  code : Bool

/-- `read_cstr`. -/
def readCstr (ptr : Option (List UInt8)) : Option String :=
  ptr.bind fun mem => Utf8.decode? ((mem.take 65536).takeWhile (· ≠ 0))

namespace CompileArgs

def entryName (a : CompileArgs) : String := (readCstr a.entry).getD ""

def targetName (a : CompileArgs) : String := (readCstr a.target).getD ""

/-- `stage` in `d3d_compile`. -/
def stage (a : CompileArgs) : ShaderStage :=
  if "vs".toList.isPrefixOf a.targetName.toList then .vertex else .pixel

end CompileArgs

def failed : Compiled := ⟨.eFail, none⟩

/-- `d3d_compile`. -/
def d3dCompile (a : CompileArgs) : Outcome Empty Compiled :=
  match a.src, a.code with
  | some bytes, true =>
      match Utf8.decode? bytes with
      | none => .ok failed
      | some _ =>
          match compile bytes a.stage with
          | .ok b => .ok ⟨.sOk, some b⟩
          | .err _ => .ok failed
          | .panic => .panic
          | .outOfFuel => .outOfFuel
  | _, _ => .ok failed

/-! ## What is asked for -/

/-- The stage of a profile: `vs_5_0` and `ps_5_0` have the two stages there are. -/
def namedStage (target : String) : Option ShaderStage :=
  if target.toList.takeWhile (· ≠ '_') = "vs".toList then some .vertex
  else if target.toList.takeWhile (· ≠ '_') = "ps".toList then some .pixel
  else none

def functionNamed (e : String) : Decl → Option FunctionDecl
  | .function f => if f.name = e then some f else none
  | .struct _ => none
  | .cbuffer _ => none
  | .globalVar _ => none

def functionsNamed (e : String) (ds : List Decl) : List FunctionDecl :=
  ds.filterMap (functionNamed e)

/-- The definition of `e`: the first function of that name with a body. -/
def findDefinition (e : String) (ds : List Decl) : Option FunctionDecl :=
  (functionsNamed e ds).find? (·.body.isSome)

def Decl.isFunction : Decl → Bool
  | .function _ => true
  | _ => false

/-- `b` is the module whose entry function is `f`. -/
def Translates (ds : List Decl) (f : FunctionDecl) (stage : ShaderStage) (b : Spirv.Builder) :
    Prop :=
  ∃ s s', emitGlobals ds (Ctx.new stage) = .ok ((), s) ∧ emitMain f s = .ok ((), s') ∧
    s'.builder = b

/-- From `ds` to `ds'` functions other than `e` are added, and moved about. -/
structure Rearranged (e : String) (ds ds' : List Decl) : Prop where
  globals : ds'.filter (!·.isFunction) = ds.filter (!·.isFunction)
  entry : functionsNamed e ds' = functionsNamed e ds
  others : List.Subperm (ds.filter fun d => d.isFunction && (functionNamed e d).isNone)
    (ds'.filter fun d => d.isFunction && (functionNamed e d).isNone)

def unitOf (bytes : List UInt8) : Option TranslationUnit :=
  match lex bytes with
  | .ok tokens => (parse tokens).toOption
  | .error _ => none

/-- The unit that the call compiles, if it gets that far. -/
def CompileArgs.unit (a : CompileArgs) : Option TranslationUnit :=
  match a.src, a.code with
  | some bytes, true => (Utf8.decode? bytes).bind fun _ => unitOf bytes
  | _, _ => none

/-- The entry name and the target are honoured. -/
structure Honours (a : CompileArgs) : Prop where
  /-- What is returned is the translation of the entry's definition, at the stage named. -/
  translated : ∀ c, d3dCompile a = .ok ⟨.sOk, c⟩ → ∃ unit f stage b, a.unit = some unit ∧
    findDefinition a.entryName unit.decls = some f ∧ namedStage a.targetName = some stage ∧
    c = some b ∧ Translates unit.decls f stage b
  /-- Without a definition of the entry, or a stage, nothing is returned. -/
  rejected : (∀ unit, a.unit = some unit → findDefinition a.entryName unit.decls = none) ∨
    namedStage a.targetName = none → ∀ c, d3dCompile a ≠ .ok ⟨.sOk, c⟩
  /-- Other functions do not matter. -/
  others : ∀ unit unit', a.unit = some unit → Rearranged a.entryName unit.decls unit'.decls →
    ∀ b, codegen unit' a.stage = .ok b ↔ codegen unit a.stage = .ok b
  unwritten : ∀ c, d3dCompile a = .ok ⟨.eFail, c⟩ → c = none

/-! ## Which function is compiled -/

theorem findMain_eq_findDefinition (ds : List Decl) : findMain ds = findDefinition "main" ds := by
  induction ds with
  | nil => rfl
  | cons d rest ih =>
    cases d with
    | function f =>
      by_cases hname : f.name = "main"
      · cases hbody : f.body.isSome with
        | true => simp [findMain, findDefinition, functionsNamed, functionNamed, hname, hbody]
        | false =>
          simpa [findMain, findDefinition, functionsNamed, functionNamed, hname, hbody] using ih
      · simpa [findMain, findDefinition, functionsNamed, functionNamed, hname] using ih
    | _ => simpa [findMain, findDefinition, functionsNamed, functionNamed] using ih

/-- Functions are passed over. -/
theorem emitGlobals_filter (ds : List Decl) :
    ∀ s, emitGlobals ds s = emitGlobals (ds.filter (!·.isFunction)) s := by
  induction ds with
  | nil => exact fun _ => rfl
  | cons d rest ih =>
    intro s
    have hkeep : ∀ r, (∀ s, emitGlobals rest s = emitGlobals r s) →
        emitGlobals (d :: rest) s = emitGlobals (d :: r) s := by
      intro r hr
      show (emitDecl d >>= fun _ => emitGlobals rest) s = (emitDecl d >>= fun _ => emitGlobals r) s
      have hrest : emitGlobals rest = emitGlobals r := funext hr
      rw [hrest]
    cases d with
    | function f => exact ih s
    | _ => exact hkeep _ ih

theorem emitGlobals_congr {ds ds' : List Decl}
    (h : ds'.filter (!·.isFunction) = ds.filter (!·.isFunction)) (s : Ctx) :
    emitGlobals ds' s = emitGlobals ds s := by
  rw [emitGlobals_filter ds', emitGlobals_filter ds, h]

variable {stage : ShaderStage}

variable {b : Spirv.Builder}

theorem codegen_eq_ok_iff {unit : TranslationUnit} :
    codegen unit stage = .ok b ↔
      ∃ main, findMain unit.decls = some main ∧ Translates unit.decls main stage b := by
  constructor
  · intro h
    obtain ⟨main, s, s', hmain, hglobals, hrun, hb⟩ := codegen_ok h
    exact ⟨main, hmain, s, s', hglobals, hrun, hb⟩
  · rintro ⟨main, hmain, s, s', hglobals, hrun, rfl⟩
    unfold codegen
    simp only [hmain]
    rw [bind_ok hglobals, hrun]

theorem compile_ok_iff {bytes : List UInt8} :
    compile bytes stage = .ok b ↔
      ∃ unit, unitOf bytes = some unit ∧ codegen unit stage = .ok b := by
  unfold compile unitOf
  cases lex bytes with
  | error e => simp
  | ok tokens =>
    cases hp : parse tokens with
    | ok unit => cases hc : codegen unit stage <;> simp [hp, hc, Outcome.toOption]
    | _ => simp [hp, Outcome.toOption]

variable {a : CompileArgs}

theorem d3dCompile_ok_iff {c : Option Spirv.Builder} :
    d3dCompile a = .ok ⟨.sOk, c⟩ ↔
      ∃ unit b, a.unit = some unit ∧ codegen unit a.stage = .ok b ∧ c = some b := by
  have hcompile : ∀ bytes, (∃ unit b, unitOf bytes = some unit ∧
      codegen unit a.stage = .ok b ∧ c = some b) ↔
      ∃ b, compile bytes a.stage = .ok b ∧ c = some b := by
    intro bytes
    simp only [compile_ok_iff]
    grind
  unfold d3dCompile CompileArgs.unit
  split
  · next bytes _ _ =>
    cases Utf8.decode? bytes with
    | none => simp [failed]
    | some text =>
      rw [Option.bind_some, hcompile]
      cases compile bytes a.stage <;> simp [failed, eq_comm]
  · simp [failed]

theorem d3dCompile_fail {c : Option Spirv.Builder} (h : d3dCompile a = .ok ⟨.eFail, c⟩) :
    c = none := by
  unfold d3dCompile at h
  split at h
  · split at h
    · cases h
      rfl
    · split at h
      · cases h
      · cases h
        rfl
      · cases h
      · cases h
  · cases h
    rfl

theorem stage_of_named (h : namedStage a.targetName = some stage) : a.stage = stage := by
  have hprefix := List.takeWhile_prefix (l := a.targetName.toList) (· ≠ '_')
  unfold namedStage at h
  unfold CompileArgs.stage
  split_ifs at h with hvs hps
  · obtain rfl := Option.some.inj h
    rw [hvs] at hprefix
    rw [if_pos (List.isPrefixOf_iff_prefix.mpr hprefix)]
  · obtain rfl := Option.some.inj h
    rw [hps] at hprefix
    obtain ⟨rest, hrest⟩ := hprefix
    rw [← hrest]
    rfl

/-! ## When the request is honoured -/

/-- `float4 main() { }`. -/
def emptyMain : FunctionDecl where
  returnType := .vector .float 4
  name := "main"
  params := []
  semantic := none
  body := some []

/-- `void main() { }`. -/
def voidMain : FunctionDecl := { emptyMain with returnType := .void }

theorem emitMain_emptyMain (s : Ctx) : ∃ s', emitMain emptyMain s = .ok ((), s') := ⟨_, rfl⟩

theorem emitMain_voidMain (s : Ctx) : ∃ e, emitMain voidMain s = .err e := ⟨_, rfl⟩

theorem rearranged_cons {e : String} (he : e ≠ "main") {f : FunctionDecl} (hf : f.name = "main")
    (ds : List Decl) : Rearranged e ds (.function f :: ds) where
  globals := rfl
  entry := by simp [functionsNamed, functionNamed, hf, he.symm]
  others := by
    have hother : (functionNamed e (.function f)).isNone = true := by
      simp [functionNamed, hf, he.symm]
    rw [List.filter_cons_of_pos (by simp [Decl.isFunction, hother])]
    exact (List.sublist_cons_self _ _).subperm

theorem entry_of_others {unit : TranslationUnit} {s : Ctx} (h : Honours a)
    (hunit : a.unit = some unit) (hglobals : emitGlobals unit.decls (Ctx.new a.stage) = .ok ((), s)) :
    a.entryName = "main" := by
  by_contra hne
  have hinsert : ∀ f : FunctionDecl, f.name = "main" → ∀ b,
      codegen ⟨.function f :: unit.decls⟩ a.stage = .ok b ↔ codegen unit a.stage = .ok b :=
    fun f hf => h.others unit ⟨_⟩ hunit (rearranged_cons hne hf unit.decls)
  obtain ⟨s', hempty⟩ := emitMain_emptyMain s
  have hok : codegen ⟨.function emptyMain :: unit.decls⟩ a.stage = .ok s'.builder :=
    codegen_eq_ok_iff.mpr ⟨emptyMain, rfl, s, s', hglobals, hempty, rfl⟩
  have hvoid := (hinsert voidMain rfl _).mpr ((hinsert emptyMain rfl _).mp hok)
  obtain ⟨main, hmain, s₁, s₂, hglobals', hrun, -⟩ := codegen_eq_ok_iff.mp hvoid
  obtain rfl : voidMain = main := Option.some.inj hmain
  obtain ⟨e, he⟩ := emitMain_voidMain s₁
  rw [he] at hrun
  cases hrun

theorem codegen_rearranged {ds ds' : List Decl} (h : Rearranged "main" ds ds') :
    codegen ⟨ds'⟩ stage = .ok b ↔ codegen ⟨ds⟩ stage = .ok b := by
  rw [codegen_eq_ok_iff, codegen_eq_ok_iff]
  simp only [findMain_eq_findDefinition, findDefinition, h.entry, Translates,
    emitGlobals_congr h.globals]

/-- The request is honoured exactly when the entry is `main` and the profile a vertex or a pixel
    shader's, unless the declarations are rejected or, for another profile, the body is. -/
theorem honours_iff (a : CompileArgs) : Honours a ↔
    ∀ unit s, a.unit = some unit → emitGlobals unit.decls (Ctx.new a.stage) = .ok ((), s) →
      a.entryName = "main" ∧ (namedStage a.targetName = none →
        ∀ main, findMain unit.decls = some main → ∀ s', emitMain main s ≠ .ok ((), s')) := by
  constructor
  · intro h unit s hunit hglobals
    refine ⟨entry_of_others h hunit hglobals, fun hnamed main hmain s' hrun => ?_⟩
    have hok := codegen_eq_ok_iff.mpr ⟨main, hmain, s, s', hglobals, hrun, rfl⟩
    exact h.rejected (.inr hnamed) _ (d3dCompile_ok_iff.mpr ⟨unit, _, hunit, hok, rfl⟩)
  · intro h
    have hcompiled : ∀ {c}, d3dCompile a = .ok ⟨.sOk, c⟩ → ∃ unit main b, a.unit = some unit ∧
        a.entryName = "main" ∧ namedStage a.targetName ≠ none ∧ c = some b ∧
        findMain unit.decls = some main ∧ Translates unit.decls main a.stage b := by
      intro c hc
      obtain ⟨unit, b, hunit, hok, rfl⟩ := d3dCompile_ok_iff.mp hc
      obtain ⟨main, hmain, htr⟩ := codegen_eq_ok_iff.mp hok
      obtain ⟨s, s', hglobals, hrun, -⟩ := id htr
      obtain ⟨hentry, hnamed⟩ := h unit s hunit hglobals
      exact ⟨unit, main, b, hunit, hentry, fun hn => hnamed hn main hmain s' hrun, rfl, hmain, htr⟩
    refine ⟨?_, ?_, ?_, fun c => d3dCompile_fail⟩
    · intro c hc
      obtain ⟨unit, main, b, hunit, hentry, hnamed, hb, hmain, htr⟩ := hcompiled hc
      obtain ⟨stage, hstage⟩ := Option.ne_none_iff_exists'.mp hnamed
      rw [findMain_eq_findDefinition, ← hentry] at hmain
      exact ⟨unit, main, stage, b, hunit, hmain, hstage, hb, stage_of_named hstage ▸ htr⟩
    · intro hnone c hc
      obtain ⟨unit, main, b, hunit, hentry, hnamed, -, hmain, -⟩ := hcompiled hc
      rw [findMain_eq_findDefinition, ← hentry] at hmain
      rcases hnone with hnone | hnone
      · rw [hnone unit hunit] at hmain
        cases hmain
      · exact hnamed hnone
    · intro unit unit' hunit hre b
      by_cases hglobals : ∃ s, emitGlobals unit.decls (Ctx.new a.stage) = .ok ((), s)
      · obtain ⟨s, hglobals⟩ := hglobals
        rw [(h unit s hunit hglobals).1] at hre
        exact codegen_rearranged hre
      · constructor <;> intro hok
        · obtain ⟨main, -, s, s', hs, -⟩ := codegen_eq_ok_iff.mp hok
          rw [emitGlobals_congr hre.globals] at hs
          exact absurd ⟨s, hs⟩ hglobals
        · obtain ⟨main, -, s, s', hs, -⟩ := codegen_eq_ok_iff.mp hok
          exact absurd ⟨s, hs⟩ hglobals

/-- `float4 main() : SV_Target { return 0; }`, for the entry `PSMain` and the target `gs_5_0`. -/
def geometryMain : CompileArgs where
  src := some (Utf8.encode "float4 main() : SV_Target { return 0; }".toList)
  entry := some (Utf8.encode "PSMain".toList ++ [0])
  target := some (Utf8.encode "gs_5_0".toList ++ [0])
  code := true

/-- The call returns a pixel shader made of `main`. -/
theorem geometryMain_not_honoured : ¬ Honours geometryMain := by
  intro h
  have hnamed : namedStage geometryMain.targetName = none := by decide +kernel
  have hok : (d3dCompile geometryMain).okWith (fun c => c.hr = .sOk) = true := by decide +kernel
  obtain ⟨⟨hr, c⟩, hc, hhr⟩ := Outcome.exists_of_okWith hok
  obtain rfl : hr = .sOk := by simpa using hhr
  exact h.rejected (.inr hnamed) c hc

end WinCompat.Hlsl
