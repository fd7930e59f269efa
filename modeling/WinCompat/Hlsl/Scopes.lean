import WinCompat.Hlsl.Lookups

/-!
# Lexical scopes

The emitter keeps the local variables in one list, which grows at every declaration and never
shrinks. A compiler with lexical scopes drops the declarations of a block when the block is closed:
`scopedBlock` is the emitter with that one change.

What is in the emitter's list and not in the other is static: `Scopes` is the list of the names
declared so far, each with whether its block is still open. The two agree on a body as long as no
identifier is looked up to a name whose block is closed (`BlockWellScoped`). What tells them apart
afterwards is how often a pointer is used (`Ctx.uses`): `Step` says what a computation does to that.
-/

namespace WinCompat.Hlsl

open Lib Lib.Comp

/-! ## The scoped emitter -/

/-- The declarations of `x` end with it. -/
def inScope (x : Cg Unit) : Cg Unit := do
  let s ← Comp.get
  x
  Comp.modify fun s' => s'.withLocals s.locals

mutual

/-- `emit_stmt` with scopes: a block, a branch, a loop and a loop's body. -/
def scopedStmt : Stmt → Cg Unit
  | .return_ e => emitReturn e
  | .varDecl vd => emitVarDecl vd
  | .expr e => do
      let _ ← emitExpr e
      pure ()
  | .if_ cond then_ else_ => emitIf cond (inScope (scopedBlock then_)) (scopedElse else_)
  | .for_ init cond update body =>
      inScope (emitFor (scopedInit init) cond update (inScope (scopedBlock body)))
  | .block b => inScope (scopedBlock b)

def scopedBlock : List Stmt → Cg Unit
  | [] => pure ()
  | s :: rest => do
      scopedStmt s
      if ← isTerminated then pure ()
      else scopedBlock rest

def scopedElse : Option (List Stmt) → Option (Cg Unit)
  | some b => some (inScope (scopedBlock b))
  | none => none

def scopedInit : Option Stmt → Cg Unit
  | some s => scopedStmt s
  | none => pure ()

end

/-- `emit_function_body` with scopes. -/
def scopedFunctionBody (main : FunctionDecl) : Cg Unit := do
  let params ← paramGlobals main.params
  copyParams params
  match main.body with
  | none => cgErr [.text "main has no body"]
  | some body => do
      scopedBlock body
      if ← isTerminated then pure ()
      else terminate "ret" .ret

def scopedMain (main : FunctionDecl) : Cg Unit := do
  emitInputs main.params
  emitOutput main
  beginEntryFunction
  scopedFunctionBody main
  finishEntryPoint

/-- `codegen` with scopes. -/
def scopedCodegen (unit : TranslationUnit) (stage : ShaderStage) :
    Outcome CodegenError Spirv.Builder :=
  let run : Cg Unit := do
    emitGlobals unit.decls
    match findMain unit.decls with
    | some main => scopedMain main
    | none => cgErr [.text "no `main` function definition found"]
  match run (Ctx.new stage) with
  | .ok (_, s) => .ok s.builder
  | .err e => .err e
  | .panic => .panic
  | .outOfFuel => .outOfFuel

/-! ## Names and their scopes -/

/-- The names declared so far, the last first, each with whether its scope is open. -/
abbrev Scopes := List (String × Bool)

/-- All of them at the end of their scope. -/
def Scopes.close (v : Scopes) : Scopes := v.map fun e => (e.1, false)

mutual

/-- What a statement declares; a statement after a terminator is not emitted. -/
def Stmt.declares : Stmt → Scopes
  | .return_ _ | .expr _ => []
  | .varDecl vd => [(vd.name, true)]
  | .if_ _ then_ else_ => elseDeclares else_ ++ (blockDeclares then_).close
  | .for_ init _ _ body =>
      Scopes.close (if initEnds init then initDeclares init
        else (blockDeclares body).close ++ initDeclares init)
  | .block b => (blockDeclares b).close

def blockDeclares : List Stmt → Scopes
  | [] => []
  | s :: rest => if s.ends then s.declares else blockDeclares rest ++ s.declares

def elseDeclares : Option (List Stmt) → Scopes
  | some b => (blockDeclares b).close
  | none => []

def initDeclares : Option Stmt → Scopes
  | some s => s.declares
  | none => []

end

/-- No identifier is looked up to a name whose scope is closed. -/
def Expr.InScope (v : Scopes) (e : Expr) : Prop := ∀ x ∈ e.idents, v.lookup x ≠ some false

def OptInScope (v : Scopes) (e : Option Expr) : Prop := ∀ e' ∈ e, e'.InScope v

mutual

/-- After the declarations `v`, every identifier of the statement that is emitted is in scope: the
    last declaration of its name, if there is one, is in an open block. -/
def Stmt.WellScoped (v : Scopes) : Stmt → Prop
  | .return_ e => OptInScope v e
  | .varDecl vd => OptInScope v vd.init
  | .expr e => e.InScope v
  | .if_ cond then_ else_ =>
      cond.InScope v ∧ BlockWellScoped v then_ ∧
        ElseWellScoped ((blockDeclares then_).close ++ v) else_
  | .for_ init cond update body =>
      InitWellScoped v init ∧ (initEnds init = true ∨
        OptInScope (initDeclares init ++ v) cond ∧ BlockWellScoped (initDeclares init ++ v) body ∧
          OptInScope ((blockDeclares body).close ++ (initDeclares init ++ v)) update)
  | .block b => BlockWellScoped v b

def BlockWellScoped (v : Scopes) : List Stmt → Prop
  | [] => True
  | s :: rest => s.WellScoped v ∧ (s.ends = true ∨ BlockWellScoped (s.declares ++ v) rest)

def ElseWellScoped (v : Scopes) : Option (List Stmt) → Prop
  | some b => BlockWellScoped v b
  | none => True

def InitWellScoped (v : Scopes) : Option Stmt → Prop
  | some s => s.WellScoped v
  | none => True

end

/-! ## The uses of a pointer -/

/-- How many instructions go through the pointer. -/
def Ctx.uses (s : Ctx) (ptr : Spirv.Id) : Nat :=
  s.builder.insts.countP fun i => decide (i.pointer = some ptr)

/-- The pointers that a body does not allocate itself are below `m`. -/
structure Ctx.Home (s : Ctx) (m : Spirv.Id) : Prop where
  globals : ∀ x g, s.globals.lookup x = some g → g.ptr < m
  members : ∀ x c, s.cbufferMembers.lookup x = some c → c.1 < m
  out : ∀ v ∈ s.outVar, v < m
  next : m ≤ s.builder.nextId

/-- No local variable has the pointer. -/
def Ctx.Unnamed (s : Ctx) (ptr : Spirv.Id) : Prop := ∀ e ∈ s.locals, e.2.ptr ≠ ptr

/-- What a step does to the pointers from `m` to `n`: their uses grow, and they do not if no local
    has the pointer. -/
structure Step (m n : Spirv.Id) (s s' : Ctx) : Prop where
  home : s'.Home m
  next : s.builder.nextId ≤ s'.builder.nextId
  le : ∀ ptr, m ≤ ptr → ptr < n → s.uses ptr ≤ s'.uses ptr
  unnamed : ∀ ptr, m ≤ ptr → ptr < n → s.Unnamed ptr →
    s'.uses ptr = s.uses ptr ∧ s'.Unnamed ptr

section

variable {m n : Spirv.Id} {s s₁ s₂ : Ctx} {ptr : Spirv.Id}

theorem Ctx.Home.notGlobal (h : s.Home m) (hm : m ≤ ptr) : s.toTables.NotGlobal ptr :=
  ⟨fun x g hg => Nat.ne_of_lt (Nat.lt_of_lt_of_le (h.globals x g hg) hm),
    fun x c hc => Nat.ne_of_lt (Nat.lt_of_lt_of_le (h.members x c hc) hm)⟩

theorem Ctx.Unnamed.not_finds (h : s.Unnamed ptr) (xs : List String) :
    ¬ s.toTables.Finds ptr xs := by
  rintro ⟨x, -, l, hl, hptr⟩
  exact h (x, l) (Assoc.mem_of_lookup hl) hptr

theorem Step.refl (h : s.Home m) : Step m n s s :=
  ⟨h, Nat.le_refl _, fun _ _ _ => Nat.le_refl _, fun _ _ _ hu => ⟨rfl, hu⟩⟩

theorem Step.weaken {n' : Spirv.Id} (h : Step m n s s₁) (hle : n' ≤ n) : Step m n' s s₁ :=
  ⟨h.home, h.next, fun ptr hm hlt => h.le ptr hm (Nat.lt_of_lt_of_le hlt hle),
    fun ptr hm hlt => h.unnamed ptr hm (Nat.lt_of_lt_of_le hlt hle)⟩

theorem Step.trans (h : Step m n s s₁) (h' : Step m n s₁ s₂) : Step m n s s₂ := by
  refine ⟨h'.home, Nat.le_trans h.next h'.next, fun ptr hm hlt => ?_, fun ptr hm hlt hu => ?_⟩
  · exact Nat.le_trans (h.le ptr hm hlt) (h'.le ptr hm hlt)
  · obtain ⟨huses, hu₁⟩ := h.unnamed ptr hm hlt hu
    obtain ⟨huses', hu₂⟩ := h'.unnamed ptr hm hlt hu₁
    exact ⟨huses'.trans huses, hu₂⟩

theorem uses_perm {is : List Spirv.Inst} (h : s₁.builder.insts.Perm (s.builder.insts ++ is))
    (ptr : Spirv.Id) :
    s₁.uses ptr = s.uses ptr + is.countP fun i => decide (i.pointer = some ptr) := by
  unfold Ctx.uses
  rw [h.countP_eq, List.countP_append]

theorem countP_pointer_pos {is : List Spirv.Inst} :
    (0 < is.countP fun i => decide (i.pointer = some ptr)) ↔ Spirv.Through ptr is := by
  simp [Spirv.Through]

theorem Step.emit (is : List Spirv.Inst) (hs : s.Home m) (ht : s₁.toTables = s.toTables)
    (ho : s₁.outVar = s.outVar) (hn : s.builder.nextId ≤ s₁.builder.nextId)
    (hi : s₁.builder.insts.Perm (s.builder.insts ++ is))
    (hu : ∀ ptr, m ≤ ptr → ptr < n → s.Unnamed ptr → ¬ Spirv.Through ptr is) :
    Step m n s s₁ := by
  refine ⟨⟨?_, ?_, ?_, Nat.le_trans hs.next hn⟩, hn, fun ptr _ _ => ?_, fun ptr hm hlt hun => ?_⟩
  · rw [ht]
    exact hs.globals
  · rw [ht]
    exact hs.members
  · rw [ho]
    exact hs.out
  · rw [uses_perm hi]
    exact Nat.le_add_right _ _
  · have hnone := mt countP_pointer_pos.1 (hu ptr hm hlt hun)
    refine ⟨?_, ?_⟩
    · rw [uses_perm hi]
      omega
    · intro e he
      rw [ht] at he
      exact hun e he

end

/-- `x` takes steps, and leaves a block selected as `o'` says when it finds one as `o` says. -/
def Tracks {α : Type} (m : Spirv.Id) (x : Cg α) (o o' : Bool) : Prop :=
  ∀ s a s', s.Home m → s.OpenIs o → x s = .ok (a, s') →
    s'.OpenIs o' ∧ Step m s.builder.nextId s s'

namespace Tracks

variable {α β : Type} {m : Spirv.Id} {o o₁ o₂ : Bool}

theorem pure (a : α) : Tracks m (Pure.pure a : Cg α) o o := by
  intro s b s' hs ho h
  cases h
  exact ⟨ho, .refl hs⟩

theorem throw (e : CodegenError) : Tracks m (Comp.throw e : Cg α) o o₁ := by
  intro s b s' hs ho h
  cases h

theorem bind {x : Cg α} {k : α → Cg β} (hx : Tracks m x o o₁) (hk : ∀ a, Tracks m (k a) o₁ o₂) :
    Tracks m (x >>= k) o o₂ := by
  intro s b s' hs ho h
  obtain ⟨a, s₁, h1, h2⟩ := bind_eq_ok h
  obtain ⟨ho₁, hstep⟩ := hx s a s₁ hs ho h1
  obtain ⟨ho₂, hstep'⟩ := hk a s₁ b s' hstep.home ho₁ h2
  exact ⟨ho₂, hstep.trans (hstep'.weaken hstep.next)⟩

theorem get {k : Ctx → Cg β} (hk : ∀ s, Tracks m (k s) o o₁) : Tracks m (Comp.get >>= k) o o₁ := by
  intro s b s' hs ho h
  obtain ⟨s₀, s₁, h0, h1⟩ := bind_eq_ok h
  cases h0
  exact hk s s b s' hs ho h1

end Tracks

section

variable {m : Spirv.Id} {o : Bool}

theorem tracks_builderId : Tracks m builderId o o := by
  intro s id s' hs ho h
  cases h
  refine ⟨ho, Step.emit [] hs rfl rfl (Nat.le_succ _) ?_ fun _ _ _ _ => Spirv.through_nil⟩
  rw [List.append_nil]
  exact List.Perm.refl _

theorem step_extend {s : Ctx} (hs : s.Home m) (ho : s.Open) {n n' : Spirv.Id}
    {cs : List Spirv.Constant} {is : List Spirv.Inst} (ha : Spirv.Adds s.builder.nextId n cs is)
    (hu : ∀ ptr, m ≤ ptr → ptr < n' → s.Unnamed ptr → ¬ Spirv.Through ptr is) :
    (s.extend n cs is).OpenIs true ∧ Step m n' s (s.extend n cs is) :=
  ⟨(ho.extend n cs is).openIs,
    .emit is hs rfl rfl ha.le (extend_emitted ho ha).insts hu⟩

theorem tracks_expr (e : Expr) : Tracks m (emitExpr e) true true := by
  intro s v s' hs ho h
  obtain ⟨n, cs, is, hcode, rfl⟩ := emitExpr_code _ e s v s' ho.isOpen rfl h
  refine step_extend hs ho.isOpen hcode.straight.adds fun ptr hm hlt hun hthrough => ?_
  exact hun.not_finds _ ((hcode.through_iff (hs.notGlobal hm) hlt).1 hthrough)

theorem tracks_coerceToBool (v : Val) : Tracks m (coerceToBool v) true true := by
  intro s id s' hs ho h
  obtain ⟨is, hb, rfl⟩ := coerceToBool_ok ho.isOpen h
  refine step_extend hs ho.isOpen (coerceToBoolOut_straight hb).adds fun ptr _ _ _ => ?_
  unfold coerceToBoolOut at hb
  split at hb
  · cases hb
    exact Spirv.through_nil
  · cases hb
    simp [Spirv.Inst.pointer]
  · cases hb

variable {i : Spirv.Inst}

theorem step_append {s s' : Ctx} {n : Spirv.Id} {what : String} {u : Unit} (hs : s.Home m)
    (ho : s.Open) (hr : i.result = none) (h : append what i s = .ok (u, s'))
    (hi : ∀ ptr, m ≤ ptr → ptr < n → i.pointer ≠ some ptr) : s'.OpenIs true ∧ Step m n s s' := by
  rw [append_ok ho h]
  refine step_extend hs ho (.noResult hr) fun ptr hm hlt _ => ?_
  simp [hi ptr hm hlt]

theorem tracks_append (what : String) (hr : i.result = none) (hi : i.pointer = none) :
    Tracks m (append what i) true true :=
  fun _ _ _ hs ho h => step_append hs ho.isOpen hr h fun _ _ _ => by rw [hi]; exact nofun

theorem tracks_onFunction {o' : Bool} (is : List Spirv.Inst) (what : String)
    {change : Spirv.Function → Option Spirv.Function}
    (hc : ∀ f f', change f = some f' → f'.insts = f.insts ++ is ∧ f'.selected.isSome = o')
    (hi : ∀ ptr, ¬ Spirv.Through ptr is) : Tracks m (onFunction what change) o o' := by
  intro s u s' hs ho h
  obtain ⟨f, f', hf, hchange, rfl⟩ := onFunction_ok h
  obtain ⟨hinsts, ho'⟩ := hc f f' hchange
  refine ⟨⟨f', rfl, ho'⟩, Step.emit is hs rfl rfl (Nat.le_refl _) ?_ fun ptr _ _ _ => hi ptr⟩
  rw [insts_of_func hf, insts_of_func (f := f') rfl, hinsts]

theorem tracks_terminate (what : String) (hi : i.pointer = none) :
    Tracks m (terminate what i) o false := by
  refine tracks_onFunction [i] what (fun f f' hf => ?_) fun ptr => by simp [hi]
  obtain ⟨b, hb, rfl⟩ := Spirv.Function.terminate_eq_some hf
  refine ⟨?_, rfl⟩
  rw [Spirv.Function.insts, Spirv.Function.blocks_terminate hf]
  exact insts_appendAll hb [i]

theorem tracks_begin (label : Spirv.Id) : Tracks m (beginBlock label) o true := by
  refine tracks_onFunction [] _ (fun f f' hf => ?_) fun _ => Spirv.through_nil
  obtain ⟨-, rfl⟩ := Spirv.Function.begin_eq_some hf
  refine ⟨?_, rfl⟩
  rw [Spirv.Function.insts, Spirv.Function.insts, Spirv.Function.blocks_begin hf]
  simp

theorem tracks_allocLocal (ty : Ty) : Tracks m (allocLocal ty) o o := by
  intro s ptr s' hs ho h
  obtain ⟨st, f', -, rfl, rfl, hinsts, ho'⟩ := allocLocal_ok ho h
  refine ⟨⟨f', rfl, ho'⟩, .emit [.variable (.pointer .function st) s.builder.nextId .function] hs
    rfl rfl (Nat.le_succ _) ?_ ?_⟩
  · rw [insts_of_func (f := f') rfl, hinsts]
    exact (List.perm_append_singleton _ _).symm
  · intro ptr _ _ _
    simp [Spirv.Inst.pointer]

/-! ### Statements -/

theorem Step.addLocal {n : Spirv.Id} {s s₁ s' : Ctx} {name : String} {l : Local} {u : Unit}
    (h : Step m n s s₁) (hl : n ≤ l.ptr) (hadd : addLocal name l s₁ = .ok (u, s')) :
    Step m n s s' := by
  cases hadd
  refine ⟨⟨h.home.globals, h.home.members, h.home.out, h.home.next⟩, h.next, h.le, ?_⟩
  intro ptr hm hlt hu
  obtain ⟨huses, hun⟩ := h.unnamed ptr hm hlt hu
  refine ⟨huses, fun e he => ?_⟩
  rcases List.mem_cons.1 he with rfl | he
  · exact (Nat.ne_of_lt (Nat.lt_of_lt_of_le hlt hl)).symm
  · exact hun e he

theorem tracks_varDecl (vd : VarDecl) : Tracks m (emitVarDecl vd) true true := by
  intro s u s' hs ho h
  obtain ⟨ptr, s₁, h1, h⟩ := bind_eq_ok h
  obtain ⟨ho₁, hstep₁⟩ := tracks_allocLocal vd.ty s ptr s₁ hs ho h1
  have hptr : s.builder.nextId ≤ ptr := by
    obtain ⟨st, f', -, rfl, -⟩ := allocLocal_ok ho h1
    exact Nat.le_refl _
  cases hinit : vd.init with
  | none =>
    rw [hinit] at h
    have hadd : addLocal vd.name ⟨ptr, vd.ty⟩ s₁ = .ok (u, s') := h
    refine ⟨?_, hstep₁.addLocal hptr hadd⟩
    cases hadd
    exact ho₁
  | some e =>
    rw [hinit] at h
    obtain ⟨v, s₂, h2, h⟩ := bind_eq_ok h
    obtain ⟨ho₂, hstep₂⟩ := tracks_expr e s₁ v s₂ hstep₁.home ho₁ h2
    obtain ⟨u₃, s₃, h3, h⟩ := bind_eq_ok h
    have hstep := hstep₁.trans (hstep₂.weaken hstep₁.next)
    obtain ⟨ho₃, hstep₃⟩ := step_append (n := s.builder.nextId) hstep₂.home ho₂.isOpen rfl h3
      fun p _ hlt => by
        have hne : ptr ≠ p := (Nat.ne_of_lt (Nat.lt_of_lt_of_le hlt hptr)).symm
        simp [Spirv.Inst.pointer, hne]
    refine ⟨?_, (hstep.trans hstep₃).addLocal hptr h⟩
    cases h
    exact ho₃

theorem tracks_output (v : Val) : Tracks m (do
    let s ← Comp.get
    match s.outVar with
    | some out => do
        store out v.id
        terminate "ret" .ret
    | none => terminate "ret" .ret) true false := by
  have hret := tracks_terminate (m := m) (o := true) "ret" (i := .ret) rfl
  intro s u s' hs ho h
  obtain ⟨s₀, s₁, h0, h⟩ := bind_eq_ok h
  cases h0
  cases hout : s.outVar with
  | none =>
    rw [hout] at h
    exact hret s u s' hs ho h
  | some out =>
    rw [hout] at h
    obtain ⟨u₁, s₁, h1, h2⟩ := bind_eq_ok h
    obtain ⟨ho₁, hstep⟩ := step_append (n := s.builder.nextId) hs ho.isOpen rfl h1
      fun p hm _ => by
        have hne : out ≠ p := Nat.ne_of_lt (Nat.lt_of_lt_of_le (hs.out out hout) hm)
        simp [Spirv.Inst.pointer, hne]
    obtain ⟨ho₂, hstep'⟩ := hret s₁ u s' hstep.home ho₁ h2
    exact ⟨ho₂, hstep.trans (hstep'.weaken hstep.next)⟩

end

end WinCompat.Hlsl
