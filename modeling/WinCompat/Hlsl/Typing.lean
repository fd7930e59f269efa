import WinCompat.Hlsl.ControlFlow
import WinCompat.Lib.SpirvTyping

/-!
# Well-typed shaders

When a translation unit is well typed for the compiler at hand, which converts little: a scalar in an
assignment between float and the integers, and nothing else. The rules follow the source, declaration
by declaration and statement by statement, in the order in which they are compiled; a scope says what
the names mean at a point.

Names are not scoped by blocks, since the compiler forgets no local; and what follows a statement that
ends its block is not compiled, so it is not looked at.
-/

namespace WinCompat.Hlsl

open Lib

/-! ## Operators -/

/-- The kind of a scalar, or the kind and the number of components of a vector. -/
def Ty.shape : Ty → Option (ScalarKind × Option Nat)
  | .scalar k => some (k, none)
  | .vector k n => some (k, some n)
  | _ => none

def ScalarKind.isInteger : ScalarKind → Bool
  | .int | .uint => true
  | _ => false

/-- One shape, and floats on both sides or integers on both sides. -/
def Numeric (l r : Ty) : Prop :=
  ∃ k k' size, l.shape = some (k, size) ∧ r.shape = some (k', size) ∧
    (k = .float ∧ k' = .float ∨ k.isInteger = true ∧ k'.isInteger = true)

/-- The operands of an operator that is no assignment. Only an unsigned division minds the sign of its
    operands. -/
def OperandsTyped (op : BinaryOp) (l r : Ty) : Prop :=
  if isLogical op then l = .scalar .bool ∧ r = .scalar .bool
  else Numeric l r ∧ (op = .div → (arithTy l r).shape.map Prod.fst = some .uint → l = r)

def OperandTyped (op : UnaryOp) (ty : Ty) : Prop :=
  ∃ k size, ty.shape = some (k, size) ∧
    match op with
    | .neg => k ≠ .bool
    | .not => k ≠ .float
    | .bitNot => k.isInteger = true

/-- An integer converts to a float only. -/
def Converts (ty : Ty) (kind : ScalarKind) : Prop :=
  ∀ k, ty = .scalar k → k.isInteger = true → kind = k ∨ kind = .float

/-- The type of a value after `coerce_scalar`. -/
def Ty.coercedScalar (ty : Ty) (kind : ScalarKind) : Ty :=
  if (coerceOp ty kind).isSome then .scalar kind else ty

/-- The type of a value after `coerce`. -/
def Ty.coerced (ty target : Ty) : Ty :=
  match ty, target with
  | .scalar _, .scalar kind => ty.coercedScalar kind
  | _, _ => ty

/-! ## Constructors and calls -/

def constructTy (ty : Ty) (tys : List Ty) : Option Ty :=
  match ty, tys with
  | .scalar .float, [v] => some v
  | .scalar kind, [v] => some (v.coercedScalar kind)
  | .vector _ _, _ => some ty
  | _, _ => none

/-- How many components a value supplies. -/
def Ty.width : Ty → Nat
  | .vector _ n => n
  | _ => 1

def ConstructTyped (ty : Ty) (tys : List Ty) : Prop :=
  match ty, tys with
  | .scalar kind, [v] => kind ≠ .float → Converts v kind
  | .vector kind n, [v] => n = 0 ∨ v = .scalar kind
  | .vector kind n, _ =>
      (∀ v ∈ tys, ∃ size, v.shape = some (kind, size)) ∧ (tys.map Ty.width).sum = n
  | _, _ => True

def productTy (a b : Ty) : Option Ty :=
  match matrixProduct a b with
  | some (.ok (_, ty)) => some ty
  | some (.error _) => none
  | none => some (arithTy a b)

def ProductTyped (a b : Ty) : Prop :=
  match a, b with
  | .matrix k _ _, .vector k' _ => k = .float ∧ k' = .float
  | .vector k n, .matrix k' rows _ => k = .float ∧ k' = .float ∧ n = rows
  | .matrix k _ cols, .matrix k' rows _ => k = .float ∧ k' = .float ∧ cols = rows
  | _, _ => OperandsTyped .mul a b

def callTy (name : String) (tys : List Ty) : Option Ty :=
  if name = "dot" then tys.head?.map Ty.scalarPart
  else if name = "mul" then
    match tys with
    | [a, b] => productTy a b
    | _ => none
  else if name = "length" then some (.scalar .float)
  else tys.getLast?

def IsFloating (ty : Ty) : Prop := ∃ size, ty.shape = some (.float, size)

def CallTyped (name : String) (tys : List Ty) : Prop :=
  if name = "dot" then ∃ n, tys = [.vector .float n, .vector .float n]
  else if name = "mul" then ∃ a b, tys = [a, b] ∧ ProductTyped a b
  else if name = "length" then ∀ ty ∈ tys, IsFloating ty
  else ∃ size, (∀ ty ∈ tys, ty.shape = some (.float, size)) ∧ (name = "cross" → size = some 3)

/-! ## Scopes -/

/-- A global: its declared type, and the storage class and type that its pointer has. -/
structure GlobalTy where
  ty : Ty
  cls : Spirv.StorageClass
  pointee : Spirv.Ty

/-- What names mean. A member of a cbuffer is a global as well; `members` has the type of its cbuffer
    and its index. `out` is the type of the output. -/
structure Scope where
  structs : List (String × StructInfo)
  globals : List (String × GlobalTy)
  members : List (String × (Spirv.Ty × Nat))
  locals : List (String × Ty)
  out : Spirv.Ty

namespace Scope

/-- The types of the names, for `infer_type`; the ids are left out. -/
def names (sc : Scope) : Tables where
  glslSet := 0
  structs := sc.structs
  globals := sc.globals.map fun g => (g.1, ⟨0, g.2.ty⟩)
  cbufferMembers := []
  locals := sc.locals.map fun l => (l.1, ⟨0, l.2⟩)

def typeOf (sc : Scope) (ty : Ty) : Option Spirv.Ty := (sc.names.typeId ty).toOption

def valueTypeOf (sc : Scope) (ty : Ty) : Option Spirv.Ty := (sc.names.valueTypeId ty).toOption

def addLocal (sc : Scope) (name : String) (ty : Ty) : Scope :=
  { sc with locals := (name, ty) :: sc.locals }

def addGlobal (sc : Scope) (name : String) (g : GlobalTy) : Scope :=
  { sc with globals := (name, g) :: sc.globals }

/-- A member of a struct, with its index. -/
def memberOf (sc : Scope) (ty : Ty) (member : String) : Option (Nat × StructMember) :=
  match ty with
  | .struct name => do
      let info ← sc.structs.lookup name
      let idx ← info.members.findIdx? (·.name = member)
      let m ← info.members.find? (·.name = member)
      pure (idx, m)
  | _ => none

/-! ## Places -/

/-- The declared type of a place, and the storage class and type of the pointer to it. -/
def placeTy (sc : Scope) : Expr → Option GlobalTy
  | .ident x =>
      match sc.locals.lookup x, sc.members.lookup x, sc.globals.lookup x with
      | some ty, _, _ => (sc.typeOf ty).map fun st => ⟨ty, .function, st⟩
      | none, some _, some g => (sc.typeOf g.ty).map fun st => ⟨g.ty, .uniform, st⟩
      | none, none, some g => some g
      | none, _, none => none
  | .member base member => do
      let p ← sc.placeTy base
      let (_, m) ← sc.memberOf p.ty member
      let st ← sc.typeOf m.ty
      pure ⟨m.ty, .function, st⟩
  | _ => none

/-- The pointers on the way to a place are typed: a member of a cbuffer has the type that its cbuffer
    gives it, and a struct whose member is taken is in a local. -/
def PlaceTyped (sc : Scope) : Expr → Prop
  | .ident x =>
      match sc.locals.lookup x, sc.members.lookup x, sc.globals.lookup x with
      | none, some (cbuffer, idx), some g => cbuffer.component (idx % 2 ^ 32) = sc.typeOf g.ty
      | _, _, _ => True
  | .member base member =>
      sc.PlaceTyped base ∧ ∃ p idx m, sc.placeTy base = some p ∧
        sc.memberOf p.ty member = some (idx, m) ∧ p.cls = .function ∧
        p.pointee.component (idx % 2 ^ 32) = sc.typeOf m.ty
  | _ => True

/-! ## Expressions -/

mutual

/-- The type of the value that an expression is compiled to. -/
def valTy (sc : Scope) : Expr → Option Ty
  | .literal l => some l.ty
  | .ident x => (sc.placeTy (.ident x)).map GlobalTy.ty
  | .construct ty args => do
      let tys ← sc.valTys args
      constructTy ty tys
  | .call name args => do
      let tys ← sc.valTys args
      callTy name tys
  | .methodCall _ _ _ => some (.vector .float 4)
  | .member base member =>
      match sc.names.inferType base with
      | .ok (.struct _) => (sc.placeTy (.member base member)).map GlobalTy.ty
      | .ok (.vector kind _) => (decodeSwizzle member).map (swizzleTy kind)
      | _ => none
  | .binary op lhs rhs =>
      if op = .assign then do
        let p ← sc.placeTy lhs
        let v ← sc.valTy rhs
        pure (v.coerced p.ty)
      else
        match coreOp op with
        | some _ => do
            let p ← sc.placeTy lhs
            let v ← sc.valTy rhs
            pure (arithTy p.ty v)
        | none => do
            let l ← sc.valTy lhs
            let r ← sc.valTy rhs
            if isComparison op then pure (inferComparison l)
            else if isLogical op then pure (.scalar .bool)
            else pure (arithTy l r)
  | .unary _ e => sc.valTy e
  | .cast ty _ => some ty

def valTys (sc : Scope) : List Expr → Option (List Ty)
  | [] => some []
  | e :: es => do
      let ty ← sc.valTy e
      let tys ← sc.valTys es
      pure (ty :: tys)

end

/-- The components that a swizzle takes from a value. -/
def SwizzleTyped (sc : Scope) (v : Ty) (kind : ScalarKind) (comps : List Nat) : Prop :=
  match comps with
  | [c] => ∃ st, sc.valueTypeOf v = some st ∧ st.component c = some (scalarTypeId kind)
  | _ => ∃ n, v = .vector kind n ∧ ∀ c ∈ comps, c < n

/-- The value of type `v` that an assignment stores in a place. -/
def AssignTyped (sc : Scope) (p : GlobalTy) (v : Ty) : Prop :=
  (∀ k kind, v = .scalar k → p.ty = .scalar kind → Converts v kind) ∧
    sc.valueTypeOf (v.coerced p.ty) = some p.pointee

mutual

/-- An expression is well typed. A texture cannot be sampled. -/
def Typed (sc : Scope) : Expr → Prop
  | .literal _ => True
  | .ident x =>
      sc.PlaceTyped (.ident x) ∧
        ∃ p, sc.placeTy (.ident x) = some p ∧ sc.valueTypeOf p.ty = some p.pointee
  | .construct ty args =>
      sc.AllTyped args ∧ ∃ tys, sc.valTys args = some tys ∧ ConstructTyped ty tys
  | .call name args => sc.AllTyped args ∧ ∃ tys, sc.valTys args = some tys ∧ CallTyped name tys
  | .methodCall _ _ _ => False
  | .member base member =>
      match sc.names.inferType base with
      | .ok (.struct _) => sc.PlaceTyped (.member base member)
      | .ok (.vector kind _) =>
          sc.Typed base ∧ ∃ v comps, sc.valTy base = some v ∧ decodeSwizzle member = some comps ∧
            sc.SwizzleTyped v kind comps
      | _ => True
  | .binary op lhs rhs =>
      if op = .assign then
        sc.PlaceTyped lhs ∧ sc.Typed rhs ∧
          ∃ p v, sc.placeTy lhs = some p ∧ sc.valTy rhs = some v ∧ sc.AssignTyped p v
      else
        match coreOp op with
        | some core =>
            sc.PlaceTyped lhs ∧ sc.Typed rhs ∧
              ∃ p v, sc.placeTy lhs = some p ∧ sc.valTy rhs = some v ∧
                sc.valueTypeOf p.ty = some p.pointee ∧ OperandsTyped core p.ty v ∧
                sc.valueTypeOf (arithTy p.ty v) = some p.pointee
        | none =>
            sc.Typed lhs ∧ sc.Typed rhs ∧
              ∃ l r, sc.valTy lhs = some l ∧ sc.valTy rhs = some r ∧ OperandsTyped op l r
  | .unary op e => sc.Typed e ∧ ∃ v, sc.valTy e = some v ∧ OperandTyped op v
  | .cast _ e => sc.Typed e

def AllTyped (sc : Scope) : List Expr → Prop
  | [] => True
  | e :: es => sc.Typed e ∧ sc.AllTyped es

end

/-- A local is a well-typed expression. -/
theorem typed_local {sc : Scope} {x : String} {ty : Ty} {st : Spirv.Ty}
    (hx : sc.locals.lookup x = some ty) (hst : sc.typeOf ty = some st) :
    sc.Typed (.ident x) ∧ sc.valTy (.ident x) = some ty := by
  have hplace : sc.placeTy (.ident x) = some ⟨ty, .function, st⟩ := by
    simp [placeTy, hx, hst]
  refine ⟨?_, by simp [valTy, hplace]⟩
  simp only [Typed]
  refine ⟨by simp [PlaceTyped, hx], _, hplace, ?_⟩
  cases ty with
  | texture2D | samplerState => cases hst
  | _ => exact hst

/-! ## Statements -/

/-- An initialiser is stored as it is, without a conversion. -/
def VarDeclTyped (sc : Scope) (vd : VarDecl) : Prop :=
  match vd.init with
  | some e => sc.Typed e ∧ ∃ v, sc.valTy e = some v ∧ sc.valueTypeOf v = sc.typeOf vd.ty
  | none => True

/-- A returned value has the type of the output. -/
def ReturnTyped (sc : Scope) : Option Expr → Prop
  | some e => sc.Typed e ∧ ∃ v, sc.valTy e = some v ∧ sc.valueTypeOf v = some sc.out
  | none => True

def OptTyped (sc : Scope) : Option Expr → Prop
  | some e => sc.Typed e
  | none => True

mutual

/-- The scope after a statement. -/
def afterStmt (sc : Scope) : Stmt → Scope
  | .varDecl vd => sc.addLocal vd.name vd.ty
  | .if_ _ then_ else_ => (sc.afterBlock then_).afterElse else_
  | .for_ init _ _ body =>
      if initEnds init then sc.afterInit init else (sc.afterInit init).afterBlock body
  | .block b => sc.afterBlock b
  | _ => sc

def afterBlock (sc : Scope) : List Stmt → Scope
  | [] => sc
  | s :: rest => if s.ends then sc.afterStmt s else (sc.afterStmt s).afterBlock rest

def afterElse (sc : Scope) : Option (List Stmt) → Scope
  | some b => sc.afterBlock b
  | none => sc

def afterInit (sc : Scope) : Option Stmt → Scope
  | some s => sc.afterStmt s
  | none => sc

end

mutual

def StmtTyped (sc : Scope) : Stmt → Prop
  | .return_ e => sc.ReturnTyped e
  | .varDecl vd => sc.VarDeclTyped vd
  | .expr e => sc.Typed e
  | .if_ cond then_ else_ =>
      sc.Typed cond ∧ sc.BlockTyped then_ ∧ (sc.afterBlock then_).ElseTyped else_
  | .for_ init cond update body =>
      sc.InitTyped init ∧ (initEnds init = true ∨
        (sc.afterInit init).OptTyped cond ∧ (sc.afterInit init).BlockTyped body ∧
          ((sc.afterInit init).afterBlock body).OptTyped update)
  | .block b => sc.BlockTyped b

def BlockTyped (sc : Scope) : List Stmt → Prop
  | [] => True
  | s :: rest => sc.StmtTyped s ∧ (s.ends = true ∨ (sc.afterStmt s).BlockTyped rest)

def ElseTyped (sc : Scope) : Option (List Stmt) → Prop
  | some b => sc.BlockTyped b
  | none => True

def InitTyped (sc : Scope) : Option Stmt → Prop
  | some s => sc.StmtTyped s
  | none => True

end

/-! ## Declarations -/

def memberTypes (sc : Scope) : List StructMember → Option (List Spirv.Ty)
  | [] => some []
  | m :: rest => do
      let t ← sc.typeOf m.ty
      let ts ← sc.memberTypes rest
      pure (t :: ts)

def addStruct (sc : Scope) (name : String) (info : StructInfo) : Scope :=
  { sc with structs := (name, info) :: sc.structs }

/-- The members of a cbuffer of the type `cbuffer`, from member `i` on. -/
def addMembers (sc : Scope) (cbuffer : Spirv.Ty) : List StructMember → Nat → Scope
  | [], _ => sc
  | m :: rest, i =>
      let sc := sc.addGlobal m.name ⟨m.ty, .uniform, cbuffer⟩
      { sc with members := (m.name, (cbuffer, i)) :: sc.members }.addMembers cbuffer rest (i + 1)

/-- The scope after a declaration; a struct keeps its first declaration. -/
def afterDecl (sc : Scope) : Decl → Option Scope
  | .struct d =>
      if (sc.structs.lookup d.name).isSome then some sc
      else do
        let ts ← sc.memberTypes d.members
        pure (sc.addStruct d.name ⟨.struct ts, d.members⟩)
  | .cbuffer c => do
      let ts ← sc.memberTypes c.members
      let sc := sc.addStruct c.name ⟨.struct ts, c.members⟩
      let sc := sc.addGlobal c.name ⟨.struct c.name, .uniform, .struct ts⟩
      pure (sc.addMembers (.struct ts) c.members 0)
  | .globalVar g => do
      let t ← sc.valueTypeOf g.ty
      pure (sc.addGlobal g.name ⟨g.ty, .uniformConstant, t⟩)
  | .function _ => some sc

def afterDecls (sc : Scope) : List Decl → Option Scope
  | [] => some sc
  | d :: rest => do
      let sc ← sc.afterDecl d
      sc.afterDecls rest

/-- The inputs of the entry point are globals. -/
def addInputs (sc : Scope) : List Param → Option Scope
  | [] => some sc
  | p :: rest => do
      let t ← sc.typeOf p.ty
      (sc.addGlobal p.name ⟨p.ty, .input, t⟩).addInputs rest

/-- A parameter is copied from the global of its name. -/
def ParamsTyped (sc : Scope) (params : List Param) : Prop :=
  ∀ p ∈ params, ∃ g, sc.globals.lookup p.name = some g ∧ sc.typeOf p.ty = some g.pointee

def addParams (sc : Scope) : List Param → Scope
  | [] => sc
  | p :: rest => (sc.addLocal p.name p.ty).addParams rest

def empty : Scope where
  structs := []
  globals := []
  members := []
  locals := []
  out := .void

/-- The scope in which the entry point `main` of a translation unit begins. -/
def entry (unit : TranslationUnit) (main : FunctionDecl) : Option Scope := do
  let sc ← empty.afterDecls unit.decls
  let sc ← sc.addInputs main.params
  let out ← sc.typeOf main.returnType
  pure { sc with out := out }

end Scope

/-- The entry point of a translation unit is well typed. -/
def UnitTyped (unit : TranslationUnit) : Prop :=
  ∃ main body sc, findMain unit.decls = some main ∧ main.body = some body ∧
    Scope.entry unit main = some sc ∧ sc.ParamsTyped main.params ∧
    (sc.addParams main.params).BlockTyped body

end WinCompat.Hlsl
