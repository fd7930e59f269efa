import WinCompat.Hlsl.Token
import WinCompat.Lib.Comp
import WinCompat.Lib.Spirv

/-!
# Code generation

`hlsl-compiler/src/codegen.rs`. The context is the state of a computation that can report an error
or crash; a crash is an index out of range or an unsigned overflow. Where the source hands an
expression to a method that emits it, the method here takes the emission itself, so that the
recursion is on the tree alone.

A `HashMap` is a list of entries, the newest first; so are the locals, which the source searches
from the back. Debug names are left out.
-/

namespace WinCompat.Hlsl

open Lib

/-! ## The context -/

inductive ShaderStage
  | vertex
  | pixel
  deriving DecidableEq

def ShaderStage.executionModel : ShaderStage → Spirv.ExecutionModel
  | .vertex => .vertex
  | .pixel => .fragment

/-- A part of a message: text, something printed, or the error of a builder call. -/
inductive MsgPart
  | text (s : String)
  | ty (ty : Ty)
  | expr (e : Expr)
  | op (op : BinaryOp)
  | unary (op : UnaryOp)
  | number (n : Nat)
  | builder

structure CodegenError where
  msg : List MsgPart

structure Val where
  id : Spirv.Id
  ty : Ty

structure Place where
  ptr : Spirv.Id
  ty : Ty

structure StructInfo where
  typeId : Spirv.Ty
  members : List StructMember

structure Global where
  ptr : Spirv.Id
  ty : Ty

structure Local where
  ptr : Spirv.Id
  ty : Ty

/-- What names mean. -/
structure Tables where
  glslSet : Spirv.Id
  structs : List (String × StructInfo)
  globals : List (String × Global)
  cbufferMembers : List (String × (Spirv.Id × Spirv.Id))
  locals : List (String × Local)

structure Ctx extends Tables where
  stage : ShaderStage
  builder : Spirv.Builder
  outVar : Option Spirv.Id
  outTy : Ty
  interface : List Spirv.Id

abbrev Cg := Comp Ctx CodegenError

def cgErr {α : Type} (msg : List MsgPart) : Cg α := Comp.throw ⟨msg⟩

def Outcome.cgErr {α : Type} (msg : List MsgPart) : Outcome CodegenError α := .err ⟨msg⟩

/-- `Ctx::new`. The extended-instruction set has the first id. -/
def Ctx.new (stage : ShaderStage) : Ctx where
  stage := stage
  builder := Spirv.Builder.new.fresh.2
  glslSet := Spirv.Builder.new.fresh.1
  structs := []
  globals := []
  cbufferMembers := []
  locals := []
  outVar := none
  outTy := .void
  interface := []

/-! ## Builder calls -/

def builderId : Cg Spirv.Id := fun s =>
  let r := s.builder.fresh
  .ok (r.1, { s with builder := r.2 })

def constOp (ty : Spirv.Ty) (bits : BitVec 32) : Cg Spirv.Id := fun s =>
  let r := s.builder.constant ty bits
  .ok (r.1, { s with builder := r.2 })

def globalVariable (ty : Spirv.Ty) (cls : Spirv.StorageClass) : Cg Spirv.Id := fun s =>
  let r := s.builder.globalVariable ty cls
  .ok (r.1, { s with builder := r.2 })

def decorate (t : Spirv.Target) (d : Spirv.Decoration) : Cg Unit :=
  Comp.modify fun s => { s with builder := s.builder.decorate t d }

/-- A builder call that changes the function; without a selected block it is an error. -/
def onFunction (what : String) (change : Spirv.Function → Option Spirv.Function) : Cg Unit := fun s =>
  match s.builder.onFunction change with
  | some b => .ok ((), { s with builder := b })
  | none => .err ⟨[.text (what ++ " failed: "), .builder]⟩

def append (what : String) (i : Spirv.Inst) : Cg Unit := onFunction what (·.append i)

def terminate (what : String) (i : Spirv.Inst) : Cg Unit := onFunction what (·.terminate i)

/-- `func.blocks[0].instructions.insert(0, inst)`, with its check. -/
def insertFront (i : Spirv.Inst) : Cg Unit := fun s =>
  match s.builder.onFunction (·.insertFront i) with
  | some b => .ok ((), { s with builder := b })
  | none => .err ⟨[.text "function has no entry block yet"]⟩

def beginBlock (label : Spirv.Id) : Cg Unit := onFunction "begin_block" (·.begin_ label)

/-- A fresh id and the instruction that has it as its result. -/
def appendResult (what : String) (i : Spirv.Id → Spirv.Inst) : Cg Spirv.Id := do
  let id ← builderId
  append what (i id)
  pure id

def load (ty : Spirv.Ty) (ptr : Spirv.Id) : Cg Spirv.Id :=
  appendResult "load" fun id => .load ty id ptr

def store (ptr object : Spirv.Id) : Cg Unit := append "store" (.store ptr object)

def accessChain (ty : Spirv.Ty) (base : Spirv.Id) (indexes : List Spirv.Id) : Cg Spirv.Id :=
  appendResult "access_chain" fun id => .accessChain ty id base indexes

def compositeConstruct (ty : Spirv.Ty) (constituents : List Spirv.Id) : Cg Spirv.Id :=
  appendResult "composite_construct" fun id => .compositeConstruct ty id constituents

def extInst (ty : Spirv.Ty) (instruction : Nat) (operands : List Spirv.Id) : Cg Spirv.Id := do
  let s ← Comp.get
  appendResult "ext_inst" fun id => .extInst ty id s.glslSet instruction operands

/-- `push_block_inst` of an instruction with a fresh id. -/
def pushBlockInst (i : Spirv.Id → Spirv.Inst) : Cg Spirv.Id :=
  appendResult "instruction insert" i

def isTerminated : Cg Bool := do
  let s ← Comp.get
  match s.builder.func with
  | some f => pure f.selected.isNone
  | none => pure true

/-! ## Type ids -/

def scalarTypeId : ScalarKind → Spirv.Ty
  | .float => .float
  | .int => .int true
  | .uint => .int false
  | .bool => .bool

def vectorTypeId (k : ScalarKind) (n : Nat) : Spirv.Ty := .vector (scalarTypeId k) n

/-- `type_id`: the type a declared type stands for. -/
def Tables.typeId (t : Tables) : Ty → Outcome CodegenError Spirv.Ty
  | .void => pure .void
  | .scalar k => pure (scalarTypeId k)
  | .vector k n => pure (vectorTypeId k n)
  | .matrix k rows cols => pure (.matrix (vectorTypeId k rows) cols)
  | .struct name =>
      match t.structs.lookup name with
      | some info => pure info.typeId
      | none => Outcome.cgErr [.text s!"unknown struct type `{name}`"]
  | .texture2D => Outcome.cgErr [.text "Texture2D has no plain value type"]
  | .samplerState => Outcome.cgErr [.text "SamplerState has no plain value type"]

/-- `value_type_id`. -/
def Tables.valueTypeId (t : Tables) : Ty → Outcome CodegenError Spirv.Ty
  | .texture2D => pure .sampledImage
  | .samplerState => pure .sampler
  | other => t.typeId other

def typeId (ty : Ty) : Cg Spirv.Ty := Comp.read fun s => s.typeId ty

def valueTypeId (ty : Ty) : Cg Spirv.Ty := Comp.read fun s => s.valueTypeId ty

/-! ## Constants -/

/-- `m` shifted right by `k` bits, to the nearest and then to even. -/
def roundShift (m k : Nat) : Nat :=
  let q := m / 2 ^ k
  let r := m % 2 ^ k
  if 2 ^ k < 2 * r ∨ (2 * r = 2 ^ k ∧ q % 2 = 1) then q + 1 else q

/-- `v as f32` for an `f64`, on the bits. -/
def f32OfF64 (bits : BitVec 64) : BitVec 32 :=
  let sign := bits.toNat / 2 ^ 63
  let e := bits.toNat / 2 ^ 52 % 2 ^ 11
  let m := bits.toNat % 2 ^ 52
  let magnitude :=
    if e = 2047 then
      if m = 0 then 255 * 2 ^ 23 else 255 * 2 ^ 23 + 2 ^ 22 + m / 2 ^ 29 % 2 ^ 22
    else if 897 ≤ e then
      -- the exponent of the result is `e - 896`, and the leading one of the significand adds 1 to it
      Nat.min (255 * 2 ^ 23) ((e - 897) * 2 ^ 23 + roundShift (2 ^ 52 + m) 29)
    else if e = 0 then 0
    else roundShift (2 ^ 52 + m) (29 + (897 - e))
  BitVec.ofNat 32 (sign * 2 ^ 31 + magnitude)

example : f32OfF64 0x3FF0000000000000 = 0x3F800000 := by decide

def floatConst (bits : BitVec 64) : Cg Spirv.Id := constOp .float (f32OfF64 bits)

def intConst (v : BitVec 32) (signed : Bool) : Cg Spirv.Id := constOp (.int signed) v

def boolConst (v : Bool) : Cg Spirv.Id := constOp .bool (if v then 1 else 0)

/-- `Expr::Literal` in `emit_expr`: `v as i32` and `v as u32` keep the low half. -/
def emitLiteral : Literal → Cg Val
  | .float bits => do
      let id ← floatConst bits
      pure ⟨id, .scalar .float⟩
  | .int v => do
      let id ← intConst (v.setWidth 32) true
      pure ⟨id, .scalar .int⟩
  | .uint v => do
      let id ← intConst (v.setWidth 32) false
      pure ⟨id, .scalar .uint⟩
  | .bool v => do
      let id ← boolConst v
      pure ⟨id, .scalar .bool⟩

/-! ## Helpers -/

def Ty.isComposite : Ty → Bool
  | .vector _ _ | .matrix _ _ _ => true
  | _ => false

def Ty.matrixCols : Ty → Nat
  | .matrix _ _ c => c
  | _ => 1

def isComparison : BinaryOp → Bool
  | .eq | .ne | .lt | .le | .gt | .ge => true
  | _ => false

def isLogical : BinaryOp → Bool
  | .and | .or => true
  | _ => false

def swizzleComponent : Char → Option Nat
  | 'x' | 'r' => some 0
  | 'y' | 'g' => some 1
  | 'z' | 'b' => some 2
  | 'w' | 'a' => some 3
  | _ => none

/-- `decode_swizzle`. A member name is an identifier, whose bytes are its characters. -/
def decodeSwizzle (s : String) : Option (List Nat) :=
  if s.toList = [] ∨ 4 < s.toList.length then none else s.toList.mapM swizzleComponent

/-! ## Places -/

/-- `emit_place`. -/
def emitPlace : Expr → Cg Place
  | .ident name => do
      let s ← Comp.get
      match s.locals.lookup name with
      | some l => pure ⟨l.ptr, l.ty⟩
      | none =>
          match s.cbufferMembers.lookup name with
          | some (cbvar, idxConst) =>
              match s.globals.lookup name with
              | some g => do
                  let memberTyId ← typeId g.ty
                  let ptr ← accessChain (.pointer .uniform memberTyId) cbvar [idxConst]
                  pure ⟨ptr, g.ty⟩
              | none => cgErr [.text s!"cbuffer member `{name}` has no type"]
          | none =>
              match s.globals.lookup name with
              | some g => pure ⟨g.ptr, g.ty⟩
              | none => cgErr [.text s!"undefined identifier `{name}`"]
  | .member base member => do
      let basePlace ← emitPlace base
      match basePlace.ty with
      | .struct name => do
          let s ← Comp.get
          match s.structs.lookup name with
          | some info =>
              match info.members.findIdx? (·.name = member), info.members.find? (·.name = member) with
              | some idx, some m => do
                  let idxConst ← intConst (BitVec.ofNat 32 idx) true
                  let memberTyId ← typeId m.ty
                  let ptr ← accessChain (.pointer .function memberTyId) basePlace.ptr [idxConst]
                  pure ⟨ptr, m.ty⟩
              | _, _ => cgErr [.text s!"no member `{member}` in `{name}`"]
          | none => cgErr [.text s!"unknown struct `{name}`"]
      | other =>
          cgErr [.text s!"cannot take address of member `{member}` of non-struct `", .ty other,
            .text "`"]
  | other => cgErr [.text "expression is not assignable: ", .expr other]

/-! ## Type inference -/

/-- The component type of a vector, and any other type itself: the result of `dot`. -/
def Ty.scalarPart : Ty → Ty
  | .vector k _ => .scalar k
  | other => other

/-- The type of a member access, given the type of its base. -/
def Tables.inferMember (t : Tables) (baseTy : Ty) (member : String) : Outcome CodegenError Ty :=
  match baseTy with
  | .struct name =>
      match t.structs.lookup name with
      | some info =>
          match info.members.find? (·.name = member) with
          | some m => pure m.ty
          | none => Outcome.cgErr [.text s!"no member `{member}`"]
      | none => Outcome.cgErr [.text s!"unknown struct `{name}`"]
  | .vector k _ =>
      match decodeSwizzle member with
      | some comps => pure (if comps.length = 1 then .scalar k else .vector k comps.length)
      | none => Outcome.cgErr [.text s!"invalid swizzle `.{member}`"]
  | other => Outcome.cgErr [.text "member access on `", .ty other, .text "`"]

/-- `args[i]` of a slice. -/
def argAt {ε α : Type} (args : List (Outcome ε α)) (i : Nat) : Outcome ε α := args.getD i .panic

/-- The intrinsics whose result has the type of the first argument. -/
def infersFirst : List String :=
  ["normalize", "abs", "sqrt", "rsqrt", "sin", "cos", "tan", "exp", "log", "floor", "ceil", "frac",
    "saturate", "clamp", "lerp", "min", "max", "pow", "cross"]

/-- The result type of `mul` in `infer_type`. -/
def inferMul (a b : Ty) : Ty :=
  match a, b with
  | .matrix _ r _, .vector _ _ => .vector .float r
  | .vector _ _, .matrix _ _ c => .vector .float c
  | .matrix _ r _, .matrix _ _ c => .matrix .float r c
  | _, _ => a

def inferCall (name : String) (args : List (Outcome CodegenError Ty)) : Outcome CodegenError Ty :=
  if name = "dot" then do
    let t ← argAt args 0
    pure t.scalarPart
  else if name = "length" then pure (.scalar .float)
  else if name ∈ infersFirst then argAt args 0
  else if name = "mul" then do
    let a ← argAt args 0
    let b ← argAt args 1
    pure (inferMul a b)
  else Outcome.cgErr [.text s!"cannot infer result type of `{name}`"]

def inferComparison (lt : Ty) : Ty :=
  match lt with
  | .vector _ n => .vector .bool n
  | _ => .scalar .bool

def Literal.ty : Literal → Ty
  | .float _ => .scalar .float
  | .int _ => .scalar .int
  | .uint _ => .scalar .uint
  | .bool _ => .scalar .bool

/-- `Expr::Ident` in `infer_type`. -/
def Tables.inferIdent (t : Tables) (name : String) : Outcome CodegenError Ty :=
  match t.locals.lookup name with
  | some l => pure l.ty
  | none =>
      match t.globals.lookup name with
      | some g => pure g.ty
      | none => Outcome.cgErr [.text s!"undefined identifier `{name}`"]

mutual

/-- `infer_type`. -/
def Tables.inferType (t : Tables) : Expr → Outcome CodegenError Ty
  | .literal l => pure l.ty
  | .construct ty _ => pure ty
  | .cast ty _ => pure ty
  | .ident name => t.inferIdent name
  | .member base member => do
      let baseTy ← t.inferType base
      t.inferMember baseTy member
  | .call name args => inferCall name (t.inferTypes args)
  | .methodCall _ method _ =>
      if method = "Sample" then pure (.vector .float 4)
      else Outcome.cgErr [.text s!"unknown method `.{method}`"]
  | .binary op lhs rhs =>
      if isComparison op then do
        let lt ← t.inferType lhs
        pure (inferComparison lt)
      else if isLogical op then pure (.scalar .bool)
      else do
        let lt ← t.inferType lhs
        if lt.isComposite then pure lt else t.inferType rhs
  | .unary _ e => t.inferType e

def Tables.inferTypes (t : Tables) : List Expr → List (Outcome CodegenError Ty)
  | [] => []
  | e :: es => t.inferType e :: t.inferTypes es

end

/-! ## Coercions -/

def coerceOp (from_ : Ty) (kind : ScalarKind) : Option Spirv.UnaryOp :=
  match from_, kind with
  | .scalar .int, _ => some .convertSToF
  | .scalar .uint, _ => some .convertUToF
  | .scalar .float, .int => some .convertFToS
  | .scalar .float, .uint => some .convertFToU
  | _, _ => none

def coerceScalar (val : Val) (kind : ScalarKind) : Cg Val :=
  if val.ty = .scalar kind then pure val
  else
    match coerceOp val.ty kind with
    | some op => do
        let id ← pushBlockInst fun id => .unary op (scalarTypeId kind) id val.id
        pure ⟨id, .scalar kind⟩
    | none => pure val

def coerce (val : Val) (target : Ty) : Cg Val :=
  if val.ty = target then pure val
  else
    match val.ty, target with
    | .scalar _, .scalar kind => coerceScalar val kind
    | _, _ => pure val

def coerceToBool (val : Val) : Cg Spirv.Id :=
  match val.ty with
  | .scalar .bool => pure val.id
  | .vector .bool _ => pushBlockInst fun id => .unary .any .bool id val.id
  | other => cgErr [.text "expected bool condition, got `", .ty other, .text "`"]

/-! ## Operators -/

/-- The opcode of `emit_arith`, by the type of the result. -/
def arithOp (op : BinaryOp) (ty : Ty) : Option Spirv.BinaryOp :=
  match op, ty with
  | .add, .scalar .float | .add, .vector .float _ => some .fAdd
  | .add, .scalar .int | .add, .scalar .uint | .add, .vector _ _ => some .iAdd
  | .sub, .scalar .float | .sub, .vector .float _ => some .fSub
  | .sub, .scalar .int | .sub, .scalar .uint | .sub, .vector _ _ => some .iSub
  | .mul, .scalar .float | .mul, .vector .float _ => some .fMul
  | .mul, .scalar .int | .mul, .scalar .uint | .mul, .vector _ _ => some .iMul
  | .div, .scalar .float | .div, .vector .float _ => some .fDiv
  | .div, .scalar .int | .div, .vector .int _ => some .sDiv
  | .div, .scalar .uint | .div, .vector .uint _ => some .uDiv
  | _, _ => none

def arithTy (lhs rhs : Ty) : Ty := if lhs.isComposite then lhs else rhs

def emitArith (op : BinaryOp) (lhs rhs : Val) : Cg Val := do
  let resultTy := arithTy lhs.ty rhs.ty
  let resultTyId ← typeId resultTy
  match arithOp op resultTy with
  | some spirvOp => do
      let id ← pushBlockInst fun id => .binary spirvOp resultTyId id lhs.id rhs.id
      pure ⟨id, resultTy⟩
  | none => cgErr [.text "unsupported arithmetic op `", .op op, .text "`"]

def Ty.isFloat : Ty → Bool
  | .scalar .float | .vector .float _ => true
  | _ => false

def comparisonOp (op : BinaryOp) (isFloat : Bool) : Option Spirv.BinaryOp :=
  match op, isFloat with
  | .eq, true => some .fOrdEqual
  | .ne, true => some .fOrdNotEqual
  | .lt, true => some .fOrdLessThan
  | .le, true => some .fOrdLessThanEqual
  | .gt, true => some .fOrdGreaterThan
  | .ge, true => some .fOrdGreaterThanEqual
  | .eq, false => some .iEqual
  | .ne, false => some .iNotEqual
  | .lt, false => some .sLessThan
  | .le, false => some .sLessThanEqual
  | .gt, false => some .sGreaterThan
  | .ge, false => some .sGreaterThanEqual
  | _, _ => none

def emitComparison (op : BinaryOp) (lhs rhs : Val) : Cg Val := do
  let resultTy := inferComparison lhs.ty
  let resultTyId ← typeId resultTy
  match comparisonOp op lhs.ty.isFloat with
  | some spirvOp => do
      let id ← pushBlockInst fun id => .binary spirvOp resultTyId id lhs.id rhs.id
      pure ⟨id, resultTy⟩
  | none => cgErr [.text "unsupported comparison `", .op op, .text "`"]

/-- `emit_logical`: the operator is `&&` or `||`. -/
def emitLogical (op : BinaryOp) (lhs rhs : Val) : Cg Val := do
  let spirvOp := if op = .and then Spirv.BinaryOp.logicalAnd else .logicalOr
  let id ← pushBlockInst fun id => .binary spirvOp .bool id lhs.id rhs.id
  pure ⟨id, .scalar .bool⟩

/-- The operator of a compound assignment. -/
def coreOp : BinaryOp → Option BinaryOp
  | .addAssign => some .add
  | .subAssign => some .sub
  | .mulAssign => some .mul
  | .divAssign => some .div
  | _ => none

/-- `emit_binary`. -/
def emitBinary (op : BinaryOp) (lhs : Expr) (emitLhs emitRhs : Cg Val) : Cg Val :=
  if op = .assign then do
    let place ← emitPlace lhs
    let val ← emitRhs
    let val ← coerce val place.ty
    store place.ptr val.id
    pure val
  else
    match coreOp op with
    | some core => do
        let place ← emitPlace lhs
        let tyId ← typeId place.ty
        let cur ← load tyId place.ptr
        let rhs ← emitRhs
        let result ← emitArith core ⟨cur, place.ty⟩ rhs
        store place.ptr result.id
        pure result
    | none => do
        let l ← emitLhs
        let r ← emitRhs
        if isComparison op then emitComparison op l r
        else if isLogical op then emitLogical op l r
        else emitArith op l r

def unaryOpcode (op : UnaryOp) (ty : Ty) : Option Spirv.UnaryOp :=
  match op, ty with
  | .neg, .scalar .float | .neg, .vector .float _ => some .fNegate
  | .neg, .scalar .int | .neg, .scalar .uint | .neg, .vector _ _ => some .sNegate
  | .neg, _ => none
  | .not, .scalar .bool | .not, .vector .bool _ => some .logicalNot
  | .not, _ => some .not
  | .bitNot, _ => some .not

def emitUnary (op : UnaryOp) (emitOperand : Cg Val) : Cg Val := do
  let val ← emitOperand
  let resultTyId ← typeId val.ty
  match unaryOpcode op val.ty with
  | some spirvOp => do
      let id ← pushBlockInst fun id => .unary spirvOp resultTyId id val.id
      pure ⟨id, val.ty⟩
  | none => cgErr [.text "unsupported unary `", .unary op, .text "` on `", .ty val.ty, .text "`"]

def castOp : Ty → Ty → Option Spirv.UnaryOp
  | .scalar .int, .scalar .float => some .convertSToF
  | .scalar .uint, .scalar .float => some .convertUToF
  | .scalar .float, .scalar .int => some .convertFToS
  | .scalar .float, .scalar .uint => some .convertFToU
  | _, _ => none

def emitCast (ty : Ty) (emitOperand : Cg Val) : Cg Val := do
  let val ← emitOperand
  let target ← typeId ty
  match castOp val.ty ty with
  | some spirvOp => do
      let id ← pushBlockInst fun id => .unary spirvOp target id val.id
      pure ⟨id, ty⟩
  | none =>
      if val.ty = ty then pure val
      else cgErr [.text "unsupported cast `", .ty val.ty, .text "` -> `", .ty ty, .text "`"]

/-! ## Members and constructors -/

def emitSwizzle (base : Val) (member : String) (kind : ScalarKind) : Cg Val :=
  match decodeSwizzle member with
  | none => cgErr [.text s!"invalid swizzle `.{member}`"]
  | some [c] => do
      let id ← appendResult "composite_extract" fun id =>
        .compositeExtract (scalarTypeId kind) id base.id [c]
      pure ⟨id, .scalar kind⟩
  | some comps => do
      let id ← appendResult "vector_shuffle" fun id =>
        .vectorShuffle (vectorTypeId kind comps.length) id base.id base.id comps
      pure ⟨id, .vector kind comps.length⟩

/-- The value of a place. -/
def loadPlace (place : Place) (tyId : Ty → Cg Spirv.Ty) : Cg Val := do
  let ty ← tyId place.ty
  let id ← load ty place.ptr
  pure ⟨id, place.ty⟩

/-- `emit_member`. -/
def emitMember (base : Expr) (member : String) (emitBase : Cg Val) : Cg Val := do
  let baseTy ← Comp.read fun s => s.inferType base
  match baseTy with
  | .struct _ => do
      let place ← emitPlace (.member base member)
      loadPlace place typeId
  | .vector kind _ => do
      let baseVal ← emitBase
      emitSwizzle baseVal member kind
  | other =>
      cgErr [.text s!"member access `{member}` on unsupported type `", .ty other, .text "`"]

/-- Emit the arguments in order. -/
def emitArgs : List (Cg Val) → Cg (List Val)
  | [] => pure []
  | a :: rest => do
      let v ← a
      let vs ← emitArgs rest
      pure (v :: vs)

/-- `emit_construct`. -/
def emitConstruct (ty : Ty) (args : List (Cg Val)) : Cg Val :=
  match ty with
  | .scalar .float =>
      match args with
      | [arg] => arg
      | _ => cgErr [.text "float(...) expects exactly one argument"]
  | .scalar kind =>
      match args with
      | [arg] => do
          let v ← arg
          coerceScalar v kind
      | _ => cgErr [.ty ty, .text "(...) expects one argument"]
  | .vector kind n =>
      match args with
      | [single] => do
          let scalar ← single
          match scalar.ty with
          | .scalar _ => do
              let id ← compositeConstruct (vectorTypeId kind n) (List.replicate n scalar.id)
              pure ⟨id, ty⟩
          | _ => cgErr [.text "broadcast needs a scalar argument"]
      | _ => do
          let vals ← emitArgs args
          let id ← compositeConstruct (vectorTypeId kind n) (vals.map Val.id)
          pure ⟨id, ty⟩
  | other => cgErr [.text "constructor for type `", .ty other, .text "` not supported"]

/-! ## Intrinsics and method calls -/

/-- The `GLSL.std.450` instruction and the arity of an intrinsic. -/
def intrinsics : List (String × (Nat × Nat)) :=
  [("abs", 4, 1), ("sqrt", 31, 1), ("rsqrt", 32, 1), ("sin", 13, 1), ("cos", 14, 1), ("tan", 15, 1),
    ("asin", 16, 1), ("acos", 17, 1), ("atan", 18, 1), ("exp", 27, 1), ("log", 28, 1),
    ("normalize", 69, 1), ("length", 66, 1), ("floor", 8, 1), ("ceil", 9, 1), ("frac", 10, 1),
    ("cross", 68, 2), ("pow", 26, 2), ("min", 37, 2), ("max", 40, 2), ("clamp", 43, 3),
    ("lerp", 46, 3)]

/-- `glsl::FCLAMP`. -/
def glslFClamp : Nat := 43

def broadcastConst (scalarConst : Spirv.Id) : Ty → Cg Spirv.Id
  | .scalar _ => pure scalarConst
  | .vector _ n => compositeConstruct (vectorTypeId .float n) (List.replicate n scalarConst)
  | other => cgErr [.text "cannot broadcast to `", .ty other, .text "`"]

def glslUnarylikeOrClamp (xv : Val) (lo hi : Spirv.Id) : Cg Val := do
  let resultTyId ← typeId xv.ty
  let loId ← broadcastConst lo xv.ty
  let hiId ← broadcastConst hi xv.ty
  let id ← extInst resultTyId glslFClamp [xv.id, loId, hiId]
  pure ⟨id, xv.ty⟩

def emitSaturate (x : Cg Val) : Cg Val := do
  let xv ← x
  let lo ← floatConst 0
  let hi ← floatConst 0x3FF0000000000000
  glslUnarylikeOrClamp xv lo hi

def emitDot (a b : Cg Val) : Cg Val := do
  let av ← a
  let bv ← b
  let scalarTy := av.ty.scalarPart
  let scalarTyId ← typeId scalarTy
  let id ← appendResult "dot" fun id => .binary .dot scalarTyId id av.id bv.id
  pure ⟨id, scalarTy⟩

/-- The opcode and the result type of a product with a matrix in it, or an error; `none` when there
    is no matrix. -/
def matrixProduct (a b : Ty) : Option (Except String (Spirv.BinaryOp × Ty)) :=
  match a, b with
  | .matrix _ rows _, .vector _ n =>
      if n ≠ a.matrixCols then some (.error "mul(matrix, vector) dimension mismatch")
      else some (.ok (.matrixTimesVector, .vector .float rows))
  | .vector _ n, .matrix _ _ cols =>
      if n ≠ cols then some (.error "mul(vector, matrix) dimension mismatch")
      else some (.ok (.vectorTimesMatrix, .vector .float cols))
  | .matrix _ r1 _, .matrix _ _ c2 => some (.ok (.matrixTimesMatrix, .matrix .float r1 c2))
  | _, _ => none

/-- `emit_mul`. -/
def emitMul (args : List (Cg Val)) : Cg Val :=
  match args with
  | [x, y] => do
      let a ← x
      let b ← y
      match matrixProduct a.ty b.ty with
      | some (.error msg) => cgErr [.text msg]
      | some (.ok (spirvOp, resultTy)) => do
          let resultTyId ← typeId resultTy
          let id ← pushBlockInst fun id => .binary spirvOp resultTyId id a.id b.id
          pure ⟨id, resultTy⟩
      | none => emitArith .mul a b
  | _ => cgErr [.text "`mul` expects 2 arguments"]

/-- The result type of a `GLSL.std.450` intrinsic: that of the last argument, but for `length`. -/
def intrinsicTy (name : String) (vals : List Val) : Ty :=
  if name = "length" then .scalar .float
  else (vals.getLast?.map Val.ty).getD (.scalar .float)

def emitIntrinsic (name : String) (args : List (Cg Val)) : Cg Val :=
  match intrinsics.lookup name with
  | none => cgErr [.text s!"unknown intrinsic `{name}`"]
  | some (extOp, arity) =>
      if args.length ≠ arity then
        cgErr [.text s!"`{name}` expects ", .number arity, .text " arguments, got ",
          .number args.length]
      else do
        let vals ← emitArgs args
        let resultTy := intrinsicTy name vals
        let resultTyId ← typeId resultTy
        let id ← extInst resultTyId extOp (vals.map Val.id)
        pure ⟨id, resultTy⟩

/-- `emit_call`. -/
def emitCall (name : String) (args : List (Cg Val)) : Cg Val :=
  match name, args with
  | "saturate", [x] => emitSaturate x
  | "dot", [a, b] => emitDot a b
  | "mul", _ => emitMul args
  | _, _ => emitIntrinsic name args

/-- `emit_method_call`. -/
def emitMethodCall (base : Expr) (method : String) (args : List (Cg Val)) : Cg Val :=
  if method ≠ "Sample" then cgErr [.text s!"unsupported method `.{method}`"]
  else
    match args with
    | [sampler, coord] => do
        let texPlace ← emitPlace base
        let image ← load .sampledImage texPlace.ptr
        let samplerVal ← sampler
        let coordVal ← coord
        let sampled ← appendResult "sampled_image" fun id =>
          .sampledImage .sampledImage id image samplerVal.id
        let id ← appendResult "image_sample_implicit_lod" fun id =>
          .imageSampleImplicitLod (vectorTypeId .float 4) id sampled coordVal.id
        pure ⟨id, .vector .float 4⟩
    | _ => cgErr [.text "`.Sample` expects (sampler, coordinate)"]

/-! ## Expressions -/

mutual

/-- `emit_expr`. -/
def emitExpr : Expr → Cg Val
  | .literal l => emitLiteral l
  | .construct ty args => emitConstruct ty (emitExprs args)
  | .ident name => do
      let place ← emitPlace (.ident name)
      loadPlace place valueTypeId
  | .member base member => emitMember base member (emitExpr base)
  | .call name args => emitCall name (emitExprs args)
  | .methodCall base method args => emitMethodCall base method (emitExprs args)
  | .binary op lhs rhs => emitBinary op lhs (emitExpr lhs) (emitExpr rhs)
  | .unary op e => emitUnary op (emitExpr e)
  | .cast ty e => emitCast ty (emitExpr e)

def emitExprs : List Expr → List (Cg Val)
  | [] => []
  | e :: es => emitExpr e :: emitExprs es

end

/-! ## Statements -/

/-- `alloc_local`: the variable goes to the front of the first block. -/
def allocLocal (ty : Ty) : Cg Spirv.Id := do
  let tyId ← typeId ty
  let id ← builderId
  let s ← Comp.get
  match s.builder.func with
  | none => cgErr [.text "no current function"]
  | some _ => do
      insertFront (.variable (.pointer .function tyId) id .function)
      pure id

def addLocal (name : String) (l : Local) : Cg Unit :=
  Comp.modify fun s => { s with locals := (name, l) :: s.locals }

def emitReturn : Option Expr → Cg Unit
  | some e => do
      let val ← emitExpr e
      let s ← Comp.get
      match s.outVar with
      | some out => do
          store out val.id
          terminate "ret" .ret
      | none => terminate "ret" .ret
  | none => terminate "ret" .ret

def emitVarDecl (vd : VarDecl) : Cg Unit := do
  let localPtr ← allocLocal vd.ty
  match vd.init with
  | some e => do
      let val ← emitExpr e
      store localPtr val.id
      addLocal vd.name ⟨localPtr, vd.ty⟩
  | none => addLocal vd.name ⟨localPtr, vd.ty⟩

/-- A branch to `label`, unless the block is terminated. -/
def branchUnlessTerminated (label : Spirv.Id) : Cg Unit := do
  if ← isTerminated then pure ()
  else terminate "branch" (.branch label)

/-- `emit_if`, given the emissions of its blocks. -/
def emitIf (cond : Expr) (emitThen : Cg Unit) (emitElse : Option (Cg Unit)) : Cg Unit := do
  let condVal ← emitExpr cond
  let condId ← coerceToBool condVal
  let thenLabel ← builderId
  let mergeLabel ← builderId
  match emitElse with
  | some emitElse => do
      let elseLabel ← builderId
      append "selection_merge" (.selectionMerge mergeLabel)
      terminate "branch_conditional" (.branchConditional condId thenLabel elseLabel)
      beginBlock thenLabel
      emitThen
      branchUnlessTerminated mergeLabel
      beginBlock elseLabel
      emitElse
      branchUnlessTerminated mergeLabel
      beginBlock mergeLabel
  | none => do
      append "selection_merge" (.selectionMerge mergeLabel)
      terminate "branch_conditional" (.branchConditional condId thenLabel mergeLabel)
      beginBlock thenLabel
      emitThen
      branchUnlessTerminated mergeLabel
      beginBlock mergeLabel

/-- The condition of a `for`, after the `OpLoopMerge` of the header. -/
def emitForCond (cond : Option Expr) (bodyLabel mergeLabel : Spirv.Id) : Cg Unit :=
  match cond with
  | some c => do
      let cv ← emitExpr c
      let cid ← coerceToBool cv
      terminate "branch_conditional" (.branchConditional cid bodyLabel mergeLabel)
  | none => terminate "branch" (.branch bodyLabel)

def emitUpdate : Option Expr → Cg Unit
  | some u => do
      let _ ← emitExpr u
      pure ()
  | none => pure ()

/-- `emit_for`, given the emissions of its init clause and its body. -/
def emitFor (emitInit : Cg Unit) (cond update : Option Expr) (emitBody : Cg Unit) : Cg Unit := do
  emitInit
  if ← isTerminated then pure ()
  else do
    let headerLabel ← builderId
    let bodyLabel ← builderId
    let continueLabel ← builderId
    let mergeLabel ← builderId
    terminate "branch" (.branch headerLabel)
    beginBlock headerLabel
    append "loop_merge" (.loopMerge mergeLabel continueLabel)
    emitForCond cond bodyLabel mergeLabel
    beginBlock bodyLabel
    emitBody
    branchUnlessTerminated continueLabel
    beginBlock continueLabel
    emitUpdate update
    terminate "branch" (.branch headerLabel)
    beginBlock mergeLabel

mutual

/-- `emit_stmt`. -/
def emitStmt : Stmt → Cg Unit
  | .return_ e => emitReturn e
  | .varDecl vd => emitVarDecl vd
  | .expr e => do
      let _ ← emitExpr e
      pure ()
  | .if_ cond then_ else_ => emitIf cond (emitBlock then_) (emitElse else_)
  | .for_ init cond update body => emitFor (emitInit init) cond update (emitBlock body)
  | .block b => emitBlock b

/-- `emit_block`: what follows a terminator is not emitted. -/
def emitBlock : List Stmt → Cg Unit
  | [] => pure ()
  | s :: rest => do
      emitStmt s
      if ← isTerminated then pure ()
      else emitBlock rest

def emitElse : Option (List Stmt) → Option (Cg Unit)
  | some b => some (emitBlock b)
  | none => none

def emitInit : Option Stmt → Cg Unit
  | some s => emitStmt s
  | none => pure ()

end

/-! ## Declarations -/

/-- An unsigned 32-bit result: overflow is a crash. -/
def checkedU32 (n : Nat) : Cg Nat := if n < 2 ^ 32 then pure n else Comp.panic

/-- `member_align_size`. -/
def memberAlignSize : Ty → Cg (Nat × Nat)
  | .scalar _ => pure (4, 4)
  | .vector _ 2 => pure (8, 8)
  | .vector _ 3 => pure (16, 12)
  | .vector _ 4 => pure (16, 16)
  | .matrix _ _ c => do
      let size ← checkedU32 (16 * c)
      pure (16, size)
  | _ => pure (16, 16)

/-- `align_up`. -/
def alignUp (offset align : Nat) : Cg Nat :=
  if align = 0 then pure offset else checkedU32 ((offset + align - 1) / align * align)

/-- `parse_register`: the descriptor set and the binding. -/
def parseRegister : Option String → Nat × Nat
  | some s => (0, (parseU32 (s.toList.dropWhile Char.isAlpha)).getD 0)
  | none => (0, 0)

def typeIds : List StructMember → Cg (List Spirv.Ty)
  | [] => pure []
  | m :: rest => do
      let t ← typeId m.ty
      let ts ← typeIds rest
      pure (t :: ts)

/-- `register_struct`. -/
def registerStruct (d : StructDecl) : Cg Unit := do
  let s ← Comp.get
  if (s.structs.lookup d.name).isSome then pure ()
  else do
    let memberTypes ← typeIds d.members
    Comp.modify fun s =>
      { s with structs := (d.name, ⟨.struct memberTypes, d.members⟩) :: s.structs }

/-- The offsets of a cbuffer's members, from member `i` at `offset` on. -/
def decorateOffsets (structId : Spirv.Ty) : List StructMember → Nat → Nat → Cg Unit
  | [], _, _ => pure ()
  | m :: rest, i, offset => do
      let (align, size) ← memberAlignSize m.ty
      let offset ← alignUp offset align
      decorate (.member structId i) (.offset offset)
      let next ← checkedU32 (offset + size)
      decorateOffsets structId rest (i + 1) next

def decorateBinding (var : Spirv.Id) (register : Option String) : Cg Unit := do
  decorate (.id var) (.descriptorSet (parseRegister register).1)
  decorate (.id var) (.binding (parseRegister register).2)

def addGlobal (name : String) (g : Global) : Cg Unit :=
  Comp.modify fun s => { s with globals := (name, g) :: s.globals }

/-- The members of a cbuffer as globals of their own, from member `i` on. -/
def registerMembers (var : Spirv.Id) : List StructMember → Nat → Cg Unit
  | [], _ => pure ()
  | m :: rest, i => do
      let _ ← typeId m.ty
      let idxConst ← intConst (BitVec.ofNat 32 i) true
      addGlobal m.name ⟨var, m.ty⟩
      Comp.modify fun s => { s with cbufferMembers := (m.name, (var, idxConst)) :: s.cbufferMembers }
      registerMembers var rest (i + 1)

/-- `emit_cbuffer`. -/
def emitCBuffer (c : CBufferDecl) : Cg Unit := do
  let memberTypes ← typeIds c.members
  let structId := Spirv.Ty.struct memberTypes
  decorate (.type structId) .block
  decorateOffsets structId c.members 0 0
  Comp.modify fun s => { s with structs := (c.name, ⟨structId, c.members⟩) :: s.structs }
  let var ← globalVariable (.pointer .uniform structId) .uniform
  decorateBinding var c.register
  addGlobal c.name ⟨var, .struct c.name⟩
  registerMembers var c.members 0

/-- The two opaque cases of `emit_global_var`. -/
def emitOpaque (g : GlobalVarDecl) (ty : Spirv.Ty) : Cg Unit := do
  let var ← globalVariable (.pointer .uniformConstant ty) .uniformConstant
  decorateBinding var g.register
  addGlobal g.name ⟨var, g.ty⟩

def emitGlobalVar (g : GlobalVarDecl) : Cg Unit :=
  match g.ty with
  | .texture2D => emitOpaque g .sampledImage
  | .samplerState => emitOpaque g .sampler
  | other => cgErr [.text "unsupported global variable type `", .ty other, .text "`"]

def emitDecl : Decl → Cg Unit
  | .struct s => registerStruct s
  | .cbuffer c => emitCBuffer c
  | .globalVar g => emitGlobalVar g
  | .function _ => pure ()

/-- `emit_globals`. -/
def emitGlobals : List Decl → Cg Unit
  | [] => pure ()
  | d :: rest => do
      emitDecl d
      emitGlobals rest

/-! ## The entry point -/

/-- The builtin of `SV_Position`. -/
def positionBuiltIn (stage : ShaderStage) (isOutput : Bool) : Spirv.BuiltIn :=
  if isOutput = false ∧ stage = .pixel then .fragCoord else .position

/-- The member loop of `decorate_struct_io`, from member `i` with the next location `loc` on. -/
def decorateMembers (structId : Spirv.Ty) (isOutput : Bool) : List StructMember → Nat → Nat → Cg Unit
  | [], _, _ => pure ()
  | m :: rest, i, loc => do
      let s ← Comp.get
      if m.semantic = some "SV_Position" then do
        decorate (.member structId i) (.builtIn (positionBuiltIn s.stage isOutput))
        decorateMembers structId isOutput rest (i + 1) loc
      else if m.semantic = some "SV_Target" then do
        decorate (.member structId i) (.location 0)
        decorateMembers structId isOutput rest (i + 1) loc
      else do
        decorate (.member structId i) (.location loc)
        let loc ← checkedU32 (loc + 1)
        decorateMembers structId isOutput rest (i + 1) loc

/-- `decorate_struct_io`. -/
def decorateStructIo (members : List StructMember) (structId : Spirv.Ty) (isOutput : Bool) :
    Cg Unit := do
  decorate (.type structId) .block
  decorateMembers structId isOutput members 0 0

/-- `decorate_io_var`. -/
def decorateIoVar (var : Spirv.Id) (semantic : Option String) (isOutput : Bool) : Cg Unit := do
  let s ← Comp.get
  if semantic = some "SV_Position" then
    decorate (.id var) (.builtIn (positionBuiltIn s.stage isOutput))
  else decorate (.id var) (.location 0)

def addInterface (var : Spirv.Id) : Cg Unit :=
  Comp.modify fun s => { s with interface := s.interface ++ [var] }

/-- The struct a name stands for, for an input or an output. -/
def structInfo (name : String) : Cg StructInfo := do
  let s ← Comp.get
  match s.structs.lookup name with
  | some info => pure info
  | none => cgErr [.text s!"unknown struct type `{name}`"]

def emitPlainInput (p : Param) : Cg Unit := do
  let tyId ← typeId p.ty
  let var ← globalVariable (.pointer .input tyId) .input
  decorateIoVar var p.semantic false
  addInterface var
  addGlobal p.name ⟨var, p.ty⟩

/-- The body of the loop of `emit_inputs`. -/
def emitInput (p : Param) : Cg Unit :=
  match p.ty with
  | .struct name => do
      let info ← structInfo name
      decorateStructIo info.members info.typeId false
      let var ← globalVariable (.pointer .input info.typeId) .input
      addInterface var
      addGlobal p.name ⟨var, .struct name⟩
  | .scalar _ => emitPlainInput p
  | .vector _ _ => emitPlainInput p
  | other => cgErr [.text "unsupported input type `", .ty other, .text "`"]

def emitInputs : List Param → Cg Unit
  | [] => pure ()
  | p :: rest => do
      emitInput p
      emitInputs rest

def setOutput (var : Spirv.Id) (ty : Ty) : Cg Unit :=
  Comp.modify fun s => { s with outVar := some var, outTy := ty }

/-- `emit_output`. -/
def emitOutput (main : FunctionDecl) : Cg Unit :=
  match main.returnType with
  | .struct name => do
      let info ← structInfo name
      decorateStructIo info.members info.typeId true
      let var ← globalVariable (.pointer .output info.typeId) .output
      addInterface var
      setOutput var (.struct name)
  | .vector .float 4 => do
      let tyId ← typeId (.vector .float 4)
      let var ← globalVariable (.pointer .output tyId) .output
      decorateIoVar var main.semantic true
      addInterface var
      setOutput var (.vector .float 4)
  | other => cgErr [.text "unsupported main return type `", .ty other, .text "`"]

/-- `begin_entry_function`. -/
def beginEntryFunction : Cg Unit := do
  let fn ← builderId
  Comp.modify fun s => { s with builder := { s.builder with func := some ⟨fn, [], none⟩ } }
  let label ← builderId
  beginBlock label

/-- The parameters with the pointers of their globals. -/
def paramGlobals : List Param → Cg (List (String × Spirv.Id × Ty))
  | [] => pure []
  | p :: rest => do
      let s ← Comp.get
      match s.globals.lookup p.name with
      | some g => do
          let ps ← paramGlobals rest
          pure ((p.name, g.ptr, p.ty) :: ps)
      | none => cgErr [.text s!"input variable `{p.name}` not found"]

/-- Copy each parameter to a local. -/
def copyParams : List (String × Spirv.Id × Ty) → Cg Unit
  | [] => pure ()
  | (name, globalPtr, ty) :: rest => do
      let localPtr ← allocLocal ty
      let tyId ← typeId ty
      let loaded ← load tyId globalPtr
      store localPtr loaded
      addLocal name ⟨localPtr, ty⟩
      copyParams rest

/-- `emit_function_body`. -/
def emitFunctionBody (main : FunctionDecl) : Cg Unit := do
  let params ← paramGlobals main.params
  copyParams params
  match main.body with
  | none => cgErr [.text "main has no body"]
  | some body => do
      emitBlock body
      if ← isTerminated then pure ()
      else terminate "ret" .ret

/-- `finish_entry_point`. -/
def finishEntryPoint : Cg Unit := do
  let s ← Comp.get
  match s.builder.func with
  | none => cgErr [.text "main function has no id"]
  | some f =>
      Comp.modify fun s => { s with
        interface := []
        builder := { s.builder with
          entryPoint := some (s.stage.executionModel, f.id, s.interface)
          originUpperLeft := decide (s.stage = .pixel) } }

/-- `emit_main`. -/
def emitMain (main : FunctionDecl) : Cg Unit := do
  emitInputs main.params
  emitOutput main
  beginEntryFunction
  emitFunctionBody main
  finishEntryPoint

/-- The first definition of `main`. -/
def findMain : List Decl → Option FunctionDecl
  | [] => none
  | .function f :: rest => if f.name = "main" ∧ f.body.isSome then some f else findMain rest
  | _ :: rest => findMain rest

/-- `codegen`, without the assembly of the module. -/
def codegen (unit : TranslationUnit) (stage : ShaderStage) : Outcome CodegenError Spirv.Builder :=
  let run : Cg Unit := do
    emitGlobals unit.decls
    match findMain unit.decls with
    | some main => emitMain main
    | none => cgErr [.text "no `main` function definition found"]
  match run (Ctx.new stage) with
  | .ok (_, s) => .ok s.builder
  | .err e => .err e
  | .panic => .panic
  | .outOfFuel => .outOfFuel

end WinCompat.Hlsl
