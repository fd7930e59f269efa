import Mathlib.Data.BitVec

/-!
# The syntax tree of the HLSL subset

`hlsl-compiler/src/ast.rs`. A `Block` is its list of statements. Literals keep the bits of their
Rust value: `i64`, `u64` and `f64` are all 64 bits, and no phase before code generation computes
with them.
-/

namespace WinCompat.Hlsl

inductive ScalarKind
  | float
  | int
  | uint
  | bool
  deriving DecidableEq

/-- `Type`. -/
inductive Ty
  | void
  | scalar (k : ScalarKind)
  | vector (k : ScalarKind) (n : Nat)
  | matrix (k : ScalarKind) (rows cols : Nat)
  | struct (name : String)
  | texture2D
  | samplerState
  deriving DecidableEq

/-- Bits rather than numbers, so that a literal can be compared and printed without a float
    semantics. -/
inductive Literal
  | int (v : BitVec 64)
  | uint (v : BitVec 64)
  | float (bits : BitVec 64)
  | bool (v : Bool)
  deriving DecidableEq

inductive BinaryOp
  | add
  | sub
  | mul
  | div
  | mod
  | assign
  | addAssign
  | subAssign
  | mulAssign
  | divAssign
  | eq
  | ne
  | lt
  | le
  | gt
  | ge
  | and
  | or
  | bitAnd
  | bitOr
  | bitXor
  deriving DecidableEq

inductive UnaryOp
  | neg
  | not
  | bitNot
  deriving DecidableEq

/-- Parentheses leave no node: the shape of the tree says how the text was grouped. -/
inductive Expr
  | literal (l : Literal)
  | ident (name : String)
  | construct (ty : Ty) (args : List Expr)
  | call (name : String) (args : List Expr)
  | methodCall (base : Expr) (method : String) (args : List Expr)
  | member (base : Expr) (member : String)
  | binary (op : BinaryOp) (lhs rhs : Expr)
  | unary (op : UnaryOp) (expr : Expr)
  | cast (ty : Ty) (expr : Expr)

structure VarDecl where
  ty : Ty
  name : String
  init : Option Expr
  semantic : Option String

/-- A block is a statement of its own only where the source has braces that no `if` or `for`
    claims. -/
inductive Stmt
  | return_ (e : Option Expr)
  | varDecl (vd : VarDecl)
  | expr (e : Expr)
  | if_ (cond : Expr) (then_ : List Stmt) (else_ : Option (List Stmt))
  | for_ (init : Option Stmt) (cond update : Option Expr) (body : List Stmt)
  | block (b : List Stmt)

structure StructMember where
  ty : Ty
  name : String
  semantic : Option String
  deriving DecidableEq

structure StructDecl where
  name : String
  members : List StructMember
  deriving DecidableEq

structure CBufferDecl where
  name : String
  register : Option String
  members : List StructMember
  deriving DecidableEq

structure Param where
  ty : Ty
  name : String
  semantic : Option String
  deriving DecidableEq

structure FunctionDecl where
  returnType : Ty
  name : String
  params : List Param
  semantic : Option String
  body : Option (List Stmt)

structure GlobalVarDecl where
  ty : Ty
  name : String
  register : Option String
  deriving DecidableEq

/-- What may stand at the top of a shader file. -/
inductive Decl
  | struct (s : StructDecl)
  | cbuffer (c : CBufferDecl)
  | function (f : FunctionDecl)
  | globalVar (g : GlobalVarDecl)

structure TranslationUnit where
  decls : List Decl

end WinCompat.Hlsl
