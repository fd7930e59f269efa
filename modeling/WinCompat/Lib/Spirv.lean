import Mathlib.Data.BitVec

/-!
# SPIR-V functions and their builder

The part of SPIR-V that a shader compiler needs: types, the instructions of a function body, and a
builder that appends instructions to a selected block.

A type is its declaration. A module declares each type once and the builder gives back the
declaration it has, so a type id and the structure it declares determine one another.

The builder selects a block when it begins one and deselects it at a terminator. The blocks that are
finished and the block that is selected are kept apart in `Function`.
-/

namespace WinCompat.Lib.Spirv

abbrev Id := Nat

inductive StorageClass
  | function
  | input
  | output
  | uniform
  | uniformConstant
  deriving DecidableEq

inductive Ty
  | void
  | bool
  | float
  | int (signed : Bool)
  | vector (elem : Ty) (n : Nat)
  | matrix (column : Ty) (n : Nat)
  | struct (members : List Ty)
  | pointer (cls : StorageClass) (pointee : Ty)
  | image
  | sampledImage
  | sampler

inductive UnaryOp
  | fNegate
  | sNegate
  | logicalNot
  | not
  | convertSToF
  | convertUToF
  | convertFToS
  | convertFToU
  | any
  deriving DecidableEq

inductive BinaryOp
  | fAdd
  | iAdd
  | fSub
  | iSub
  | fMul
  | iMul
  | fDiv
  | sDiv
  | uDiv
  | fOrdEqual
  | fOrdNotEqual
  | fOrdLessThan
  | fOrdLessThanEqual
  | fOrdGreaterThan
  | fOrdGreaterThanEqual
  | iEqual
  | iNotEqual
  | sLessThan
  | sLessThanEqual
  | sGreaterThan
  | sGreaterThanEqual
  | logicalAnd
  | logicalOr
  | dot
  | matrixTimesVector
  | vectorTimesMatrix
  | matrixTimesMatrix
  deriving DecidableEq

/-- An instruction of a function body. `ty` is the result type and `id` the result id. -/
inductive Inst
  | variable (ty : Ty) (id : Id) (cls : StorageClass)
  | load (ty : Ty) (id ptr : Id)
  | store (ptr object : Id)
  | accessChain (ty : Ty) (id base : Id) (indexes : List Id)
  | compositeExtract (ty : Ty) (id composite : Id) (indexes : List Nat)
  | compositeConstruct (ty : Ty) (id : Id) (constituents : List Id)
  | vectorShuffle (ty : Ty) (id vector1 vector2 : Id) (components : List Nat)
  | unary (op : UnaryOp) (ty : Ty) (id operand : Id)
  | binary (op : BinaryOp) (ty : Ty) (id operand1 operand2 : Id)
  | extInst (ty : Ty) (id set : Id) (instruction : Nat) (operands : List Id)
  | sampledImage (ty : Ty) (id image sampler : Id)
  | imageSampleImplicitLod (ty : Ty) (id sampledImage coordinate : Id)
  | selectionMerge (merge : Id)
  | loopMerge (merge continue_ : Id)
  | branch (target : Id)
  | branchConditional (condition true_ false_ : Id)
  | ret

namespace Inst

def isTerminator : Inst → Bool
  | branch _ | branchConditional _ _ _ | ret => true
  | _ => false

def isMerge : Inst → Bool
  | selectionMerge _ | loopMerge _ _ => true
  | _ => false

def isVariable : Inst → Bool
  | .variable _ _ _ => true
  | _ => false

/-- The labels an instruction names. -/
def targets : Inst → List Id
  | selectionMerge m => [m]
  | loopMerge m c => [m, c]
  | branch l => [l]
  | branchConditional _ t f => [t, f]
  | _ => []

/-- The result of an instruction and its type. -/
def result : Inst → Option (Id × Ty)
  | .variable ty id _ | load ty id _ | accessChain ty id _ _ | compositeExtract ty id _ _
  | compositeConstruct ty id _ | vectorShuffle ty id _ _ _ | unary _ ty id _ | binary _ ty id _ _
  | extInst ty id _ _ _ | sampledImage ty id _ _ | imageSampleImplicitLod ty id _ _ => some (id, ty)
  | store _ _ | selectionMerge _ | loopMerge _ _ | branch _ | branchConditional _ _ _ | ret => none

/-- Neither control flow nor a variable. -/
def isPlain (i : Inst) : Bool := !i.isTerminator && !i.isMerge && !i.isVariable

end Inst

structure Block where
  label : Id
  body : List Inst

/-- A constant: `bits` is the literal of an `OpConstant`, 0 or 1 for the boolean constants. -/
structure Constant where
  ty : Ty
  id : Id
  bits : BitVec 32

/-- A module-scope variable. `ty` is its pointer type. -/
structure Variable where
  ty : Ty
  id : Id
  cls : StorageClass

inductive BuiltIn
  | position
  | fragCoord
  deriving DecidableEq

inductive Decoration
  | block
  | offset (n : Nat)
  | binding (n : Nat)
  | descriptorSet (n : Nat)
  | location (n : Nat)
  | builtIn (b : BuiltIn)
  deriving DecidableEq

/-- What a decoration applies to. -/
inductive Target
  | id (id : Id)
  | type (ty : Ty)
  | member (ty : Ty) (index : Nat)

/-! ## Functions under construction -/

structure Function where
  id : Id
  finished : List Block
  selected : Option Block

namespace Function

def blocks (f : Function) : List Block := f.finished ++ f.selected.toList

def labels (f : Function) : List Id := f.blocks.map Block.label

/-- Append an instruction to the selected block. -/
def append (f : Function) (i : Inst) : Option Function :=
  match f.selected with
  | some b => some { f with selected := some { b with body := b.body ++ [i] } }
  | none => none

/-- Append a terminator and deselect the block. -/
def terminate (f : Function) (i : Inst) : Option Function :=
  match f.selected with
  | some b =>
      some { f with finished := f.finished ++ [{ b with body := b.body ++ [i] }], selected := none }
  | none => none

/-- Begin a block and select it. -/
def begin_ (f : Function) (label : Id) : Option Function :=
  match f.selected with
  | some _ => none
  | none => some { f with selected := some ⟨label, []⟩ }

/-- Insert an instruction at the front of the first block. -/
def insertFront (f : Function) (i : Inst) : Option Function :=
  match f.finished, f.selected with
  | b :: bs, _ => some { f with finished := { b with body := i :: b.body } :: bs }
  | [], some b => some { f with selected := some { b with body := i :: b.body } }
  | [], none => none

/-- Append several instructions to the selected block. -/
def appendAll (f : Function) (is : List Inst) : Function :=
  { f with selected := f.selected.map fun b => { b with body := b.body ++ is } }

theorem appendAll_nil (f : Function) : f.appendAll [] = f := by
  obtain ⟨id, finished, selected⟩ := f
  cases selected with
  | none => rfl
  | some b =>
    show Function.mk id finished (some { b with body := b.body ++ [] }) = _
    rw [List.append_nil]

theorem appendAll_appendAll (f : Function) (is js : List Inst) :
    (f.appendAll is).appendAll js = f.appendAll (is ++ js) := by
  obtain ⟨id, finished, selected⟩ := f
  cases selected with
  | none => rfl
  | some b =>
    show Function.mk id finished (some { b with body := b.body ++ is ++ js }) = _
    rw [List.append_assoc]
    rfl

theorem append_eq {f : Function} {b : Block} (h : f.selected = some b) (i : Inst) :
    f.append i = some (f.appendAll [i]) := by
  unfold append appendAll
  rw [h]
  rfl

end Function

/-! ## Modules under construction -/

inductive ExecutionModel
  | vertex
  | fragment
  deriving DecidableEq

/-- `entryPoint` is the model, the function and the interface; `originUpperLeft` the one execution
    mode that is used. -/
structure Builder where
  nextId : Id
  constants : List Constant
  globalVars : List Variable
  decorations : List (Target × Decoration)
  func : Option Function
  entryPoint : Option (ExecutionModel × Id × List Id)
  originUpperLeft : Bool

namespace Builder

def new : Builder where
  nextId := 1
  constants := []
  globalVars := []
  decorations := []
  func := none
  entryPoint := none
  originUpperLeft := false

def fresh (b : Builder) : Id × Builder := (b.nextId, { b with nextId := b.nextId + 1 })

def constant (b : Builder) (ty : Ty) (bits : BitVec 32) : Id × Builder :=
  (b.nextId, { b with
    nextId := b.nextId + 1
    constants := b.constants ++ [⟨ty, b.nextId, bits⟩] })

def globalVariable (b : Builder) (ty : Ty) (cls : StorageClass) : Id × Builder :=
  (b.nextId, { b with
    nextId := b.nextId + 1
    globalVars := b.globalVars ++ [⟨ty, b.nextId, cls⟩] })

def decorate (b : Builder) (t : Target) (d : Decoration) : Builder :=
  { b with decorations := b.decorations ++ [(t, d)] }

/-- Change the function under construction, if there is one and it allows the change. -/
def onFunction (b : Builder) (change : Function → Option Function) : Option Builder :=
  match b.func with
  | some f =>
      match change f with
      | some f => some { b with func := some f }
      | none => none
  | none => none

end Builder

end WinCompat.Lib.Spirv
