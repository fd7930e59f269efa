import WinCompat.Lib.Spirv

/-!
# What SPIR-V's integer and boolean instructions compute

Values are booleans and 32-bit integers; SPIR-V keeps the two apart, and an integer's signedness is
a part of its type alone. An instruction whose operands or whose result type are not of the kind its
opcode asks for has no meaning, and neither has a division that SPIR-V leaves undefined: evaluation
returns `none`. Floating-point instructions are outside this fragment.
-/

namespace WinCompat.Lib.Spirv

inductive Value
  | bool (b : Bool)
  | int (signed : Bool) (v : BitVec 32)
  deriving DecidableEq

/-! ## Opcodes -/

/-- An integer result of the type that an instruction declares. -/
def intResult (ty : Ty) (v : BitVec 32) : Option Value :=
  match ty with
  | .int signed => some (.int signed v)
  | _ => none

def boolResult (ty : Ty) (b : Bool) : Option Value :=
  match ty with
  | .bool => some (.bool b)
  | _ => none

/-- `op` on `x`, with the result type `ty`. -/
def UnaryOp.eval (op : UnaryOp) (ty : Ty) (x : Value) : Option Value :=
  match op, x with
  | .sNegate, .int _ v => intResult ty (-v)
  | .not, .int _ v => intResult ty (~~~v)
  | .logicalNot, .bool b => boolResult ty !b
  | _, _ => none

/-- Signed division is undefined for a zero divisor and on overflow. -/
def sDivDefined (a b : BitVec 32) : Prop := b ≠ 0 ∧ ¬ (a = BitVec.intMin 32 ∧ b = -1)

instance (a b : BitVec 32) : Decidable (sDivDefined a b) := inferInstanceAs (Decidable (_ ∧ _))

/-- `op` on `x` and `y`, with the result type `ty`. `OpUDiv` alone asks for unsigned types. -/
def BinaryOp.eval (op : BinaryOp) (ty : Ty) (x y : Value) : Option Value :=
  match op, x, y with
  | .iAdd, .int _ a, .int _ b => intResult ty (a + b)
  | .iSub, .int _ a, .int _ b => intResult ty (a - b)
  | .iMul, .int _ a, .int _ b => intResult ty (a * b)
  | .sDiv, .int _ a, .int _ b => if sDivDefined a b then intResult ty (a.sdiv b) else none
  | .uDiv, .int false a, .int false b =>
      match ty with
      | .int false => if b = 0 then none else some (.int false (a / b))
      | _ => none
  | .iEqual, .int _ a, .int _ b => boolResult ty (a == b)
  | .iNotEqual, .int _ a, .int _ b => boolResult ty (a != b)
  | .sLessThan, .int _ a, .int _ b => boolResult ty (a.slt b)
  | .sLessThanEqual, .int _ a, .int _ b => boolResult ty (a.sle b)
  | .sGreaterThan, .int _ a, .int _ b => boolResult ty (b.slt a)
  | .sGreaterThanEqual, .int _ a, .int _ b => boolResult ty (b.sle a)
  | .logicalAnd, .bool a, .bool b => boolResult ty (a && b)
  | .logicalOr, .bool a, .bool b => boolResult ty (a || b)
  | _, _, _ => none

/-! ## Instructions -/

/-- The values of ids. -/
abbrev Values := Id → Option Value

def Values.set (vs : Values) (id : Id) (v : Value) : Values :=
  fun i => if i = id then some v else vs i

@[simp] theorem Values.set_self (vs : Values) (id : Id) (v : Value) : vs.set id v id = some v :=
  if_pos rfl

/-- Execute an instruction that computes. -/
def Inst.exec (i : Inst) (vs : Values) : Option Values :=
  match i with
  | .unary op ty id x => do
      let a ← vs x
      let v ← op.eval ty a
      some (vs.set id v)
  | .binary op ty id x y => do
      let a ← vs x
      let b ← vs y
      let v ← op.eval ty a b
      some (vs.set id v)
  | _ => none

def execAll : List Inst → Values → Option Values
  | [], vs => some vs
  | i :: is, vs => do
      let vs ← i.exec vs
      execAll is vs

/-- After the instructions `id` has the value `v`. -/
def Yields (is : List Inst) (vs : Values) (id : Id) (v : Value) : Prop :=
  ∃ vs', execAll is vs = some vs' ∧ vs' id = some v

theorem yields_nil {vs : Values} {id : Id} {v w : Value} (h : vs id = some w) :
    Yields [] vs id v ↔ w = v := by
  constructor
  · rintro ⟨vs', hvs, hv⟩
    cases hvs
    rw [h] at hv
    exact Option.some.inj hv
  · rintro rfl
    exact ⟨vs, rfl, h⟩

theorem yields_unary {vs : Values} {op : UnaryOp} {ty : Ty} {id x : Id} {a v : Value}
    (hx : vs x = some a) : Yields [.unary op ty id x] vs id v ↔ op.eval ty a = some v := by
  unfold Yields
  cases he : op.eval ty a with
  | none => simp [execAll, Inst.exec, hx, he]
  | some w => simp [execAll, Inst.exec, hx, he]

theorem yields_binary {vs : Values} {op : BinaryOp} {ty : Ty} {id x y : Id} {a b v : Value}
    (hx : vs x = some a) (hy : vs y = some b) :
    Yields [.binary op ty id x y] vs id v ↔ op.eval ty a b = some v := by
  unfold Yields
  cases he : op.eval ty a b with
  | none => simp [execAll, Inst.exec, hx, hy, he]
  | some w => simp [execAll, Inst.exec, hx, hy, he]

/-! ## The signed and the unsigned order -/

/-- The two orders agree where the sign bits do. -/
theorem slt_eq_ult_iff (a b : BitVec 32) : a.slt b = a.ult b ↔ a.msb = b.msb := by
  rw [BitVec.slt_eq_ult]
  cases a.msb <;> cases b.msb <;> simp

theorem sle_eq_ule_iff (a b : BitVec 32) : a.sle b = a.ule b ↔ a.msb = b.msb := by
  rw [BitVec.sle_eq_not_slt, BitVec.ule_eq_not_ult, Bool.not_inj_iff, slt_eq_ult_iff]
  exact eq_comm

end WinCompat.Lib.Spirv
