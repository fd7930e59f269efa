import WinCompat.Hlsl.ControlFlow
import WinCompat.Lib.SpirvEval

/-!
# Integer and boolean operators

What an operator of the source means on `int`, `uint` and `bool` (`Application.meaning`), beside the
instruction that code generation picks for it. The opcode tables ask whether a type is a float, and
little more: an unsigned comparison is compiled to a signed one, `!` of an integer to its
complement, and a conversion between the three kinds to an instruction that makes a float, or to
none. The two agree exactly where `Application.Keeps` says (`operators_keep_meaning_iff`).
-/

namespace WinCompat.Hlsl

open Lib Lib.Comp

/-! ## Values of the source -/

inductive Scalar
  | int (v : BitVec 32)
  | uint (v : BitVec 32)
  | bool (b : Bool)
  deriving DecidableEq

namespace Scalar

def kind : Scalar → ScalarKind
  | int _ => .int
  | uint _ => .uint
  | bool _ => .bool

/-- The value of the type that `scalarTypeId` gives its kind. -/
def value : Scalar → Spirv.Value
  | int v => .int true v
  | uint v => .int false v
  | bool b => .bool b

def isNonZero : Scalar → Bool
  | int v => v != 0
  | uint v => v != 0
  | bool b => b

/-- The value modulo 2^32. -/
def bits : Scalar → BitVec 32
  | int v => v
  | uint v => v
  | bool b => if b then 1 else 0

end Scalar

/-- Two operands of one kind. -/
inductive Pair
  | int (a b : BitVec 32)
  | uint (a b : BitVec 32)
  | bool (a b : Bool)
  deriving DecidableEq

namespace Pair

def kind : Pair → ScalarKind
  | int _ _ => .int
  | uint _ _ => .uint
  | bool _ _ => .bool

def fst : Pair → Scalar
  | int a _ => .int a
  | uint a _ => .uint a
  | bool a _ => .bool a

def snd : Pair → Scalar
  | int _ b => .int b
  | uint _ b => .uint b
  | bool _ b => .bool b

/-- The numbers that the order of the kind compares. -/
def numbers : Pair → Int × Int
  | int a b => (a.toInt, b.toInt)
  | uint a b => (a.toNat, b.toNat)
  | bool a b => (a.toNat, b.toNat)

end Pair

/-! ## Meanings -/

/-- `+ - * /`; a division by zero and an overflowing one mean nothing. -/
def arithMeaning : BinaryOp → Pair → Option Scalar
  | .add, .int a b => some (.int (a + b))
  | .add, .uint a b => some (.uint (a + b))
  | .sub, .int a b => some (.int (a - b))
  | .sub, .uint a b => some (.uint (a - b))
  | .mul, .int a b => some (.int (a * b))
  | .mul, .uint a b => some (.uint (a * b))
  | .div, .int a b => if Spirv.sDivDefined a b then some (.int (a.sdiv b)) else none
  | .div, .uint a b => if b = 0 then none else some (.uint (a / b))
  | _, _ => none

def orderMeaning (op : BinaryOp) (a b : Int) : Option Bool :=
  match op with
  | .eq => some (decide (a = b))
  | .ne => some (decide (a ≠ b))
  | .lt => some (decide (a < b))
  | .le => some (decide (a ≤ b))
  | .gt => some (decide (b < a))
  | .ge => some (decide (b ≤ a))
  | _ => none

def comparisonMeaning (op : BinaryOp) (p : Pair) : Option Scalar :=
  (orderMeaning op p.numbers.1 p.numbers.2).map .bool

def logicalMeaning (op : BinaryOp) (p : Pair) : Option Scalar :=
  match op with
  | .and => some (.bool (p.fst.isNonZero && p.snd.isNonZero))
  | .or => some (.bool (p.fst.isNonZero || p.snd.isNonZero))
  | _ => none

def unaryMeaning : UnaryOp → Scalar → Option Scalar
  | .neg, .int v => some (.int (-v))
  | .neg, .uint v => some (.uint (-v))
  | .not, a => some (.bool !a.isNonZero)
  | .bitNot, .int v => some (.int (~~~v))
  | .bitNot, .uint v => some (.uint (~~~v))
  | _, _ => none

/-- Conversions to the three kinds. -/
def conversionMeaning (a : Scalar) : ScalarKind → Option Scalar
  | .int => some (.int a.bits)
  | .uint => some (.uint a.bits)
  | .bool => some (.bool a.isNonZero)
  | .float => none

/-- An operator, by the function that emits it, with the values of its operands. -/
inductive Application
  | arith (op : BinaryOp) (p : Pair)
  | comparison (op : BinaryOp) (p : Pair)
  | logical (op : BinaryOp) (hop : isLogical op = true) (p : Pair)
  | unary (op : UnaryOp) (a : Scalar)
  | coerce (a : Scalar) (target : ScalarKind) (htarget : target ≠ .float)

namespace Application

def meaning : Application → Option Scalar
  | arith op p => arithMeaning op p
  | comparison op p => comparisonMeaning op p
  | logical op _ p => logicalMeaning op p
  | unary op a => unaryMeaning op a
  | coerce a target _ => conversionMeaning a target

/-- The operator on operands with the ids `l` and `r`, of the kind of the values. -/
def emit (l r : Spirv.Id) : Application → Cg Val
  | arith op p => emitArith op ⟨l, .scalar p.kind⟩ ⟨r, .scalar p.kind⟩
  | comparison op p => emitComparison op ⟨l, .scalar p.kind⟩ ⟨r, .scalar p.kind⟩
  | logical op _ p => emitLogical op ⟨l, .scalar p.kind⟩ ⟨r, .scalar p.kind⟩
  | unary op a => emitUnary op (pure ⟨l, .scalar a.kind⟩)
  | coerce a target _ => coerceScalar ⟨l, .scalar a.kind⟩ target

/-- The ids have the values of the operands. -/
def Reads (vs : Spirv.Values) (l r : Spirv.Id) : Application → Prop
  | arith _ p | comparison _ p | logical _ _ p =>
      vs l = some p.fst.value ∧ vs r = some p.snd.value
  | unary _ a | coerce a _ _ => vs l = some a.value

/-- Where the instruction has the meaning of the operator: arithmetic always, the others only on
    operands of the kind that their one opcode is made for. -/
def Keeps : Application → Prop
  | arith _ _ => True
  | comparison _ (.int _ _) => True
  | comparison op (.uint a b) => op = .eq ∨ op = .ne ∨ a.msb = b.msb
  | comparison _ (.bool _ _) => False
  | logical _ _ p => p.kind = .bool
  | unary op a => op = .not → a.kind = .bool
  | coerce a target _ => a.kind = target

end Application

/-! ## What is emitted -/

/-- The instructions of the selected block. -/
def selectedBody (s : Ctx) : List Spirv.Inst :=
  match s.builder.func with
  | some f => (f.selected.map (·.body)).getD []
  | none => []

/-- The instructions appended between two states. -/
def emittedSince (s s' : Ctx) : List Spirv.Inst :=
  (selectedBody s').drop (selectedBody s).length

/-- If the operator means something, the instructions emitted from `s` to `s'` compute it. -/
def Application.ComputedBy (x : Application) (s s' : Ctx) (v : Val) (vs : Spirv.Values) : Prop :=
  ∀ out, x.meaning = some out →
    v.ty = .scalar out.kind ∧ Spirv.Yields (emittedSince s s') vs v.id out.value

section

variable {s s' : Ctx}

theorem emittedSince_self (s : Ctx) : emittedSince s s = [] := List.drop_length

theorem emittedSince_extend (hs : s.Open) (n : Spirv.Id) (cs : List Spirv.Constant)
    (is : List Spirv.Inst) : emittedSince s (s.extend n cs is) = is := by
  obtain ⟨f, b, hf, hb⟩ := hs
  have hbefore : selectedBody s = b.body := by simp [selectedBody, hf, hb]
  have hafter : selectedBody (s.extend n cs is) = b.body ++ is := by
    simp [selectedBody, Ctx.extend, Spirv.Function.appendAll, hf, hb]
  rw [emittedSince, hbefore, hafter, List.drop_left]

theorem open_of_appendResult {what : String} {i : Spirv.Id → Spirv.Inst} {id : Spirv.Id}
    (h : appendResult what i s = .ok (id, s')) : s.Open := by
  obtain ⟨id', s1, h1, h⟩ := bind_eq_ok h
  obtain ⟨_, s2, h2, -⟩ := bind_eq_ok h
  obtain ⟨f, f', hf, hchange, -⟩ := onFunction_ok h2
  cases h1
  cases hb : f.selected with
  | none => simp [Spirv.Function.append, hb] at hchange
  | some b => exact ⟨f, b, hf, hb⟩

theorem pushBlockInst_since {i : Spirv.Id → Spirv.Inst} {id : Spirv.Id}
    (h : pushBlockInst i s = .ok (id, s')) : emittedSince s s' = [i id] := by
  have hs := open_of_appendResult h
  obtain ⟨rfl, rfl⟩ := appendResult_ok hs h
  exact emittedSince_extend hs _ _ _

theorem typeId_scalar {k : ScalarKind} {st : Spirv.Ty} (h : typeId (.scalar k) s = .ok (st, s')) :
    scalarTypeId k = st ∧ s = s' := by
  obtain ⟨hty, rfl⟩ := typeId_ok h
  cases hty
  exact ⟨rfl, rfl⟩

variable {l r : Spirv.Id} {k : ScalarKind} {v : Val}

variable {op : BinaryOp}

theorem emitArith_scalar (h : emitArith op ⟨l, .scalar k⟩ ⟨r, .scalar k⟩ s = .ok (v, s')) :
    ∃ o, arithOp op (.scalar k) = some o ∧ v.ty = .scalar k ∧
      emittedSince s s' = [.binary o (scalarTypeId k) v.id l r] := by
  have harith : arithTy (.scalar k) (.scalar k) = .scalar k := rfl
  obtain ⟨st, s1, h1, h⟩ := bind_eq_ok h
  simp only [harith] at h1 h
  obtain ⟨rfl, rfl⟩ := typeId_scalar h1
  cases ho : arithOp op (.scalar k) with
  | none =>
    simp only [ho] at h
    cases h
  | some o =>
    simp only [ho] at h
    obtain ⟨id, s2, h2, h⟩ := bind_eq_ok h
    cases h
    exact ⟨o, rfl, rfl, (pushBlockInst_since h2 :)⟩

theorem emitComparison_scalar (hk : k ≠ .float)
    (h : emitComparison op ⟨l, .scalar k⟩ ⟨r, .scalar k⟩ s = .ok (v, s')) :
    ∃ o, comparisonOp op false = some o ∧ v.ty = .scalar .bool ∧
      emittedSince s s' = [.binary o .bool v.id l r] := by
  have hfloat : Ty.isFloat (.scalar k) = false := by cases k <;> first | rfl | exact absurd rfl hk
  obtain ⟨st, s1, h1, h⟩ := bind_eq_ok h
  obtain ⟨rfl, rfl⟩ := typeId_scalar h1
  simp only [hfloat] at h
  cases ho : comparisonOp op false with
  | none =>
    simp only [ho] at h
    cases h
  | some o =>
    simp only [ho] at h
    obtain ⟨id, s2, h2, h⟩ := bind_eq_ok h
    cases h
    exact ⟨o, rfl, rfl, (pushBlockInst_since h2 :)⟩

theorem emitLogical_scalar (h : emitLogical op ⟨l, .scalar k⟩ ⟨r, .scalar k⟩ s = .ok (v, s')) :
    v.ty = .scalar .bool ∧ emittedSince s s' =
      [.binary (if op = .and then .logicalAnd else .logicalOr) .bool v.id l r] := by
  obtain ⟨id, s1, h1, h⟩ := bind_eq_ok h
  cases h
  exact ⟨rfl, (pushBlockInst_since h1 :)⟩

theorem emitUnary_scalar {op : UnaryOp}
    (h : emitUnary op (pure ⟨l, .scalar k⟩) s = .ok (v, s')) :
    ∃ o, unaryOpcode op (.scalar k) = some o ∧ v.ty = .scalar k ∧
      emittedSince s s' = [.unary o (scalarTypeId k) v.id l] := by
  obtain ⟨w, s1, h1, h⟩ := bind_eq_ok h
  cases h1
  obtain ⟨st, s2, h2, h⟩ := bind_eq_ok h
  obtain ⟨rfl, rfl⟩ := typeId_scalar h2
  cases ho : unaryOpcode op (.scalar k) with
  | none =>
    simp only [ho] at h
    cases h
  | some o =>
    simp only [ho] at h
    obtain ⟨id, s3, h3, h⟩ := bind_eq_ok h
    cases h
    exact ⟨o, rfl, rfl, (pushBlockInst_since h3 :)⟩

theorem coerceScalar_cases {target : ScalarKind}
    (h : coerceScalar ⟨l, .scalar k⟩ target s = .ok (v, s')) :
    ((k = target ∨ coerceOp (.scalar k) target = none) ∧ v = ⟨l, .scalar k⟩ ∧
      emittedSince s s' = []) ∨
    ∃ o, k ≠ target ∧ coerceOp (.scalar k) target = some o ∧ v.ty = .scalar target ∧
      emittedSince s s' = [.unary o (scalarTypeId target) v.id l] := by
  unfold coerceScalar at h
  by_cases hk : k = target
  · subst hk
    rw [if_pos rfl] at h
    cases h
    exact Or.inl ⟨Or.inl rfl, rfl, emittedSince_self s⟩
  · rw [if_neg (by simpa using hk)] at h
    cases ho : coerceOp (.scalar k) target with
    | none =>
      simp only [ho] at h
      cases h
      exact Or.inl ⟨Or.inr rfl, rfl, emittedSince_self s⟩
    | some o =>
      simp only [ho] at h
      obtain ⟨id, s1, h1, h⟩ := bind_eq_ok h
      cases h
      exact Or.inr ⟨o, hk, rfl, rfl, (pushBlockInst_since h1 :)⟩

end

/-! ## The instruction and the meaning -/

variable {o : Spirv.BinaryOp}

theorem arith_computes {op : BinaryOp} {p : Pair} {out : Scalar}
    (ho : arithOp op (.scalar p.kind) = some o) (hout : arithMeaning op p = some out) :
    p.kind = out.kind ∧ o.eval (scalarTypeId p.kind) p.fst.value p.snd.value = some out.value := by
  cases p with
  | int a b =>
    cases op with
    | add | sub | mul =>
      cases ho
      cases hout
      exact ⟨rfl, rfl⟩
    | div =>
      cases ho
      by_cases hdef : Spirv.sDivDefined a b
      · simp only [arithMeaning, if_pos hdef] at hout
        cases hout
        exact ⟨rfl, if_pos hdef⟩
      · simp only [arithMeaning, if_neg hdef] at hout
        cases hout
    | _ => cases hout
  | uint a b =>
    cases op with
    | add | sub | mul =>
      cases ho
      cases hout
      exact ⟨rfl, rfl⟩
    | div =>
      cases ho
      by_cases hzero : b = 0
      · simp only [arithMeaning, if_pos hzero] at hout
        cases hout
      · simp only [arithMeaning, if_neg hzero] at hout
        cases hout
        exact ⟨rfl, if_neg hzero⟩
    | _ => cases hout
  | bool a b => cases op <;> cases ho

section

attribute [local simp] orderMeaning Spirv.BinaryOp.eval

theorem comparison_int {op : BinaryOp} (a b : BitVec 32) (ho : comparisonOp op false = some o)
    (sign : Bool) :
    o.eval .bool (.int sign a) (.int sign b) =
      (orderMeaning op a.toInt b.toInt).map Spirv.Value.bool := by
  cases op with
  | eq =>
    cases ho
    simp [Spirv.BinaryOp.eval, Spirv.boolResult, orderMeaning, BitVec.toInt_inj, beq_eq_decide]
  | ne =>
    cases ho
    simp [Spirv.BinaryOp.eval, Spirv.boolResult, orderMeaning, BitVec.toInt_inj, bne, beq_eq_decide]
  | lt | le | gt | ge =>
    cases ho
    simp [Spirv.BinaryOp.eval, Spirv.boolResult, orderMeaning, BitVec.slt_eq_decide,
      BitVec.sle_eq_decide]
  | _ => cases ho

theorem order_toNat_iff {op : BinaryOp} (a b : BitVec 32) (ho : comparisonOp op false = some o) :
    orderMeaning op a.toInt b.toInt = orderMeaning op a.toNat b.toNat ↔
      op = .eq ∨ op = .ne ∨ a.msb = b.msb := by
  have hlt : ∀ a b : BitVec 32, decide (a.toInt < b.toInt) = decide ((a.toNat : Int) < b.toNat) ↔
      a.msb = b.msb := by
    intro a b
    rw [← BitVec.slt_eq_decide, ← Spirv.slt_eq_ult_iff, BitVec.ult_eq_decide]
    simp only [Int.ofNat_lt]
  have hle : ∀ a b : BitVec 32, decide (a.toInt ≤ b.toInt) = decide ((a.toNat : Int) ≤ b.toNat) ↔
      a.msb = b.msb := by
    intro a b
    rw [← BitVec.sle_eq_decide, ← Spirv.sle_eq_ule_iff, BitVec.ule_eq_decide]
    simp only [Int.ofNat_le]
  cases op with
  | eq | ne => simp [orderMeaning, BitVec.toInt_inj, BitVec.toNat_inj]
  | lt => simpa [orderMeaning] using hlt a b
  | le => simpa [orderMeaning] using hle a b
  | gt => simpa [orderMeaning, eq_comm] using hlt b a
  | ge => simpa [orderMeaning, eq_comm] using hle b a
  | _ => cases ho

end

theorem orderMeaning_isSome {op : BinaryOp} (ho : comparisonOp op false = some o) (a b : Int) :
    ∃ c, orderMeaning op a b = some c := by
  cases op <;> first | exact ⟨_, rfl⟩ | cases ho

theorem comparison_computes_iff {op : BinaryOp} {p : Pair} (ho : comparisonOp op false = some o) :
    (∀ out, comparisonMeaning op p = some out →
      .bool = out.kind ∧ o.eval .bool p.fst.value p.snd.value = some out.value) ↔
    (Application.comparison op p).Keeps := by
  obtain ⟨c, hc⟩ := orderMeaning_isSome ho p.numbers.1 p.numbers.2
  have hmeans : comparisonMeaning op p = some (.bool c) := by simp [comparisonMeaning, hc]
  have hone : (∀ out, comparisonMeaning op p = some out →
      .bool = out.kind ∧ o.eval .bool p.fst.value p.snd.value = some out.value) ↔
      o.eval .bool p.fst.value p.snd.value = some (.bool c) := by
    rw [hmeans]
    constructor
    · intro h
      exact (h (.bool c) rfl).2
    · rintro h out hout
      cases hout
      exact ⟨rfl, h⟩
  rw [hone]
  cases p with
  | int a b =>
    show o.eval .bool (.int true a) (.int true b) = _ ↔ True
    have hc : orderMeaning op a.toInt b.toInt = some c := hc
    simp [comparison_int a b ho, hc]
  | uint a b =>
    show o.eval .bool (.int false a) (.int false b) = _ ↔ _
    have hc : orderMeaning op a.toNat b.toNat = some c := hc
    obtain ⟨d, hd⟩ := orderMeaning_isSome ho a.toInt b.toInt
    have hiff := order_toNat_iff a b ho
    rw [comparison_int a b ho]
    rw [hd, hc] at hiff
    simpa [hd, Application.Keeps] using hiff
  | bool a b =>
    show o.eval .bool (.bool a) (.bool b) = _ ↔ False
    cases op <;> cases ho <;> simp [Spirv.BinaryOp.eval]

theorem logical_computes_iff {op : BinaryOp} (hop : isLogical op = true) {p : Pair} :
    (∀ out, logicalMeaning op p = some out → .bool = out.kind ∧
      (if op = .and then Spirv.BinaryOp.logicalAnd else .logicalOr).eval .bool p.fst.value
        p.snd.value = some out.value) ↔ p.kind = .bool := by
  cases op <;> cases hop
  all_goals
    cases p <;> simp [logicalMeaning, Pair.kind, Pair.fst, Pair.snd, Scalar.value, Scalar.kind,
      Scalar.isNonZero, Spirv.BinaryOp.eval, Spirv.boolResult]

theorem unary_computes_iff {op : UnaryOp} {a : Scalar} {o : Spirv.UnaryOp}
    (ho : unaryOpcode op (.scalar a.kind) = some o) :
    (∀ out, unaryMeaning op a = some out → a.kind = out.kind ∧
      o.eval (scalarTypeId a.kind) a.value = some out.value) ↔ (op = .not → a.kind = .bool) := by
  cases op <;> cases a <;> cases ho
  all_goals
    simp [unaryMeaning, Scalar.kind, Scalar.value, Scalar.isNonZero, scalarTypeId,
      Spirv.UnaryOp.eval, Spirv.intResult, Spirv.boolResult]

variable {target : ScalarKind}

theorem coerceOp_eval {a : Scalar} {o : Spirv.UnaryOp} {ty : Spirv.Ty}
    (ho : coerceOp (.scalar a.kind) target = some o) : o.eval ty a.value = none := by
  cases a <;> cases target <;> cases ho <;> rfl

theorem conversionMeaning_kind {a out : Scalar} (h : conversionMeaning a target = some out) :
    out.kind = target := by
  cases target <;> cases h <;> rfl

theorem conversionMeaning_self {a out : Scalar} (h : conversionMeaning a a.kind = some out) :
    out = a := by
  cases a with
  | bool b => cases b <;> cases h <;> rfl
  | _ =>
    cases h
    rfl

theorem conversionMeaning_isSome (a : Scalar) (h : target ≠ .float) :
    ∃ out, conversionMeaning a target = some out := by
  cases target with
  | float => exact absurd rfl h
  | _ => exact ⟨_, rfl⟩

theorem coerce_computed_iff {a : Scalar} (htarget : target ≠ .float) {l : Spirv.Id} {s s' : Ctx}
    {v : Val} {vs : Spirv.Values} (hl : vs l = some a.value)
    (h : coerceScalar ⟨l, .scalar a.kind⟩ target s = .ok (v, s')) :
    (Application.coerce a target htarget).ComputedBy s s' v vs ↔ a.kind = target := by
  rcases coerceScalar_cases h with ⟨hsame, rfl, hnone⟩ | ⟨o, hne, ho, hty, hsince⟩
  · constructor
    · intro hcomputed
      obtain ⟨out, hout⟩ := conversionMeaning_isSome a htarget
      obtain ⟨hkind, -⟩ := hcomputed out hout
      rw [conversionMeaning_kind hout] at hkind
      exact Ty.scalar.inj hkind
    · rintro rfl out hout
      obtain rfl := conversionMeaning_self hout
      rw [hnone, Spirv.yields_nil hl]
      exact ⟨rfl, rfl⟩
  · constructor
    · intro hcomputed
      obtain ⟨out, hout⟩ := conversionMeaning_isSome a htarget
      obtain ⟨-, hyields⟩ := hcomputed out hout
      rw [hsince, Spirv.yields_unary hl, coerceOp_eval ho] at hyields
      cases hyields
    · intro heq
      exact absurd heq hne

/-- An accepted operator on `int`, `uint` or `bool` is compiled to its meaning exactly where
    `Keeps` says. -/
theorem operators_keep_meaning_iff {x : Application} {l r : Spirv.Id} {s s' : Ctx} {v : Val}
    {vs : Spirv.Values} (h : x.emit l r s = .ok (v, s')) (hvs : x.Reads vs l r) :
    x.ComputedBy s s' v vs ↔ x.Keeps := by
  cases x with
  | arith op p =>
    obtain ⟨o, ho, hty, hsince⟩ := emitArith_scalar h
    refine ⟨fun _ => trivial, fun _ out hout => ?_⟩
    obtain ⟨hkind, heval⟩ := arith_computes ho hout
    rw [hsince, Spirv.yields_binary hvs.1 hvs.2, hty, hkind]
    exact ⟨rfl, hkind ▸ heval⟩
  | comparison op p =>
    have hk : p.kind ≠ .float := by cases p <;> exact nofun
    obtain ⟨o, ho, hty, hsince⟩ := emitComparison_scalar hk h
    rw [← comparison_computes_iff ho]
    refine forall₂_congr fun out _ => ?_
    rw [hsince, Spirv.yields_binary hvs.1 hvs.2, hty, Ty.scalar.injEq]
  | logical op hop p =>
    obtain ⟨hty, hsince⟩ := emitLogical_scalar h
    refine Iff.trans (forall₂_congr fun out _ => ?_) (logical_computes_iff hop)
    rw [hsince, Spirv.yields_binary hvs.1 hvs.2, hty, Ty.scalar.injEq]
  | unary op a =>
    obtain ⟨o, ho, hty, hsince⟩ := emitUnary_scalar h
    refine Iff.trans (forall₂_congr fun out _ => ?_) (unary_computes_iff ho)
    rw [hsince, Spirv.yields_unary hvs, hty, Ty.scalar.injEq]
  | coerce a target htarget => exact coerce_computed_iff htarget hvs h

/-- An empty function, its first block selected. -/
def emptyEntry : Ctx :=
  { Ctx.new .pixel with builder := { Spirv.Builder.new with
      nextId := 10
      func := some ⟨2, [], some ⟨3, []⟩⟩ } }

/-- Id 4 has one value and all other ids the other. -/
def twoValues (a b : Scalar) : Spirv.Values := fun i => some (if i = 4 then a.value else b.value)

/-- `5u < 7u`. -/
theorem operators_keep_meaning_small : ∃ v s',
    (Application.comparison .lt (.uint 5 7)).emit 4 5 emptyEntry = .ok (v, s') ∧
      (Application.comparison .lt (.uint 5 7)).ComputedBy emptyEntry s' v
        (twoValues (.uint 5) (.uint 7)) := by
  refine ⟨_, _, rfl, ?_⟩
  refine (@operators_keep_meaning_iff (.comparison .lt (.uint 5 7)) 4 5 _ _ _ _ rfl ?_).mpr ?_
  · exact ⟨rfl, rfl⟩
  · exact Or.inr (Or.inr (by decide))

/-- `2147483648u < 1u` is compiled to a signed comparison, which holds. -/
theorem uint_less_not_computed : ∃ v s',
    (Application.comparison .lt (.uint 0x80000000 1)).emit 4 5 emptyEntry = .ok (v, s') ∧
      ¬ (Application.comparison .lt (.uint 0x80000000 1)).ComputedBy emptyEntry s' v
        (twoValues (.uint 0x80000000) (.uint 1)) := by
  refine ⟨_, _, rfl, fun hcomputed => ?_⟩
  obtain ⟨-, hyields⟩ := hcomputed (.bool false) (by decide)
  have hyields : Spirv.Yields [Spirv.Inst.binary .sLessThan .bool 10 4 5]
    (twoValues (.uint 0x80000000) (.uint 1)) 10 (.bool false) := hyields
  have heval := (@Spirv.yields_binary _ _ _ _ _ _ (Scalar.uint 0x80000000).value
    (Scalar.uint 1).value _ rfl rfl).mp hyields
  exact absurd heval (by decide)

end WinCompat.Hlsl
