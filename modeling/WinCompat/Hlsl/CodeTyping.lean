import WinCompat.Hlsl.Typing

/-!
# Operators and their operands

The opcode that the compiler chooses for an operator accepts the types of its operands exactly when the
operands are well typed: for the binary operators (`binaryChoice_accepts`), the unary ones, the
conversions and the products. A type of a shader is a scalar or a vector exactly as the SPIR-V type
that it stands for is (`shape_iff`), so each rule on one side can be read off the other.
-/

namespace WinCompat.Hlsl

open Lib

/-! ## Types and their shapes -/

/-- The type of a scalar or vector. -/
def shapeTy (k : ScalarKind) : Option Nat → Spirv.Ty
  | none => scalarTypeId k
  | some n => vectorTypeId k n

theorem shape_injective {v w : Ty} {sh : ScalarKind × Option Nat} (hv : v.shape = some sh)
    (hw : w.shape = some sh) : v = w := by
  cases v with
  | scalar k | vector k n =>
    cases hv
    cases w with
    | scalar k | vector k n => cases hw <;> rfl
    | _ => cases hw
  | _ => cases hv

theorem shapeTy_size (k : ScalarKind) (size : Option Nat) : (shapeTy k size).size = size := by
  cases size with
  | none => cases k <;> rfl
  | some n => rfl

variable {size : Option Nat} {k : ScalarKind}

theorem shapeTy_isFloat : (shapeTy k size).IsFloat ↔ k = .float := by
  cases size <;> cases k <;> simp [shapeTy, scalarTypeId, vectorTypeId, Spirv.Ty.IsFloat]

theorem shapeTy_isInt : (shapeTy k size).IsInt ↔ k.isInteger = true := by
  cases size <;> cases k <;>
    simp [shapeTy, scalarTypeId, vectorTypeId, Spirv.Ty.IsInt, ScalarKind.isInteger]

theorem shapeTy_isUnsigned : (shapeTy k size).IsUnsigned ↔ k = .uint := by
  cases size <;> cases k <;> simp [shapeTy, scalarTypeId, vectorTypeId, Spirv.Ty.IsUnsigned]

theorem shapeTy_isBool : (shapeTy k size).IsBool ↔ k = .bool := by
  cases size <;> cases k <;> simp [shapeTy, scalarTypeId, vectorTypeId, Spirv.Ty.IsBool]

theorem scalarTypeId_injective {k k' : ScalarKind} (h : scalarTypeId k = scalarTypeId k') : k = k' := by
  cases k <;> cases k' <;> first | rfl | cases h

theorem scalarTypeId_ne_vector (k : ScalarKind) (e : Spirv.Ty) (n : Nat) :
    scalarTypeId k ≠ .vector e n := by
  cases k <;> nofun

theorem shapeTy_injective {k k' : ScalarKind} {size size' : Option Nat}
    (h : shapeTy k size = shapeTy k' size') : k = k' ∧ size = size' := by
  cases size with
  | none =>
    cases size' with
    | none => exact ⟨scalarTypeId_injective h, rfl⟩
    | some n => exact absurd h (scalarTypeId_ne_vector k _ n)
  | some n =>
    cases size' with
    | none => exact absurd h.symm (scalarTypeId_ne_vector k' _ n)
    | some m =>
      injection h with he hn
      exact ⟨scalarTypeId_injective he, congrArg some hn⟩

/-- Neither a scalar nor a vector. -/
def Compound (st : Spirv.Ty) : Prop := ∀ k size, st ≠ shapeTy k size

/-- The structs of a scope are structs. -/
def Scope.StructsOk (sc : Scope) : Prop :=
  ∀ name info, sc.structs.lookup name = some info → ∃ members, info.typeId = .struct members

section

variable {sc : Scope}

theorem toOption_eq_some {ε α : Type} {x : Outcome ε α} {a : α} : x.toOption = some a ↔ x = .ok a := by
  cases x <;> simp [Outcome.toOption]

theorem valueTypeOf_of_typeOf {ty : Ty} {st : Spirv.Ty} (h : sc.typeOf ty = some st) :
    sc.valueTypeOf ty = some st := by
  cases ty with
  | texture2D | samplerState => cases h
  | _ => exact h

theorem valueTypeOf_shape {ty : Ty} (h : ty.shape = some (k, size)) :
    sc.valueTypeOf ty = some (shapeTy k size) := by
  cases ty with
  | scalar k | vector k n =>
    cases h
    rfl
  | _ => cases h

theorem compound_of_shape (hs : sc.StructsOk) {ty : Ty} {st : Spirv.Ty} (h : ty.shape = none)
    (hst : sc.valueTypeOf ty = some st) : Compound st := by
  have hne : ∀ {t : Spirv.Ty}, (∀ k, t ≠ scalarTypeId k) → (∀ e n, t ≠ .vector e n) → Compound t := by
    intro t hk hv k size
    cases size with
    | none => exact hk k
    | some n => exact hv _ n
  cases ty with
  | scalar k | vector k n => cases h
  | struct name =>
    have hst : sc.names.typeId (.struct name) = .ok st := toOption_eq_some.mp hst
    unfold Tables.typeId at hst
    cases hinfo : sc.structs.lookup name with
    | none =>
      simp only [Scope.names, hinfo] at hst
      cases hst
    | some info =>
      obtain ⟨members, hm⟩ := hs name info hinfo
      simp only [Scope.names, hinfo] at hst
      cases hst
      rw [hm]
      exact hne (fun k => by cases k <;> nofun) nofun
  | _ =>
    cases hst
    exact hne (fun k => by cases k <;> nofun) nofun

/-- A type is a scalar or vector exactly as its SPIR-V type is. -/
theorem shape_iff (hs : sc.StructsOk) {ty : Ty} {st : Spirv.Ty} (hst : sc.valueTypeOf ty = some st)
    (k : ScalarKind) (size : Option Nat) : ty.shape = some (k, size) ↔ st = shapeTy k size := by
  constructor
  · intro h
    rw [valueTypeOf_shape h] at hst
    cases hst
    rfl
  · intro h
    cases hsh : ty.shape with
    | none => exact absurd h (compound_of_shape hs hsh hst k size)
    | some sh =>
      obtain ⟨k', size'⟩ := sh
      rw [valueTypeOf_shape hsh] at hst
      cases hst
      obtain ⟨rfl, rfl⟩ := shapeTy_injective h
      rfl

theorem isFloat_iff (hs : sc.StructsOk) {ty : Ty} {st : Spirv.Ty} (hst : sc.valueTypeOf ty = some st) :
    st.IsFloat ↔ IsFloating ty := by
  constructor
  · rintro (rfl | ⟨n, rfl⟩)
    · exact ⟨none, (shape_iff hs hst .float none).mpr rfl⟩
    · exact ⟨some n, (shape_iff hs hst .float (some n)).mpr rfl⟩
  · rintro ⟨size, h⟩
    rw [(shape_iff hs hst _ _).mp h]
    exact shapeTy_isFloat.mpr rfl

theorem isInt_iff (hs : sc.StructsOk) {ty : Ty} {st : Spirv.Ty} (hst : sc.valueTypeOf ty = some st) :
    st.IsInt ↔ ∃ k size, ty.shape = some (k, size) ∧ k.isInteger = true := by
  constructor
  · rintro ⟨signed, h⟩
    have hk : ∃ k, scalarTypeId k = .int signed ∧ k.isInteger = true := by
      cases signed
      · exact ⟨.uint, rfl, rfl⟩
      · exact ⟨.int, rfl, rfl⟩
    obtain ⟨k, hk, hint⟩ := hk
    rcases h with rfl | ⟨n, rfl⟩
    · exact ⟨k, none, (shape_iff hs hst k none).mpr hk.symm, hint⟩
    · refine ⟨k, some n, (shape_iff hs hst k (some n)).mpr ?_, hint⟩
      rw [← hk]
      rfl
  · rintro ⟨k, size, h, hint⟩
    rw [(shape_iff hs hst _ _).mp h]
    exact shapeTy_isInt.mpr hint

/-- A scalar or vector is the only type with its SPIR-V type. -/
theorem valueTypeOf_injective (hs : sc.StructsOk) {v w : Ty} {st : Spirv.Ty}
    (hv : v.shape = some (k, size)) (hvt : sc.valueTypeOf v = some st)
    (hw : sc.valueTypeOf w = some st) : w = v := by
  have hst := (shape_iff hs hvt k size).mp hv
  exact shape_injective ((shape_iff hs hw k size).mpr hst) hv

end

/-! ## Operators -/

theorem comparisonOp_accepts {op : BinaryOp} {o : Spirv.BinaryOp} {r a b : Spirv.Ty} :
    (comparisonOp op true = some o →
      (o.Accepts r a b ↔ r.IsBool ∧ a.IsFloat ∧ b = a ∧ a.size = r.size)) ∧
    (comparisonOp op false = some o →
      (o.Accepts r a b ↔ r.IsBool ∧ a.IsInt ∧ b.IsInt ∧ a.size = r.size ∧ b.size = r.size)) := by
  constructor
  · intro h
    cases op <;> cases h <;> exact Iff.rfl
  · intro h
    cases op <;> cases h <;> exact Iff.rfl

theorem arithOp_float {op : BinaryOp} {ty : Ty} {o : Spirv.BinaryOp} (h : arithOp op ty = some o)
    (hty : ty.shape = some (.float, size)) (r a b : Spirv.Ty) :
    o.Accepts r a b ↔ r.IsFloat ∧ a = r ∧ b = r := by
  cases ty with
  | scalar k | vector k n =>
    cases hty
    cases op <;> cases h <;> exact Iff.rfl
  | _ => cases hty

/-- The opcode of any other operator: only division minds the sign. -/
theorem arithOp_other {op : BinaryOp} {ty : Ty} {o : Spirv.BinaryOp} (h : arithOp op ty = some o)
    (hty : ty.shape = some (k, size)) (hk : k ≠ .float) (r a b : Spirv.Ty) :
    o.Accepts r a b ↔
      if op = .div ∧ k = .uint then r.IsUnsigned ∧ a = r ∧ b = r
      else r.IsInt ∧ a.IsInt ∧ b.IsInt ∧ a.size = r.size ∧ b.size = r.size := by
  cases ty with
  | scalar k' | vector k' n =>
    cases hty
    cases k
    · exact absurd rfl hk
    all_goals cases op <;> cases h <;> exact Iff.rfl
  | _ => cases hty

theorem arithOp_shape {op : BinaryOp} {ty : Ty} {o : Spirv.BinaryOp} (h : arithOp op ty = some o) :
    ∃ k size, ty.shape = some (k, size) := by
  cases ty with
  | scalar k | vector k n => exact ⟨_, _, rfl⟩
  | _ => cases op <;> cases h

theorem arithTy_eq (l r : Ty) : arithTy l r = l ∨ arithTy l r = r := by
  unfold arithTy
  cases l.isComposite
  · exact Or.inr rfl
  · exact Or.inl rfl

theorem Numeric.shapes {l r : Ty} (h : Numeric l r) : ∃ k k' size, l.shape = some (k, size) ∧
    r.shape = some (k', size) ∧ (k = .float ↔ k' = .float) := by
  obtain ⟨k, k', size, hl, hr, hk⟩ := h
  refine ⟨k, k', size, hl, hr, ?_⟩
  rcases hk with ⟨rfl, rfl⟩ | ⟨hk, hk'⟩
  · exact Iff.rfl
  · constructor
    · rintro rfl
      cases hk
    · rintro rfl
      cases hk'

section

variable {sc : Scope} {l r ty : Ty} {tl tr st : Spirv.Ty} {op : BinaryOp} {o : Spirv.BinaryOp}

theorem Numeric.eq_of_float (h : Numeric l r)
    (hf : l.shape = some (.float, size) ∨ r.shape = some (.float, size)) :
    l = r ∧ l.shape = some (.float, size) := by
  obtain ⟨k, k', size', hl, hr, hk⟩ := h.shapes
  rcases hf with hf | hf
  · rw [hf] at hl
    cases hl
    cases hk.mp rfl
    exact ⟨shape_injective hf hr, hf⟩
  · rw [hf] at hr
    cases hr
    cases hk.mpr rfl
    exact ⟨shape_injective hl hf, hl⟩

theorem numeric_self (h : ty.shape = some (k, size)) (hk : k ≠ .bool) : Numeric ty ty := by
  refine ⟨k, k, size, h, h, ?_⟩
  cases k
  · exact Or.inl ⟨rfl, rfl⟩
  · exact Or.inr ⟨rfl, rfl⟩
  · exact Or.inr ⟨rfl, rfl⟩
  · exact absurd rfl hk

theorem numeric_of_int (hs : sc.StructsOk) (hl : sc.valueTypeOf l = some tl)
    (hr : sc.valueTypeOf r = some tr) (hil : tl.IsInt) (hir : tr.IsInt) (heq : tl.size = tr.size) :
    Numeric l r := by
  obtain ⟨k, s, hls, hk⟩ := (isInt_iff hs hl).mp hil
  obtain ⟨k', s', hrs, hk'⟩ := (isInt_iff hs hr).mp hir
  rw [(shape_iff hs hl _ _).mp hls, (shape_iff hs hr _ _).mp hrs, shapeTy_size, shapeTy_size] at heq
  subst heq
  exact ⟨k, k', s, hls, hrs, Or.inr ⟨hk, hk'⟩⟩

theorem Numeric.int (h : Numeric l r) (hs : sc.StructsOk) (hl : sc.valueTypeOf l = some tl)
    (hr : sc.valueTypeOf r = some tr) (hnf : ¬ IsFloating l) :
    tl.IsInt ∧ tr.IsInt ∧ tl.size = tr.size := by
  obtain ⟨k, k', s, hls, hrs, hk⟩ := h
  rcases hk with ⟨rfl, rfl⟩ | ⟨hk, hk'⟩
  · exact absurd ⟨s, hls⟩ hnf
  · refine ⟨(isInt_iff hs hl).mpr ⟨k, s, hls, hk⟩, (isInt_iff hs hr).mpr ⟨k', s, hrs, hk'⟩, ?_⟩
    rw [(shape_iff hs hl _ _).mp hls, (shape_iff hs hr _ _).mp hrs, shapeTy_size, shapeTy_size]

theorem numeric_isFloating (h : Numeric l r) : IsFloating l ↔ IsFloating r := by
  obtain ⟨k, k', s, hl, hr, hk⟩ := h.shapes
  constructor
  · rintro ⟨s', hf⟩
    rw [hf] at hl
    cases hl
    exact ⟨s, hk.mp rfl ▸ hr⟩
  · rintro ⟨s', hf⟩
    rw [hf] at hr
    cases hr
    exact ⟨s, hk.mpr rfl ▸ hl⟩

/-- The result of an arithmetic operator has the type of an operand. -/
theorem arithTy_type (hl : sc.valueTypeOf l = some tl) (hr : sc.valueTypeOf r = some tr)
    (hst : sc.valueTypeOf (arithTy l r) = some st) : st = tl ∨ st = tr := by
  rcases arithTy_eq l r with h | h
  · rw [h, hl] at hst
    exact Or.inl (Option.some.inj hst).symm
  · rw [h, hr] at hst
    exact Or.inr (Option.some.inj hst).symm

theorem arithTy_self (l : Ty) : arithTy l l = l := (arithTy_eq l l).elim id id

/-- An opcode for operands of the result type. -/
theorem same_iff (hs : sc.StructsOk) (hl : sc.valueTypeOf l = some tl)
    (hr : sc.valueTypeOf r = some tr) (hst : sc.valueTypeOf (arithTy l r) = some st)
    (hsh : (arithTy l r).shape = some (k, size)) : tl = st ∧ tr = st ↔ l = r := by
  constructor
  · rintro ⟨rfl, rfl⟩
    rw [valueTypeOf_injective hs hsh hst hl]
    exact (valueTypeOf_injective hs hsh hst hr).symm
  · rintro rfl
    rw [arithTy_self, hl] at hst
    cases hst
    rw [hl] at hr
    cases hr
    exact ⟨rfl, rfl⟩

theorem arith_accepts (hs : sc.StructsOk) (hl : sc.valueTypeOf l = some tl)
    (hr : sc.valueTypeOf r = some tr) (hst : sc.valueTypeOf (arithTy l r) = some st)
    (ho : arithOp op (arithTy l r) = some o) :
    o.Accepts st tl tr ↔
      Numeric l r ∧ (op = .div → (arithTy l r).shape.map Prod.fst = some .uint → l = r) := by
  obtain ⟨k, size, hsh⟩ := arithOp_shape ho
  have hsame := same_iff hs hl hr hst hsh
  have hself : l = r → k ≠ .bool → Numeric l r := by
    rintro rfl hk
    rw [arithTy_self] at hsh
    exact numeric_self hsh hk
  by_cases hk : k = .float
  · subst hk
    rw [arithOp_float ho hsh, hsame]
    constructor
    · rintro ⟨-, heq⟩
      exact ⟨hself heq nofun, fun _ _ => heq⟩
    · rintro ⟨hnum, -⟩
      refine ⟨(isFloat_iff hs hst).mpr ⟨size, hsh⟩, ?_⟩
      refine (@Numeric.eq_of_float size _ _ hnum ?_).1
      rcases arithTy_eq l r with h | h
      · exact Or.inl (h ▸ hsh)
      · exact Or.inr (h ▸ hsh)
  · rw [arithOp_other ho hsh hk]
    by_cases hu : op = .div ∧ k = .uint
    · obtain ⟨rfl, rfl⟩ := hu
      rw [if_pos ⟨rfl, rfl⟩, hsame]
      constructor
      · rintro ⟨-, heq⟩
        exact ⟨hself heq nofun, fun _ _ => heq⟩
      · rintro ⟨-, heq⟩
        refine ⟨?_, heq rfl (by rw [hsh]; rfl)⟩
        rw [(shape_iff hs hst _ _).mp hsh]
        exact shapeTy_isUnsigned.mpr rfl
    · rw [if_neg hu]
      constructor
      · rintro ⟨-, hil, hir, hsl, hsr⟩
        refine ⟨numeric_of_int hs hl hr hil hir (hsl.trans hsr.symm), fun hdiv huint => ?_⟩
        rw [hsh] at huint
        exact absurd ⟨hdiv, Option.some.inj huint⟩ hu
      · rintro ⟨hnum, -⟩
        have hnf : ¬ IsFloating l := by
          intro hf
          have hf' := (numeric_isFloating hnum).mp hf
          have : IsFloating (arithTy l r) := by
            rcases arithTy_eq l r with h | h <;> rw [h] <;> assumption
          obtain ⟨s, hs'⟩ := this
          rw [hsh] at hs'
          cases hs'
          exact hk rfl
        obtain ⟨hil, hir, heq⟩ := hnum.int hs hl hr hnf
        rcases arithTy_type hl hr hst with rfl | rfl
        · exact ⟨hil, hil, hir, rfl, heq.symm⟩
        · exact ⟨hir, hil, hir, heq, rfl⟩

theorem isFloat_eq_true : l.isFloat = true ↔ IsFloating l := by
  cases l with
  | scalar k | vector k n => cases k <;> simp [Ty.isFloat, IsFloating, Ty.shape]
  | _ => simp [Ty.isFloat, IsFloating, Ty.shape]

theorem inferComparison_shape (h : l.shape = some (k, size)) :
    (inferComparison l).shape = some (.bool, size) := by
  cases l with
  | scalar k' | vector k' n =>
    cases h
    rfl
  | _ => cases h

theorem comparison_accepts (hs : sc.StructsOk) (hl : sc.valueTypeOf l = some tl)
    (hr : sc.valueTypeOf r = some tr) (hst : sc.valueTypeOf (inferComparison l) = some st)
    (ho : comparisonOp op l.isFloat = some o) : o.Accepts st tl tr ↔ Numeric l r := by
  have hbool : ∀ {k : ScalarKind} {size : Option Nat}, l.shape = some (k, size) →
      st.IsBool ∧ st.size = tl.size := by
    intro k size hsh
    rw [(shape_iff hs hst _ _).mp (inferComparison_shape hsh), (shape_iff hs hl _ _).mp hsh]
    exact ⟨shapeTy_isBool.mpr rfl, by rw [shapeTy_size, shapeTy_size]⟩
  by_cases hf : IsFloating l
  · rw [isFloat_eq_true.mpr hf] at ho
    rw [comparisonOp_accepts.1 ho]
    obtain ⟨size, hsh⟩ := hf
    constructor
    · rintro ⟨-, -, rfl, -⟩
      rw [valueTypeOf_injective hs hsh hl hr]
      exact numeric_self hsh nofun
    · intro hnum
      obtain ⟨rfl, -⟩ := hnum.eq_of_float (Or.inl hsh)
      rw [hl] at hr
      cases hr
      exact ⟨(hbool hsh).1, (isFloat_iff hs hl).mpr ⟨size, hsh⟩, rfl, (hbool hsh).2.symm⟩
  · rw [Bool.eq_false_iff.mpr fun h => hf (isFloat_eq_true.mp h)] at ho
    rw [comparisonOp_accepts.2 ho]
    constructor
    · rintro ⟨-, hil, hir, hsl, hsr⟩
      exact numeric_of_int hs hl hr hil hir (hsl.trans hsr.symm)
    · intro hnum
      obtain ⟨hil, hir, heq⟩ := hnum.int hs hl hr hf
      obtain ⟨k, -, size, hsh, -⟩ := hnum.shapes
      have hb := hbool hsh
      exact ⟨hb.1, hil, hir, hb.2.symm, heq.symm.trans hb.2.symm⟩

theorem logical_accepts (hs : sc.StructsOk) (hl : sc.valueTypeOf l = some tl)
    (hr : sc.valueTypeOf r = some tr) (ho : o = .logicalAnd ∨ o = .logicalOr) :
    o.Accepts .bool tl tr ↔ l = .scalar .bool ∧ r = .scalar .bool := by
  have hiff : o.Accepts .bool tl tr ↔ tl = .bool ∧ tr = .bool := by
    rcases ho with rfl | rfl
    · exact ⟨fun h => h.2, fun h => ⟨Or.inl rfl, h⟩⟩
    · exact ⟨fun h => h.2, fun h => ⟨Or.inl rfl, h⟩⟩
  have hone : ∀ {ty : Ty} {t : Spirv.Ty}, sc.valueTypeOf ty = some t →
      (t = .bool ↔ ty = .scalar .bool) := by
    intro ty t ht
    constructor
    · rintro rfl
      exact shape_injective ((shape_iff hs ht .bool none).mpr rfl) rfl
    · rintro rfl
      cases ht
      rfl
  rw [hiff, hone hl, hone hr]

/-- The opcode that is chosen accepts the operands that are well typed. -/
theorem binaryChoice_accepts (hs : sc.StructsOk) (hl : sc.valueTypeOf l = some tl)
    (hr : sc.valueTypeOf r = some tr) (hop : binaryChoice op l r = some (o, ty))
    (hst : sc.typeOf ty = some st) : o.Accepts st tl tr ↔ OperandsTyped op l r := by
  have hst := valueTypeOf_of_typeOf hst
  unfold binaryChoice at hop
  unfold OperandsTyped
  cases hc : isComparison op with
  | true =>
    rw [if_pos hc] at hop
    obtain ⟨o', ho, heq⟩ := Option.map_eq_some_iff.mp hop
    cases heq
    have hlog : ¬ isLogical op = true := by cases op <;> cases hc <;> exact nofun
    have hdiv : op ≠ .div := by
      rintro rfl
      cases hc
    rw [if_neg hlog, comparison_accepts hs hl hr hst ho]
    exact (and_iff_left fun h => absurd h hdiv).symm
  | false =>
    rw [hc, if_neg nofun] at hop
    by_cases hlog : isLogical op = true
    · rw [if_pos hlog] at hop ⊢
      cases hop
      cases hst
      refine logical_accepts hs hl hr ?_
      split_ifs
      · exact Or.inl rfl
      · exact Or.inr rfl
    · rw [if_neg hlog] at hop ⊢
      obtain ⟨o', ho, heq⟩ := Option.map_eq_some_iff.mp hop
      cases heq
      exact arith_accepts hs hl hr hst ho

theorem binaryChoice_ty (hop : binaryChoice op l r = some (o, ty)) :
    ty = if isComparison op then inferComparison l
      else if isLogical op then .scalar .bool else arithTy l r := by
  unfold binaryChoice at hop
  by_cases hc : isComparison op = true
  · rw [if_pos hc] at hop ⊢
    obtain ⟨o', -, heq⟩ := Option.map_eq_some_iff.mp hop
    cases heq
    rfl
  · rw [if_neg hc] at hop ⊢
    by_cases hlog : isLogical op = true
    · rw [if_pos hlog] at hop ⊢
      cases hop
      rfl
    · rw [if_neg hlog] at hop ⊢
      obtain ⟨o', -, heq⟩ := Option.map_eq_some_iff.mp hop
      cases heq
      rfl

/-! ## Unary operators and conversions -/

theorem unaryOpcode_accepts {op : UnaryOp} {o : Spirv.UnaryOp} (hs : sc.StructsOk)
    (hst : sc.valueTypeOf ty = some st) (ho : unaryOpcode op ty = some o) :
    o.Accepts st st ↔ OperandTyped op ty := by
  unfold OperandTyped
  cases hsh : ty.shape with
  | none =>
    have hint : ¬ st.IsInt := by
      intro h
      obtain ⟨k, size, h, -⟩ := (isInt_iff hs hst).mp h
      rw [hsh] at h
      cases h
    have ho : o = .not := by
      cases ty with
      | scalar k | vector k n => cases hsh
      | _ => cases op <;> cases ho <;> rfl
    subst ho
    simp [Spirv.UnaryOp.Accepts, hint]
  | some sh =>
    obtain ⟨k, size⟩ := sh
    rw [(shape_iff hs hst _ _).mp hsh]
    cases ty with
    | scalar k' | vector k' n =>
      cases hsh
      cases op <;> cases k <;> cases ho <;>
        simp [Spirv.UnaryOp.Accepts, shapeTy_isFloat, shapeTy_isInt, shapeTy_isBool,
          ScalarKind.isInteger]
    | _ => cases hsh

theorem castOp_accepts {from_ : Ty} {t : Spirv.Ty} {o : Spirv.UnaryOp}
    (hf : sc.valueTypeOf from_ = some t) (hst : sc.valueTypeOf ty = some st)
    (ho : castOp from_ ty = some o) : o.Accepts st t := by
  cases from_ with
  | scalar k =>
    cases ty with
    | scalar kind =>
      cases hf
      cases hst
      cases k <;> cases kind <;> cases ho <;>
        simp [Spirv.UnaryOp.Accepts, scalarTypeId, Spirv.Ty.IsFloat, Spirv.Ty.IsInt,
          Spirv.Ty.IsUnsigned, Spirv.Ty.size]
    | _ => cases k <;> cases ho
  | _ => cases ho

theorem coerceOp_accepts {k kind : ScalarKind} {o : Spirv.UnaryOp} (hne : k ≠ kind)
    (ho : coerceOp (.scalar k) kind = some o) :
    o.Accepts (scalarTypeId kind) (scalarTypeId k) ↔ Converts (.scalar k) kind := by
  have hconv : Converts (.scalar k) kind ↔ (k.isInteger = true → kind = k ∨ kind = .float) := by
    constructor
    · exact fun h => h k rfl
    · intro h k' he
      cases he
      exact h
  rw [hconv]
  cases k <;> cases kind <;> first | exact absurd rfl hne | cases ho
  all_goals
    simp [Spirv.UnaryOp.Accepts, scalarTypeId, Spirv.Ty.IsFloat, Spirv.Ty.IsInt,
      Spirv.Ty.IsUnsigned, Spirv.Ty.size, ScalarKind.isInteger]

/-- What is not converted is no integer. -/
theorem converts_of_coerceOp_none {ty : Ty} {kind : ScalarKind} (ho : coerceOp ty kind = none) :
    Converts ty kind := by
  rintro k rfl hint
  cases k with
  | int | uint => cases ho
  | float | bool => cases hint

/-! ## Products -/

theorem vectorTypeId_eq_float {n m : Nat} :
    vectorTypeId k n = .vector .float m ↔ k = .float ∧ n = m := by
  cases k <;> simp [vectorTypeId, scalarTypeId]

theorem matrixProduct_accepts (hl : sc.valueTypeOf l = some tl) (hr : sc.valueTypeOf r = some tr)
    (hm : matrixProduct l r = some (.ok (o, ty))) (hst : sc.valueTypeOf ty = some st) :
    o.Accepts st tl tr ↔ ProductTyped l r := by
  cases l with
  | matrix k rows cols =>
    cases r with
    | vector k' n =>
      cases hl
      cases hr
      unfold matrixProduct at hm
      by_cases hn : n = cols
      · simp only [Ty.matrixCols, hn, ne_eq, not_true_eq_false, if_false] at hm
        cases hm
        cases hst
        subst hn
        constructor
        · rintro ⟨rows', cols', -, ha, hb⟩
          injection ha with ha
          exact ⟨(vectorTypeId_eq_float.mp ha).1, (vectorTypeId_eq_float.mp hb).1⟩
        · rintro ⟨rfl, rfl⟩
          exact ⟨rows, n, rfl, rfl, rfl⟩
      · simp only [Ty.matrixCols, hn, ne_eq, not_false_eq_true, if_true] at hm
        cases hm
    | matrix k' rows' cols' =>
      cases hl
      cases hr
      cases hm
      cases hst
      constructor
      · rintro ⟨_, inner, _, -, ha, hb⟩
        injection ha with ha hcols
        injection hb with hb
        obtain ⟨hk', hrows'⟩ := vectorTypeId_eq_float.mp hb
        exact ⟨(vectorTypeId_eq_float.mp ha).1, hk', hcols.trans hrows'.symm⟩
      · rintro ⟨rfl, rfl, rfl⟩
        exact ⟨rows, cols, cols', rfl, rfl, rfl⟩
    | _ => cases hm
  | vector k n =>
    cases r with
    | matrix k' rows cols =>
      cases hl
      cases hr
      unfold matrixProduct at hm
      by_cases hn : n = cols
      · simp only [hn, ne_eq, not_true_eq_false, if_false] at hm
        cases hm
        cases hst
        constructor
        · rintro ⟨_, _, -, ha, hb⟩
          injection hb with hb
          obtain ⟨hk, hrows⟩ := vectorTypeId_eq_float.mp ha
          obtain ⟨hk', hrows'⟩ := vectorTypeId_eq_float.mp hb
          exact ⟨hk, hk', hrows.trans hrows'.symm⟩
        · rintro ⟨rfl, rfl, rfl⟩
          exact ⟨n, cols, rfl, rfl, rfl⟩
      · simp only [hn, ne_eq, not_false_eq_true, if_true] at hm
        cases hm
    | _ => cases hm
  | _ => cases hm

/-- Without a matrix, a product is an operator like the others. -/
theorem productTyped_of_none (hm : matrixProduct l r = none) :
    ProductTyped l r ↔ OperandsTyped .mul l r := by
  cases l with
  | matrix k rows cols =>
    cases r with
    | vector k' n =>
      simp only [matrixProduct] at hm
      split_ifs at hm
    | matrix k' rows' cols' => cases hm
    | _ => exact Iff.rfl
  | vector k n =>
    cases r with
    | matrix k' rows cols =>
      simp only [matrixProduct] at hm
      split_ifs at hm
    | _ => exact Iff.rfl
  | _ => exact Iff.rfl

theorem dot_accepts (hs : sc.StructsOk) (hl : sc.valueTypeOf l = some tl)
    (hr : sc.valueTypeOf r = some tr) (hst : sc.valueTypeOf l.scalarPart = some st) :
    Spirv.BinaryOp.dot.Accepts st tl tr ↔ CallTyped "dot" [l, r] := by
  have hcall : CallTyped "dot" [l, r] ↔ ∃ n, l = .vector .float n ∧ r = .vector .float n := by
    simp [CallTyped]
  rw [hcall]
  constructor
  · rintro ⟨-, ⟨n, rfl⟩, rfl⟩
    have hsh := (shape_iff hs hl .float (some n)).mpr rfl
    have hv : l = .vector .float n := shape_injective hsh rfl
    exact ⟨n, hv, (valueTypeOf_injective hs hsh hl hr).trans hv⟩
  · rintro ⟨n, rfl, rfl⟩
    cases hl
    cases hr
    cases hst
    exact ⟨rfl, ⟨n, rfl⟩, rfl⟩

end

end WinCompat.Hlsl
