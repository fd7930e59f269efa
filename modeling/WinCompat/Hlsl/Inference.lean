import WinCompat.Hlsl.ExprTyping
import WinCompat.Hlsl.Operators

/-!
# Type inference and the types of values

`infer_type` and `emit_expr` each compute a type for an expression, by rules of their own. The rules
of the emitter are `valueTy`: the type of an expression's value from the types of its operands'
values. They part from those of `infer_type` where a scalar constructor returns an argument that it
does not convert, where an assignment converts the value or does not, where an intrinsic has the type
of its last argument and not of its first, and where `mul` has a scalar in front. Everywhere else the two
agree if they agree on an operand (`Agrees`, `value_ty_eq_iff`).
-/

namespace WinCompat.Hlsl

open Lib Lib.Comp

/-! ## The types of values -/

mutual

/-- The type of the value that `emit_expr` returns. Names and members have the type that
    `infer_type` finds. -/
def Tables.valueTy (t : Tables) : Expr → Option Ty
  | .literal l => some l.ty
  | .ident x => (t.inferIdent x).toOption
  | .construct ty args => do
      let tys ← t.valueTys args
      constructTy ty tys
  | .call name args => do
      let tys ← t.valueTys args
      callTy name tys
  | .methodCall _ _ _ => some (.vector .float 4)
  | .member base member => (t.inferType (.member base member)).toOption
  | .binary op lhs rhs =>
      if op = .assign then do
        let p ← (t.inferType lhs).toOption
        let v ← t.valueTy rhs
        pure (v.coerced p)
      else
        match coreOp op with
        | some _ => do
            let p ← (t.inferType lhs).toOption
            let v ← t.valueTy rhs
            pure (arithTy p v)
        | none => do
            let l ← t.valueTy lhs
            let r ← t.valueTy rhs
            if isComparison op then pure (inferComparison l)
            else if isLogical op then pure (.scalar .bool)
            else pure (arithTy l r)
  | .unary _ e => t.valueTy e
  | .cast ty _ => some ty

def Tables.valueTys (t : Tables) : List Expr → Option (List Ty)
  | [] => some []
  | e :: es => do
      let ty ← t.valueTy e
      let tys ← t.valueTys es
      pure (ty :: tys)

end

/-! ## Where the two computations agree -/

/-- What a scalar constructor returns for an argument whose value has the type `v`. -/
def ScalarAgrees (kind : ScalarKind) (v : Ty) : Prop :=
  v = .scalar kind ∨ kind ≠ .float ∧ (coerceOp v kind).isSome = true

/-- The type that `infer_type` finds, if it finds one. -/
def Tables.inferred (t : Tables) (e : Expr) : Option Ty := (t.inferType e).toOption

/-- A `mul` of values of the types `v` and `w`, where `l` and `r` are inferred for the operands. A
    matrix by a vector has as many components as the matrix has rows, a vector by a matrix as many as
    it has columns, and the product of two matrices the rows of the one and the columns of the other;
    anything else is an arithmetic operator. -/
def MulAgrees (l r v w : Ty) : Prop :=
  match v, w with
  | .matrix _ rows cols, .vector _ n => n = cols ∧ inferMul l r = .vector .float rows
  | .vector _ n, .matrix _ _ cols => n = cols ∧ inferMul l r = .vector .float cols
  | .matrix _ rows _, .matrix _ _ cols => inferMul l r = .matrix .float rows cols
  | _, _ => inferMul l r = arithTy v w

/-- A call whose arguments have values of the types `tys`. -/
def Tables.CallAgrees (t : Tables) (name : String) (args : List Expr) (tys : List Ty) : Prop :=
  if name = "dot" then
    (args.head?.bind t.inferred).map Ty.scalarPart = tys.head?.map Ty.scalarPart
  else if name = "length" then True
  else if name = "mul" then
    ∀ a b l r v w, args = [a, b] → t.inferred a = some l → t.inferred b = some r → tys = [v, w] →
      MulAgrees l r v w
  else args.head?.bind t.inferred = tys.getLast?

/-- The assignment of `rhs`, whose value has the type `v`, to a place of the type `p`. -/
def Tables.AssignAgrees (t : Tables) (p : Ty) (rhs : Expr) (v : Ty) : Prop :=
  if p.isComposite then v = p else t.inferred rhs = some (v.coerced p)

/-- An arithmetic operator on values of the types `v` and `w`; `l` is inferred for the first. -/
def Tables.ArithAgrees (t : Tables) (l : Ty) (rhs : Expr) (v w : Ty) : Prop :=
  if l.isComposite then arithTy v w = l else t.inferred rhs = some (arithTy v w)

/-- The rules of `infer_type` and of `emit_expr` give one type, for what they know of the operands:
    a scalar constructor, a call and an operator by the types of their operands, a sign by its
    operand alone, and everything else always. -/
def Tables.Agrees (t : Tables) : Expr → Prop
  | .literal _ | .ident _ | .methodCall _ _ _ | .member _ _ | .cast _ _ => True
  | .construct (.scalar kind) [e] => ∀ v, t.valueTy e = some v → ScalarAgrees kind v
  | .construct _ _ => True
  | .call name args => ∀ tys, t.valueTys args = some tys → t.CallAgrees name args tys
  | .binary op lhs rhs =>
      if op = .assign then
        ∀ p v, t.inferred lhs = some p → t.valueTy rhs = some v → t.AssignAgrees p rhs v
      else if (coreOp op).isSome then
        (∃ p, t.inferred lhs = some p ∧ p.isComposite = true) ∨ t.Agrees rhs
      else if isComparison op then
        (t.inferred lhs).map inferComparison = (t.valueTy lhs).map inferComparison
      else if isLogical op then True
      else ∀ l v w, t.inferred lhs = some l → t.valueTy lhs = some v → t.valueTy rhs = some w →
        t.ArithAgrees l rhs v w
  | .unary _ e => t.Agrees e

/-! ## Emission in terms of types -/

/-- Whatever `x` returns with the tables `t` satisfies `P`, and the tables stay. -/
def Gives {α : Type} (t : Tables) (x : Cg α) (P : α → Prop) : Prop :=
  ∀ s, s.toTables = t → Partial x s fun a s' => s'.toTables = t ∧ P a

namespace Gives

variable {α β : Type} {t : Tables} {P : α → Prop} {Q : β → Prop}

theorem pure {a : α} (h : P a) : Gives t (Pure.pure a : Cg α) P := fun _ hs => .pure ⟨hs, h⟩

theorem throw {e : CodegenError} : Gives t (Comp.throw e : Cg α) P := fun _ _ => .throw

theorem bind {x : Cg α} {k : α → Cg β} (hx : Gives t x P) (hk : ∀ a, P a → Gives t (k a) Q) :
    Gives t (x >>= k) Q := by
  intro s hs
  refine (hx s hs).bind fun a s' h => ?_
  exact hk a h.2 s' h.1

theorem mono {x : Cg α} {P' : α → Prop} (hx : Gives t x P) (h : ∀ a, P a → P' a) : Gives t x P' :=
  fun s hs => (hx s hs).mono fun a _ hp => ⟨hp.1, h a hp.2⟩

theorem read {f : Ctx → Outcome CodegenError α} (h : ∀ s, s.toTables = t → ∀ a, f s = .ok a → P a) :
    Gives t (Comp.read f) P := by
  intro s hs a s' hok
  obtain ⟨hf, rfl⟩ := read_eq_ok hok
  exact ⟨hs, h s hs a hf⟩

/-- The state is read, and its tables are `t`. -/
theorem get {k : Ctx → Cg β} (hk : ∀ s, s.toTables = t → Gives t (k s) Q) :
    Gives t (Comp.get >>= k) Q := by
  intro s hs b s' hok
  obtain ⟨s₀, s₁, h0, hok⟩ := bind_eq_ok hok
  cases h0
  exact hk s hs s hs b s' hok

theorem of_tables {x : Cg α} (h : ∀ s a s', x s = .ok (a, s') → s'.toTables = s.toTables) :
    Gives t x fun _ => True :=
  fun s hs a s' hok => ⟨(h s a s' hok).trans hs, trivial⟩

end Gives

section

variable {t : Tables}

theorem gives_builderId : Gives t builderId fun _ => True := by
  apply Gives.of_tables
  intro s a s' h
  cases h
  rfl

theorem gives_constOp (ty : Spirv.Ty) (bits : BitVec 32) :
    Gives t (constOp ty bits) fun _ => True := by
  apply Gives.of_tables
  intro s a s' h
  cases h
  rfl

theorem gives_append (what : String) (i : Spirv.Inst) : Gives t (append what i) fun _ => True := by
  apply Gives.of_tables
  intro s a s' h
  obtain ⟨f, f', -, -, rfl⟩ := onFunction_ok h
  rfl

theorem gives_appendResult (what : String) (i : Spirv.Id → Spirv.Inst) :
    Gives t (appendResult what i) fun _ => True :=
  gives_builderId.bind fun _ _ => (gives_append _ _).bind fun _ _ => .pure trivial

theorem gives_result (what : String) (i : Spirv.Id → Spirv.Inst) (ty : Ty) :
    Gives t (do let id ← appendResult what i; pure (⟨id, ty⟩ : Val)) fun v => v.ty = ty :=
  (gives_appendResult what i).bind fun _ _ => .pure rfl

theorem gives_extInst (ty : Spirv.Ty) (instruction : Nat) (operands : List Spirv.Id) :
    Gives t (extInst ty instruction operands) fun _ => True :=
  .get fun _ _ => gives_appendResult _ _

theorem gives_typeId (ty : Ty) : Gives t (typeId ty) fun _ => True :=
  .read fun _ _ _ _ => trivial

theorem gives_valueTypeId (ty : Ty) : Gives t (valueTypeId ty) fun _ => True :=
  .read fun _ _ _ _ => trivial

theorem gives_literal (l : Literal) : Gives t (emitLiteral l) fun v => v.ty = l.ty := by
  cases l with
  | _ => exact (gives_constOp _ _).bind fun _ _ => .pure rfl

/-! ### Places -/

theorem gives_place_ident (x : String) :
    Gives t (emitPlace (.ident x)) fun p => t.inferIdent x = .ok p.ty := by
  refine .get fun s hs => ?_
  subst hs
  cases hl : s.locals.lookup x with
  | some l => exact .pure (by simp only [Tables.inferIdent, hl]; rfl)
  | none =>
    cases hc : s.cbufferMembers.lookup x with
    | some r =>
      obtain ⟨var, idx⟩ := r
      cases hg : s.globals.lookup x with
      | some g =>
        refine (gives_typeId _).bind fun _ _ => (gives_appendResult _ _).bind fun _ _ => .pure ?_
        simp only [Tables.inferIdent, hl, hg]
        rfl
      | none => exact .throw
    | none =>
      cases hg : s.globals.lookup x with
      | some g => exact .pure (by simp only [Tables.inferIdent, hl, hg]; rfl)
      | none => exact .throw

theorem gives_place_member {base : Expr} (member : String)
    (hbase : Gives t (emitPlace base) fun p => t.inferType base = .ok p.ty) :
    Gives t (emitPlace (.member base member)) fun p =>
      t.inferType (.member base member) = .ok p.ty := by
  refine hbase.bind fun p hp => ?_
  cases hty : p.ty with
  | struct name =>
    refine .get fun s hs => ?_
    subst hs
    cases hinfo : s.structs.lookup name with
    | none => exact .throw
    | some info =>
      cases hidx : info.members.findIdx? (·.name = member) with
      | none =>
        simp only [hidx]
        exact .throw
      | some idx =>
        cases hm : info.members.find? (·.name = member) with
        | none =>
          simp only [hidx, hm]
          exact .throw
        | some m =>
          simp only [hidx, hm]
          refine (gives_constOp _ _).bind fun _ _ => (gives_typeId _).bind fun _ _ => ?_
          refine (gives_appendResult _ _).bind fun _ _ => .pure ?_
          simp only [Tables.inferType, hp, hty]
          show s.toTables.inferMember (.struct name) member = _
          simp only [Tables.inferMember, hinfo, hm]
          rfl
  | _ => exact .throw

theorem gives_place : ∀ e, Gives t (emitPlace e) fun p => t.inferType e = .ok p.ty
  | .ident x => gives_place_ident x
  | .member base member => gives_place_member member (gives_place base)
  | .literal _ | .construct _ _ | .call _ _ | .methodCall _ _ _ | .binary _ _ _ | .unary _ _
  | .cast _ _ => .throw

theorem gives_loadPlace (p : Place) (tyId : Ty → Cg Spirv.Ty)
    (htyId : ∀ ty, Gives t (tyId ty) fun _ => True) :
    Gives t (loadPlace p tyId) fun v => v.ty = p.ty :=
  (htyId _).bind fun _ _ => gives_result _ _ _

/-! ### Operators -/

theorem gives_coerceScalar (v : Val) (kind : ScalarKind) :
    Gives t (coerceScalar v kind) fun w => w.ty = v.ty.coercedScalar kind := by
  unfold coerceScalar Ty.coercedScalar
  by_cases hk : v.ty = .scalar kind
  · rw [if_pos hk]
    refine .pure ?_
    split <;> [exact hk; rfl]
  · rw [if_neg hk]
    cases ho : coerceOp v.ty kind with
    | none => exact .pure rfl
    | some o => exact gives_result _ _ _

theorem gives_coerce (v : Val) (target : Ty) :
    Gives t (coerce v target) fun w => w.ty = v.ty.coerced target := by
  unfold coerce
  by_cases hv : v.ty = target
  · rw [if_pos hv]
    refine .pure ?_
    rw [← hv]
    cases hty : v.ty with
    | scalar k => simp [Ty.coerced, Ty.coercedScalar]
    | _ => rfl
  · rw [if_neg hv]
    cases hty : v.ty with
    | scalar k =>
      cases target with
      | scalar kind =>
        refine (gives_coerceScalar v kind).mono fun w hw => ?_
        rw [hw, hty]
        rfl
      | _ => exact .pure hty
    | _ => exact .pure hty

theorem gives_arith (op : BinaryOp) (l r : Val) :
    Gives t (emitArith op l r) fun v => v.ty = arithTy l.ty r.ty := by
  refine (gives_typeId _).bind fun _ _ => ?_
  cases ho : arithOp op (arithTy l.ty r.ty) with
  | none => exact .throw
  | some o => exact gives_result _ _ _

theorem gives_comparison (op : BinaryOp) (l r : Val) :
    Gives t (emitComparison op l r) fun v => v.ty = inferComparison l.ty := by
  refine (gives_typeId _).bind fun _ _ => ?_
  cases ho : comparisonOp op l.ty.isFloat with
  | none => exact .throw
  | some o => exact gives_result _ _ _

theorem gives_logical (op : BinaryOp) (l r : Val) :
    Gives t (emitLogical op l r) fun v => v.ty = .scalar .bool := gives_result _ _ _

attribute [local simp] Tables.valueTy

variable {lhs rhs : Expr} {op : BinaryOp}

theorem gives_binary (hl : Gives t (emitExpr lhs) fun v => t.valueTy lhs = some v.ty)
    (hr : Gives t (emitExpr rhs) fun v => t.valueTy rhs = some v.ty) :
    Gives t (emitBinary op lhs (emitExpr lhs) (emitExpr rhs)) fun v =>
      t.valueTy (.binary op lhs rhs) = some v.ty := by
  unfold emitBinary
  by_cases ha : op = .assign
  · rw [if_pos ha]
    refine (gives_place lhs).bind fun p hp => hr.bind fun v hv => ?_
    refine (gives_coerce v p.ty).bind fun w hw => (gives_append _ _).bind fun _ _ => .pure ?_
    simp [ha, hp, hv, hw, Outcome.toOption]
  · rw [if_neg ha]
    cases hc : coreOp op with
    | some core =>
      refine (gives_place lhs).bind fun p hp => (gives_typeId _).bind fun _ _ => ?_
      refine (gives_appendResult _ _).bind fun _ _ => hr.bind fun v hv => ?_
      refine (gives_arith core _ v).bind fun w hw => (gives_append _ _).bind fun _ _ => .pure ?_
      simp [ha, hc, hp, hv, hw, Outcome.toOption]
    | none =>
      refine hl.bind fun l hl => hr.bind fun r hr => ?_
      by_cases hcmp : isComparison op = true
      · rw [if_pos hcmp]
        refine (gives_comparison op l r).mono fun v hv => ?_
        simp [ha, hc, hcmp, hl, hr, hv]
      · rw [if_neg hcmp]
        by_cases hlog : isLogical op = true
        · rw [if_pos hlog]
          refine (gives_logical op l r).mono fun v hv => ?_
          simp [ha, hc, hcmp, hlog, hl, hr, hv]
        · rw [if_neg hlog]
          refine (gives_arith op l r).mono fun v hv => ?_
          simp [ha, hc, hcmp, hlog, hl, hr, hv]

variable {e : Expr}

theorem gives_unary {op : UnaryOp} (he : Gives t (emitExpr e) fun v => t.valueTy e = some v.ty) :
    Gives t (emitUnary op (emitExpr e)) fun v => t.valueTy (.unary op e) = some v.ty := by
  refine he.bind fun v hv => (gives_typeId _).bind fun _ _ => ?_
  cases ho : unaryOpcode op v.ty with
  | none => exact .throw
  | some o =>
    refine (gives_result _ _ _).mono fun w hw => ?_
    simp [hv, hw]

variable {ty : Ty}

theorem gives_cast (he : Gives t (emitExpr e) fun v => t.valueTy e = some v.ty) :
    Gives t (emitCast ty (emitExpr e)) fun v => v.ty = ty := by
  refine he.bind fun v _ => (gives_typeId _).bind fun _ _ => ?_
  cases ho : castOp v.ty ty with
  | some o => exact gives_result _ _ _
  | none =>
    by_cases hv : v.ty = ty
    · simp only [if_pos hv]
      exact .pure hv
    · simp only [if_neg hv]
      exact .throw

/-! ### Members, constructors and calls -/

theorem gives_swizzle (base : Val) (member : String) (kind : ScalarKind) :
    Gives t (emitSwizzle base member kind) fun v =>
      ∃ comps, decodeSwizzle member = some comps ∧ v.ty = swizzleTy kind comps := by
  unfold emitSwizzle
  cases hcomps : decodeSwizzle member with
  | none => exact .throw
  | some comps =>
    match comps with
    | [c] => exact (gives_result _ _ _).mono fun v hv => ⟨_, rfl, hv⟩
    | [] | _ :: _ :: _ => exact (gives_result _ _ _).mono fun v hv => ⟨_, rfl, hv⟩

theorem inferMember_swizzle {member : String} {kind : ScalarKind} {k : Nat} {comps : List Nat}
    (h : decodeSwizzle member = some comps) :
    t.inferMember (.vector kind k) member = .ok (swizzleTy kind comps) := by
  simp only [Tables.inferMember, h]
  match comps with
  | [_] => rfl
  | [] | _ :: _ :: _ => rfl

theorem gives_member {base : Expr} (member : String)
    (hbase : Gives t (emitExpr base) fun v => t.valueTy base = some v.ty) :
    Gives t (emitMember base member (emitExpr base)) fun v =>
      t.inferType (.member base member) = .ok v.ty := by
  refine Gives.bind (P := fun ty => t.inferType base = .ok ty) (.read ?_) fun ty hty => ?_
  · rintro s rfl ty hty
    exact hty
  · cases ty with
    | struct name =>
      refine (gives_place (.member base member)).bind fun p hp => ?_
      refine (gives_loadPlace p _ gives_typeId).mono fun v hv => ?_
      rw [hp, hv]
    | vector kind k =>
      refine hbase.bind fun v _ => (gives_swizzle v member kind).mono fun w hw => ?_
      obtain ⟨comps, hcomps, hw⟩ := hw
      simp only [Tables.inferType, hty]
      show t.inferMember (.vector kind k) member = _
      rw [inferMember_swizzle hcomps, hw]
    | _ => exact .throw

variable {args : List Expr}

theorem gives_construct
    (hargs : Gives t (emitArgs (emitExprs args)) fun vs => t.valueTys args = some (vs.map Val.ty))
    (hone : ∀ e, args = [e] → Gives t (emitExpr e) fun v => t.valueTy e = some v.ty) :
    Gives t (emitConstruct ty (emitExprs args)) fun v =>
      t.valueTy (.construct ty args) = some v.ty := by
  cases ty with
  | scalar kind =>
    rcases args with _ | ⟨e, _ | _⟩
    · cases kind <;> exact .throw
    · cases kind with
      | float =>
        refine (hone e rfl).mono fun v hv => ?_
        simp [Tables.valueTys, hv, constructTy]
      | _ =>
        refine (hone e rfl).bind fun v hv => (gives_coerceScalar v _).mono fun w hw => ?_
        simp [Tables.valueTys, hv, hw, constructTy]
    · cases kind <;> exact .throw
  | vector kind n =>
    rcases args with _ | ⟨e, _ | _⟩
    · refine hargs.bind fun vs hvs => (gives_result _ _ _).mono fun w hw => ?_
      simp [hvs, hw, constructTy]
    · refine (hone e rfl).bind fun v hv => ?_
      cases hvty : v.ty with
      | scalar k =>
        refine (gives_result _ _ _).mono fun w hw => ?_
        simp [Tables.valueTys, hv, hw, constructTy]
      | _ => exact .throw
    · refine hargs.bind fun vs hvs => (gives_result _ _ _).mono fun w hw => ?_
      simp [hvs, hw, constructTy]
  | _ => exact .throw

theorem gives_saturate (he : Gives t (emitExpr e) fun v => t.valueTy e = some v.ty) :
    Gives t (emitSaturate (emitExpr e)) fun v => t.valueTy e = some v.ty := by
  have hbroadcast : ∀ c ty, Gives t (broadcastConst c ty) fun _ => True := by
    intro c ty
    cases ty with
    | scalar k => exact .pure trivial
    | vector k n => exact gives_appendResult _ _
    | _ => exact .throw
  refine he.bind fun v hv => (gives_constOp _ _).bind fun _ _ => ?_
  refine (gives_constOp _ _).bind fun _ _ => ?_
  refine (gives_typeId _).bind fun _ _ => (hbroadcast _ _).bind fun _ _ => ?_
  refine (hbroadcast _ _).bind fun _ _ => (gives_extInst _ _ _).bind fun _ _ => .pure hv

theorem gives_dot {a b : Expr} (ha : Gives t (emitExpr a) fun v => t.valueTy a = some v.ty)
    (hb : Gives t (emitExpr b) fun v => t.valueTy b = some v.ty) :
    Gives t (emitDot (emitExpr a) (emitExpr b)) fun v =>
      t.valueTy (.call "dot" [a, b]) = some v.ty := by
  refine ha.bind fun va hva => hb.bind fun vb hvb => (gives_typeId _).bind fun _ _ => ?_
  refine (gives_result _ _ _).mono fun w hw => ?_
  simp [Tables.valueTys, hva, hvb, hw, callTy]

theorem gives_mul {a b : Expr} (ha : Gives t (emitExpr a) fun v => t.valueTy a = some v.ty)
    (hb : Gives t (emitExpr b) fun v => t.valueTy b = some v.ty) :
    Gives t (emitMul [emitExpr a, emitExpr b]) fun v =>
      t.valueTy (.call "mul" [a, b]) = some v.ty := by
  refine ha.bind fun va hva => hb.bind fun vb hvb => ?_
  have hty : t.valueTy (.call "mul" [a, b]) = productTy va.ty vb.ty := by
    simp [Tables.valueTys, hva, hvb, callTy]
  rw [hty]
  unfold productTy
  cases hm : matrixProduct va.ty vb.ty with
  | none =>
    refine (gives_arith .mul va vb).mono fun w hw => ?_
    rw [hw]
  | some r =>
    cases r with
    | error msg => exact .throw
    | ok r =>
      obtain ⟨o, ty⟩ := r
      refine (gives_typeId _).bind fun _ _ => (gives_result _ _ _).mono fun w hw => ?_
      simp [hw]

variable {tys : List Ty}

theorem valueTys_length {es : List Expr} (h : t.valueTys es = some tys) :
    tys.length = es.length := by
  induction es generalizing tys with
  | nil =>
    cases h
    rfl
  | cons e es ih =>
    simp only [Tables.valueTys, Option.bind_eq_bind, Option.bind_eq_some_iff] at h
    obtain ⟨ty, -, tys', htys', h⟩ := h
    cases h
    exact congrArg (· + 1) (ih htys')

variable {name : String}

theorem gives_intrinsic
    (hargs : Gives t (emitArgs (emitExprs args)) fun vs => t.valueTys args = some (vs.map Val.ty)) :
    Gives t (emitIntrinsic name (emitExprs args)) fun v =>
      t.valueTy (.call name args) = some v.ty := by
  unfold emitIntrinsic
  cases hi : intrinsics.lookup name with
  | none => exact .throw
  | some ea =>
    obtain ⟨ext, arity⟩ := ea
    obtain ⟨-, -, hdot, hmul, harity⟩ := intrinsics_lookup hi
    by_cases hlen : (emitExprs args).length = arity
    · simp only [ne_eq, hlen, not_true_eq_false, if_false]
      refine hargs.bind fun vs hvs => (gives_typeId _).bind fun _ _ => ?_
      refine (gives_extInst _ _ _).bind fun _ _ => .pure ?_
      have hpos : vs.map Val.ty ≠ [] := by
        apply List.ne_nil_of_length_pos
        rw [valueTys_length hvs, ← emitExprs_length, hlen]
        exact harity
      simp only [Tables.valueTy, hvs, Option.bind_eq_bind, Option.bind_some, callTy, hdot, hmul,
        if_false, intrinsicTy_eq]
      by_cases hlength : name = "length"
      · rw [if_pos hlength, if_pos hlength]
      · rw [if_neg hlength, if_neg hlength, List.getLast?_eq_some_getLast hpos]
        rfl
    · simp only [ne_eq, hlen, not_false_eq_true, if_true]
      exact .throw

theorem gives_call
    (hargs : Gives t (emitArgs (emitExprs args)) fun vs => t.valueTys args = some (vs.map Val.ty))
    (hmem : ∀ e ∈ args, Gives t (emitExpr e) fun v => t.valueTy e = some v.ty) :
    Gives t (emitCall name (emitExprs args)) fun v =>
      t.valueTy (.call name args) = some v.ty := by
  unfold emitCall
  split
  · next x hx =>
    rcases args with _ | ⟨e, _ | _⟩
    · cases hx
    · cases hx
      refine (gives_saturate (hmem e List.mem_cons_self)).mono fun v hv => ?_
      simp [Tables.valueTys, hv, callTy]
    · cases hx
  · next a b hab =>
    rcases args with _ | ⟨ea, _ | ⟨eb, _ | _⟩⟩
    · cases hab
    · cases hab
    · cases hab
      exact gives_dot (hmem ea List.mem_cons_self) (hmem eb (by simp))
    · cases hab
  · rcases args with _ | ⟨ea, _ | ⟨eb, _ | _⟩⟩
    · exact .throw
    · exact .throw
    · exact gives_mul (hmem ea List.mem_cons_self) (hmem eb (by simp))
    · exact .throw
  · exact gives_intrinsic hargs

theorem gives_methodCall (base : Expr) (method : String) (args : List (Cg Val))
    (hargs : ∀ x ∈ args, Gives t x fun _ => True) :
    Gives t (emitMethodCall base method args) fun v => v.ty = .vector .float 4 := by
  unfold emitMethodCall
  by_cases hm : method = "Sample"
  · simp only [ne_eq, hm, not_true_eq_false, if_false]
    rcases args with _ | ⟨a, _ | ⟨b, _ | _⟩⟩
    · exact .throw
    · exact .throw
    · refine (gives_place base).bind fun p _ => (gives_appendResult _ _).bind fun _ _ => ?_
      refine (hargs a List.mem_cons_self).bind fun _ _ => ?_
      refine (hargs b (by simp)).bind fun _ _ => (gives_appendResult _ _).bind fun _ _ => ?_
      exact gives_result _ _ _
    · exact .throw
  · simp only [ne_eq, hm, not_false_eq_true, if_true]
    exact .throw

mutual

/-- The value that `emit_expr` returns has the type `valueTy`. -/
theorem gives_expr : ∀ e, Gives t (emitExpr e) fun v => t.valueTy e = some v.ty
  | .literal l => (gives_literal l).mono fun v hv => by simp [hv]
  | .ident x => by
      simp only [emitExpr, Tables.valueTy]
      refine (gives_place_ident x).bind fun p hp => ?_
      refine (gives_loadPlace p _ gives_valueTypeId).mono fun v hv => ?_
      rw [hp, hv]
      rfl
  | .construct ty args => by
      simp only [emitExpr]
      exact gives_construct (gives_args args) fun e he => gives_exprs args e (by simp [he])
  | .call name args => by
      simp only [emitExpr]
      exact gives_call (gives_args args) (gives_exprs args)
  | .methodCall base method args => by
      simp only [emitExpr, Tables.valueTy]
      refine (gives_methodCall base method _ ?_).mono fun v hv => by rw [hv]
      exact gives_emitted args
  | .member base member => by
      simp only [emitExpr, Tables.valueTy]
      refine (gives_member member (gives_expr base)).mono fun v hv => ?_
      rw [hv]
      rfl
  | .binary op lhs rhs => by
      simp only [emitExpr]
      exact gives_binary (gives_expr lhs) (gives_expr rhs)
  | .unary op e => by
      simp only [emitExpr]
      exact gives_unary (gives_expr e)
  | .cast ty e => by
      simp only [emitExpr, Tables.valueTy]
      exact (gives_cast (gives_expr e)).mono fun v hv => by rw [hv]

theorem gives_exprs : ∀ es : List Expr, ∀ e ∈ es,
    Gives t (emitExpr e) fun v => t.valueTy e = some v.ty
  | [], _, h => nomatch h
  | e :: es, e', h => by
      rcases List.mem_cons.mp h with he | h
      · rw [he]
        exact gives_expr e
      · exact gives_exprs es e' h

theorem gives_args : ∀ es : List Expr, Gives t (emitArgs (emitExprs es)) fun vs =>
    t.valueTys es = some (vs.map Val.ty)
  | [] => .pure rfl
  | e :: es => by
      refine (gives_expr e).bind fun v hv => (gives_args es).bind fun vs hvs => .pure ?_
      simp [Tables.valueTys, hv, hvs]

theorem gives_emitted : ∀ es : List Expr, ∀ x ∈ emitExprs es, Gives t x fun _ => True
  | [], _, h => nomatch h
  | e :: es, x, h => by
      rcases List.mem_cons.mp h with he | h
      · rw [he]
        exact (gives_expr e).mono fun _ _ => trivial
      · exact gives_emitted es x h

end

/-! ## Agreement -/

theorem inferred_eq_some : t.inferred e = some ty ↔ t.inferType e = .ok ty :=
  toOption_eq_some

theorem scalarAgrees_iff {kind : ScalarKind} {v w : Ty}
    (h : constructTy (.scalar kind) [v] = some w) : w = .scalar kind ↔ ScalarAgrees kind v := by
  unfold ScalarAgrees
  cases kind with
  | float =>
    cases h
    simp
  | _ =>
    cases h
    unfold Ty.coercedScalar
    split
    · next hsome => simp [hsome]
    · next hnone => simp [hnone]

theorem coerced_of_composite {p : Ty} (v : Ty) (h : p.isComposite = true) : v.coerced p = v := by
  cases p with
  | vector k n | matrix k r c => cases v <;> rfl
  | _ => cases h

theorem arithTy_of_composite {l : Ty} (r : Ty) (h : l.isComposite = true) : arithTy l r = l :=
  if_pos h

theorem arithTy_of_not_composite {l : Ty} (r : Ty) (h : ¬ l.isComposite = true) :
    arithTy l r = r := if_neg h

/-- An assignment has the type its value is stored with; `infer_type` takes it for arithmetic. -/
theorem assignAgrees_iff {p v ty : Ty} {rhs : Expr}
    (h : (if p.isComposite then some p else t.inferred rhs) = some ty) :
    v.coerced p = ty ↔ t.AssignAgrees p rhs v := by
  unfold Tables.AssignAgrees
  by_cases hp : p.isComposite = true
  · rw [if_pos hp] at h ⊢
    cases h
    rw [coerced_of_composite v hp]
  · rw [if_neg hp] at h ⊢
    rw [h, Option.some.injEq, eq_comm]

theorem arithAgrees_iff {l v w ty : Ty} {rhs : Expr}
    (h : (if l.isComposite then some l else t.inferred rhs) = some ty) :
    arithTy v w = ty ↔ t.ArithAgrees l rhs v w := by
  unfold Tables.ArithAgrees
  by_cases hl : l.isComposite = true
  · rw [if_pos hl] at h ⊢
    cases h
    rfl
  · rw [if_neg hl] at h ⊢
    rw [h, Option.some.injEq, eq_comm]

theorem inferType_operator (hcmp : ¬ isComparison op = true) (hlog : ¬ isLogical op = true)
    (h : t.inferType (.binary op lhs rhs) = .ok ty) :
    ∃ l, t.inferred lhs = some l ∧
      (if l.isComposite then some l else t.inferred rhs) = some ty := by
  simp only [Tables.inferType, if_neg hcmp, if_neg hlog] at h
  obtain ⟨l, hl, h⟩ := Outcome.bind_eq_ok h
  refine ⟨l, inferred_eq_some.mpr hl, ?_⟩
  by_cases hc : l.isComposite = true
  · rw [if_pos hc] at h ⊢
    cases h
    rfl
  · rw [if_neg hc] at h ⊢
    exact inferred_eq_some.mpr h

theorem argAt_zero (h : argAt (t.inferTypes args) 0 = .ok ty) :
    args.head?.bind t.inferred = some ty := by
  cases args with
  | nil => cases h
  | cons e es => exact inferred_eq_some.mpr h

attribute [local simp] productTy matrixProduct

theorem productTy_eq_iff {l r v w : Ty} :
    productTy v w = some (inferMul l r) ↔ MulAgrees l r v w := by
  unfold MulAgrees
  split
  · next rows cols k n =>
    by_cases hdim : n = cols
    · simp [Ty.matrixCols, hdim, eq_comm]
    · simp [Ty.matrixCols, hdim]
  · next n k rows cols =>
    by_cases hdim : n = cols
    · simp [hdim, eq_comm]
    · simp [hdim]
  · simp [eq_comm]
  · simp [eq_comm]

theorem mulAgrees_iff {ty w : Ty} (hlen : tys.length = args.length)
    (hinfer : inferCall "mul" (t.inferTypes args) = .ok ty) (hval : callTy "mul" tys = some w) :
    w = ty ↔ t.CallAgrees "mul" args tys := by
  have hfirst : ¬ "mul" ∈ infersFirst := by decide
  obtain ⟨v₁, v₂, rfl⟩ : ∃ v₁ v₂, tys = [v₁, v₂] := by
    match tys, hval with
    | [v₁, v₂], _ => exact ⟨v₁, v₂, rfl⟩
    | [], hval | [_], hval | _ :: _ :: _ :: _, hval => cases hval
  obtain ⟨a, b, rfl⟩ := List.length_eq_two.mp hlen.symm
  have hval : productTy v₁ v₂ = some w := hval
  unfold inferCall at hinfer
  rw [if_neg (by decide), if_neg (by decide), if_neg hfirst, if_pos rfl] at hinfer
  obtain ⟨l, hl, hinfer⟩ := Outcome.bind_eq_ok hinfer
  obtain ⟨r, hr, hinfer⟩ := Outcome.bind_eq_ok hinfer
  cases hinfer
  have hl : t.inferred a = some l := inferred_eq_some.mpr hl
  have hr : t.inferred b = some r := inferred_eq_some.mpr hr
  have hagrees : t.CallAgrees "mul" [a, b] [v₁, v₂] ↔ productTy v₁ v₂ = some (inferMul l r) := by
    simp only [Tables.CallAgrees, String.reduceEq, if_false, if_true, productTy_eq_iff]
    constructor
    · intro h
      exact h a b l r v₁ v₂ rfl hl hr rfl
    · rintro h _ _ l' r' _ _ ⟨⟩ hl' hr' ⟨⟩
      rw [hl] at hl'
      rw [hr] at hr'
      cases hl'
      cases hr'
      exact h
  rw [hagrees, hval, Option.some.injEq]

theorem callAgrees_iff {ty w : Ty} (hlen : tys.length = args.length)
    (hinfer : inferCall name (t.inferTypes args) = .ok ty) (hval : callTy name tys = some w) :
    w = ty ↔ t.CallAgrees name args tys := by
  by_cases hmul : name = "mul"
  · subst hmul
    exact mulAgrees_iff hlen hinfer hval
  · unfold inferCall at hinfer
    unfold callTy at hval
    unfold Tables.CallAgrees
    by_cases hdot : name = "dot"
    · rw [if_pos hdot] at hinfer hval ⊢
      obtain ⟨l, hl, hinfer⟩ := Outcome.bind_eq_ok hinfer
      cases hinfer
      rw [hval, argAt_zero hl, Option.map_some, Option.some.injEq, eq_comm]
    · rw [if_neg hdot] at hinfer hval ⊢
      by_cases hlength : name = "length"
      · subst hlength
        cases hinfer
        cases hval
        simp
      · rw [if_neg hlength, if_neg hmul] at hinfer hval ⊢
        by_cases hfirst : name ∈ infersFirst
        · rw [if_pos hfirst] at hinfer
          rw [argAt_zero hinfer, hval, Option.some.injEq, eq_comm]
        · rw [if_neg hfirst] at hinfer
          cases hinfer

attribute [local simp] Tables.Agrees

theorem constructAgrees_iff {ty w : Ty} (htys : t.valueTys args = some tys)
    (hval : constructTy ty tys = some w) : w = ty ↔ t.Agrees (.construct ty args) := by
  have hlen := valueTys_length htys
  cases ty with
  | scalar kind =>
    match args, tys, hlen with
    | [e], [v], _ =>
      have hv : t.valueTy e = some v := by
        simpa [Tables.valueTys, Option.bind_eq_some_iff] using htys
      rw [scalarAgrees_iff hval]
      simp [hv]
    | [], [], _ => cases kind <;> cases hval
    | _ :: _ :: _, _ :: _ :: _, _ => cases kind <;> cases hval
  | vector kind n =>
    have hval : some (Ty.vector kind n) = some w := hval
    cases hval
    simp
  | _ => cases hval

theorem binaryAgrees_iff {l' r' ty w : Ty} (hassign : op ≠ .assign) (hcore : coreOp op = none)
    (hl : t.valueTy lhs = some l') (hr : t.valueTy rhs = some r')
    (hinfer : t.inferType (.binary op lhs rhs) = .ok ty)
    (hval : t.valueTy (.binary op lhs rhs) = some w) : w = ty ↔ t.Agrees (.binary op lhs rhs) := by
  simp only [Tables.valueTy, if_neg hassign, hcore, hl, hr, Option.bind_eq_bind,
    Option.bind_some] at hval
  simp only [Tables.Agrees, if_neg hassign, hcore, Option.isSome_none, Bool.false_eq_true, if_false]
  by_cases hcmp : isComparison op = true
  · rw [if_pos hcmp] at hval ⊢
    simp only [Tables.inferType, if_pos hcmp] at hinfer
    obtain ⟨l, hl', hinfer⟩ := Outcome.bind_eq_ok hinfer
    cases hinfer
    cases hval
    rw [inferred_eq_some.mpr hl', hl, Option.map_some, Option.map_some, Option.some.injEq, eq_comm]
  · rw [if_neg hcmp] at hval ⊢
    by_cases hlog : isLogical op = true
    · rw [if_pos hlog] at hval ⊢
      simp only [Tables.inferType, if_neg hcmp, if_pos hlog] at hinfer
      cases hinfer
      cases hval
      simp
    · rw [if_neg hlog] at hval ⊢
      obtain ⟨l, hl', hinfer⟩ := inferType_operator hcmp hlog hinfer
      cases hval
      rw [arithAgrees_iff hinfer]
      simp [hl', hl, hr]

/-- An expression's value has the inferred type exactly when the rules agree. -/
theorem valueTy_eq_inferred_iff : ∀ (e : Expr) {ty w : Ty}, t.inferType e = .ok ty →
    t.valueTy e = some w → (w = ty ↔ t.Agrees e)
  | .literal l, ty, w, hinfer, hval => by
      cases hinfer
      cases hval
      simp
  | .ident x, ty, w, hinfer, hval => by
      simp only [Tables.valueTy, Tables.inferType] at hinfer hval
      rw [hinfer] at hval
      cases hval
      simp
  | .member base member, ty, w, hinfer, hval => by
      simp only [Tables.valueTy, hinfer] at hval
      cases hval
      simp
  | .methodCall base method args, ty, w, hinfer, hval => by
      cases hval
      simp only [Tables.inferType] at hinfer
      by_cases hm : method = "Sample"
      · rw [if_pos hm] at hinfer
        cases hinfer
        simp
      · rw [if_neg hm] at hinfer
        cases hinfer
  | .cast ty' e, ty, w, hinfer, hval => by
      cases hinfer
      cases hval
      simp
  | .unary op e, ty, w, hinfer, hval => by
      simp only [Tables.inferType, Tables.valueTy] at hinfer hval
      simp only [Tables.Agrees]
      exact valueTy_eq_inferred_iff e hinfer hval
  | .construct ty' args, ty, w, hinfer, hval => by
      cases hinfer
      simp only [Tables.valueTy, Option.bind_eq_bind, Option.bind_eq_some_iff] at hval
      obtain ⟨tys, htys, hval⟩ := hval
      exact constructAgrees_iff htys hval
  | .call name args, ty, w, hinfer, hval => by
      simp only [Tables.inferType] at hinfer
      simp only [Tables.valueTy, Option.bind_eq_bind, Option.bind_eq_some_iff] at hval
      obtain ⟨tys, htys, hval⟩ := hval
      rw [callAgrees_iff (valueTys_length htys) hinfer hval]
      simp [htys]
  | .binary op lhs rhs, ty, w, hinfer, hval => by
      by_cases hassign : op = .assign
      · subst hassign
        obtain ⟨p, hp, hinfer⟩ := inferType_operator (by decide) (by decide) hinfer
        simp only [Tables.valueTy, if_true, Option.bind_eq_bind, Option.bind_eq_some_iff] at hval
        obtain ⟨p', hp', v, hv, hval⟩ := hval
        cases hp.symm.trans hp'
        cases hval
        rw [assignAgrees_iff hinfer]
        simp [hp, hv]
      · cases hcore : coreOp op with
        | some core =>
          have hop : ¬ isComparison op = true ∧ ¬ isLogical op = true := by
            cases op <;> first | exact ⟨by decide, by decide⟩ | cases hcore
          obtain ⟨p, hp, hinfer⟩ := inferType_operator hop.1 hop.2 hinfer
          simp only [Tables.valueTy, if_neg hassign, hcore, Option.bind_eq_bind,
            Option.bind_eq_some_iff] at hval
          obtain ⟨p', hp', v, hv, hval⟩ := hval
          cases hp.symm.trans hp'
          cases hval
          simp only [Tables.Agrees, if_neg hassign, hcore, Option.isSome_some, if_true, hp]
          by_cases hc : p.isComposite = true
          · rw [if_pos hc] at hinfer
            cases hinfer
            simp [arithTy_of_composite, hc]
          · rw [if_neg hc] at hinfer
            rw [arithTy_of_not_composite v hc,
              valueTy_eq_inferred_iff rhs (inferred_eq_some.mp hinfer) hv]
            simp [hc]
        | none =>
          have hboth : ∃ l r, t.valueTy lhs = some l ∧ t.valueTy rhs = some r := by
            simp only [Tables.valueTy, if_neg hassign, hcore, Option.bind_eq_bind,
              Option.bind_eq_some_iff] at hval
            obtain ⟨l, hl, r, hr, -⟩ := hval
            exact ⟨l, r, hl, hr⟩
          obtain ⟨l, r, hl, hr⟩ := hboth
          exact binaryAgrees_iff hassign hcore hl hr hinfer hval

end

/-- In every context, the value of an expression has the type that is inferred for it exactly when
    the two sets of rules agree. -/
theorem value_ty_eq_iff {s s' : Ctx} {e : Expr} {ty : Ty} {v : Val}
    (hinfer : s.inferType e = .ok ty) (hemit : emitExpr e s = .ok (v, s')) : v.ty = ty ↔ s.toTables.Agrees e :=
  valueTy_eq_inferred_iff e hinfer (gives_expr e s rfl v s' hemit).2

/-- `min(1.0, 2.0)` -/
def minOfFloats : Expr :=
  .call "min" [.literal (.float 0x3FF0000000000000), .literal (.float 0x4000000000000000)]

theorem value_ty_eq_minOfFloats : ∃ v s',
    emitExpr minOfFloats emptyEntry = .ok (v, s') ∧ v.ty = .scalar .float := by
  refine ⟨_, _, rfl, (@value_ty_eq_iff emptyEntry _ minOfFloats _ _ rfl rfl).mpr ?_⟩
  rintro tys ⟨⟩
  rfl

/-- `min(1, 2.0)` -/
def minOfMixed : Expr := .call "min" [.literal (.int 1), .literal (.float 0x4000000000000000)]

/-- The type is that of the first argument for `infer_type`, that of the last one for `emit_call`. -/
theorem minOfMixed_differs : ∃ v s', emptyEntry.inferType minOfMixed = .ok (.scalar .int) ∧
    emitExpr minOfMixed emptyEntry = .ok (v, s') ∧ v.ty = .scalar .float :=
  ⟨_, _, rfl, rfl, rfl⟩

end WinCompat.Hlsl
