import WinCompat.Hlsl.CodeTyping

/-!
# The code of a well-typed expression is well typed

The instructions of an expression are well typed exactly when the expression is
(`Code.judged`), in an environment that knows the ids the tables refer to (`Describes`) and those that
the code defines. The value of an expression always has the type that the compiler keeps for it, so
each instruction can be judged alone.
-/

namespace WinCompat.Hlsl

open Lib

/-! ## What an environment knows -/

/-- The constants `cs` are as `Γ` says. -/
def ConstsIn (Γ : Spirv.Env) (cs : List Spirv.Constant) : Prop :=
  ∀ c ∈ cs, Γ.ty c.id = some c.ty ∧ Γ.bits c.id = some c.bits

/-- The results of the instructions `is` have the types that `Γ` says. -/
def ResultsIn (Γ : Spirv.Env) (is : List Spirv.Inst) : Prop :=
  ∀ i ∈ is, ∀ d, i.result = some d → Γ.ty d.1 = some d.2

def AllWellTyped (Γ : Spirv.Env) (is : List Spirv.Inst) : Prop := ∀ i ∈ is, i.WellTyped Γ

section

variable {Γ : Spirv.Env} {cs cs' : List Spirv.Constant} {is is' : List Spirv.Inst} {i : Spirv.Inst}

@[simp] theorem constsIn_append : ConstsIn Γ (cs ++ cs') ↔ ConstsIn Γ cs ∧ ConstsIn Γ cs' :=
  List.forall_mem_append

@[simp] theorem resultsIn_append : ResultsIn Γ (is ++ is') ↔ ResultsIn Γ is ∧ ResultsIn Γ is' :=
  List.forall_mem_append

@[simp] theorem resultsIn_cons :
    ResultsIn Γ (i :: is) ↔ (∀ d, i.result = some d → Γ.ty d.1 = some d.2) ∧ ResultsIn Γ is :=
  List.forall_mem_cons

@[simp] theorem allWellTyped_nil : AllWellTyped Γ [] := nofun

@[simp] theorem allWellTyped_append :
    AllWellTyped Γ (is ++ is') ↔ AllWellTyped Γ is ∧ AllWellTyped Γ is' := List.forall_mem_append

@[simp] theorem allWellTyped_cons : AllWellTyped Γ (i :: is) ↔ i.WellTyped Γ ∧ AllWellTyped Γ is :=
  List.forall_mem_cons

end

/-! ## Scopes and tables -/

/-- The pointer of a global is as the scope says. -/
def GlobalIn (Γ : Spirv.Env) (g : Global) (g' : GlobalTy) : Prop :=
  g.ty = g'.ty ∧ Γ.ty g.ptr = some (.pointer g'.cls g'.pointee)

/-- The cbuffer of a member and the constant of its index. -/
def MemberIn (Γ : Spirv.Env) (m : Spirv.Id × Spirv.Id) (m' : Spirv.Ty × Nat) : Prop :=
  Γ.ty m.1 = some (.pointer .uniform m'.1) ∧ Γ.bits m.2 = some (BitVec.ofNat 32 m'.2)

def LocalIn (Γ : Spirv.Env) (sc : Scope) (l : Local) (ty : Ty) : Prop :=
  l.ty = ty ∧ ∃ st, sc.typeOf ty = some st ∧ Γ.ty l.ptr = some (.pointer .function st)

/-- The ids of the tables have the types that the scope gives to their names. -/
structure Describes (Γ : Spirv.Env) (t : Tables) (sc : Scope) : Prop where
  structs : sc.structs = t.structs
  structsOk : sc.StructsOk
  globals : Assoc.Matched (GlobalIn Γ) t.globals sc.globals
  members : Assoc.Matched (MemberIn Γ) t.cbufferMembers sc.members
  locals : Assoc.Matched (LocalIn Γ sc) t.locals sc.locals

/-- A value has the type that the compiler keeps for it. -/
def HasTy (Γ : Spirv.Env) (sc : Scope) (v : Val) : Prop :=
  ∃ st, sc.valueTypeOf v.ty = some st ∧ Γ.ty v.id = some st

section

variable {t t' : Tables}

theorem inferMember_congr (h : t'.structs = t.structs) (ty : Ty) (member : String) :
    t'.inferMember ty member = t.inferMember ty member := by
  cases ty with
  | struct name =>
    unfold Tables.inferMember
    rw [h]
  | _ => rfl

mutual

/-- Type inference looks at the structs and at the types of the names. -/
theorem inferType_congr (hs : t'.structs = t.structs)
    (hi : ∀ x, t'.inferIdent x = t.inferIdent x) : ∀ e, t'.inferType e = t.inferType e
  | .literal _ | .construct _ _ | .cast _ _ | .methodCall _ _ _ => by
      simp only [Tables.inferType]
  | .ident x => by
      simp only [Tables.inferType]
      exact hi x
  | .member base member => by
      simp only [Tables.inferType, inferType_congr hs hi base, inferMember_congr hs]
  | .call name args => by
      simp only [Tables.inferType, inferTypes_congr hs hi args]
  | .binary op lhs rhs => by
      simp only [Tables.inferType, inferType_congr hs hi lhs, inferType_congr hs hi rhs]
  | .unary _ e => by
      simp only [Tables.inferType, inferType_congr hs hi e]

theorem inferTypes_congr (hs : t'.structs = t.structs)
    (hi : ∀ x, t'.inferIdent x = t.inferIdent x) : ∀ es, t'.inferTypes es = t.inferTypes es
  | [] => rfl
  | e :: es => by
      simp only [Tables.inferTypes, inferType_congr hs hi e, inferTypes_congr hs hi es]

end

end

namespace Describes

variable {Γ : Spirv.Env} {t : Tables} {sc : Scope}

theorem typeId (h : Describes Γ t sc) (ty : Ty) : sc.names.typeId ty = t.typeId ty := by
  have hs : sc.names.structs = t.structs := h.structs
  cases ty with
  | struct name =>
    unfold Tables.typeId
    rw [hs]
  | _ => rfl

theorem valueTypeId (h : Describes Γ t sc) (ty : Ty) :
    sc.names.valueTypeId ty = t.valueTypeId ty := by
  cases ty with
  | struct name => exact h.typeId (.struct name)
  | _ => rfl

theorem typeOf (h : Describes Γ t sc) {ty : Ty} {st : Spirv.Ty} (hty : t.typeId ty = .ok st) :
    sc.typeOf ty = some st := by
  unfold Scope.typeOf
  rw [h.typeId, hty]
  rfl

theorem valueTypeOf (h : Describes Γ t sc) {ty : Ty} {st : Spirv.Ty}
    (hty : t.valueTypeId ty = .ok st) : sc.valueTypeOf ty = some st := by
  unfold Scope.valueTypeOf
  rw [h.valueTypeId, hty]
  rfl

theorem inferType (h : Describes Γ t sc) (e : Expr) : sc.names.inferType e = t.inferType e := by
  apply inferType_congr h.structs
  intro x
  have hl : sc.names.locals.lookup x = (sc.locals.lookup x).map fun ty => (⟨0, ty⟩ : Local) :=
    Assoc.lookup_map_snd (fun ty => (⟨0, ty⟩ : Local)) sc.locals x
  have hg : sc.names.globals.lookup x =
      (sc.globals.lookup x).map fun g => (⟨0, g.ty⟩ : Global) :=
    Assoc.lookup_map_snd (fun g : GlobalTy => (⟨0, g.ty⟩ : Global)) sc.globals x
  unfold Tables.inferIdent
  rw [hl, hg]
  cases htl : t.locals.lookup x with
  | some l =>
    obtain ⟨ty, hty, rfl, -⟩ := h.locals.lookup_some htl
    rw [hty]
    rfl
  | none =>
    rw [h.locals.lookup_none htl]
    cases htg : t.globals.lookup x with
    | some g =>
      obtain ⟨g', hg', hty, -⟩ := h.globals.lookup_some htg
      rw [hg']
      exact congrArg Outcome.ok hty.symm
    | none =>
      rw [h.globals.lookup_none htg]
      rfl

end Describes

/-! ## Places -/

section

variable {Γ : Spirv.Env} {t : Tables} {sc : Scope}

variable {cls : Spirv.StorageClass}

/-- A pointer to a member that a constant names. -/
theorem accessChain_wellTyped (id : Spirv.Id) (cls' : Spirv.StorageClass) (st : Spirv.Ty)
    {base i : Spirv.Id} {ty : Spirv.Ty} {idx : Nat} (hbase : Γ.ty base = some (.pointer cls ty))
    (hi : Γ.bits i = some (BitVec.ofNat 32 idx)) :
    (Spirv.Inst.accessChain (.pointer cls' st) id base [i]).WellTyped Γ ↔
      cls = cls' ∧ ty.component (idx % 2 ^ 32) = some st := by
  have hwalk : Γ.walk ty [i] = ty.component (idx % 2 ^ 32) := by
    show (Γ.bits i >>= fun bits => ty.component bits.toNat >>= fun m => some m) = _
    rw [hi]
    show (ty.component (BitVec.ofNat 32 idx).toNat >>= fun m => some m) = _
    rw [BitVec.toNat_ofNat]
    exact bind_pure _
  constructor
  · rintro ⟨c, u, member, hb, hw, heq⟩
    rw [hbase] at hb
    cases hb
    cases heq
    rw [hwalk] at hw
    exact ⟨rfl, hw⟩
  · rintro ⟨rfl, hm⟩
    exact ⟨_, _, _, hbase, hwalk.trans hm, rfl⟩

theorem load_wellTyped (st : Spirv.Ty) (id : Spirv.Id) {ptr : Spirv.Id} {pointee : Spirv.Ty}
    (hptr : Γ.ty ptr = some (.pointer cls pointee)) :
    (Spirv.Inst.load st id ptr).WellTyped Γ ↔ st = pointee := by
  constructor
  · rintro ⟨c, h⟩
    rw [hptr] at h
    cases h
    rfl
  · rintro rfl
    exact ⟨cls, hptr⟩

theorem store_wellTyped {ptr object : Spirv.Id} {st pointee : Spirv.Ty}
    (hptr : Γ.ty ptr = some (.pointer cls pointee)) (hobject : Γ.ty object = some st) :
    (Spirv.Inst.store ptr object).WellTyped Γ ↔ st = pointee := by
  constructor
  · rintro ⟨c, u, h, hu⟩
    rw [hptr] at h
    rw [hobject] at hu
    cases h
    cases hu
    rfl
  · rintro rfl
    exact ⟨cls, st, hptr, hobject⟩

/-- The pointer of a place is as the scope says, and so are those on the way to it exactly when the
    place is well typed. -/
structure PlaceJudged (Γ : Spirv.Env) (sc : Scope) (e : Expr) (p : Place) (is : List Spirv.Inst)
    (g : GlobalTy) : Prop where
  place : sc.placeTy e = some g
  ty : g.ty = p.ty
  ptr : Γ.ty p.ptr = some (.pointer g.cls g.pointee)
  typed : AllWellTyped Γ is ↔ sc.PlaceTyped e

variable {x : String}

theorem placeJudged_local {l : Local} (hd : Describes Γ t sc) (hl : t.locals.lookup x = some l) :
    ∃ g, PlaceJudged Γ sc (.ident x) ⟨l.ptr, l.ty⟩ [] g := by
  obtain ⟨_, hx, rfl, st, hst, hptr⟩ := hd.locals.lookup_some hl
  refine ⟨⟨l.ty, .function, st⟩, ?_, rfl, hptr, ?_⟩
  · simp [Scope.placeTy, hx, hst]
  · simp [Scope.PlaceTyped, hx]

theorem placeJudged_global {g : Global} (hd : Describes Γ t sc) (hl : t.locals.lookup x = none)
    (hc : t.cbufferMembers.lookup x = none) (hg : t.globals.lookup x = some g) :
    ∃ g', PlaceJudged Γ sc (.ident x) ⟨g.ptr, g.ty⟩ [] g' := by
  obtain ⟨g', hx, hty, hptr⟩ := hd.globals.lookup_some hg
  have hl := hd.locals.lookup_none hl
  have hc := hd.members.lookup_none hc
  refine ⟨g', ?_, hty.symm, hptr, ?_⟩
  · simp [Scope.placeTy, hl, hc, hx]
  · simp [Scope.PlaceTyped, hl, hc]

variable {st : Spirv.Ty}

theorem placeJudged_cbuffer {n : Spirv.Id} {var idx : Spirv.Id} {g : Global} (hd : Describes Γ t sc)
    (hl : t.locals.lookup x = none) (hc : t.cbufferMembers.lookup x = some (var, idx))
    (hg : t.globals.lookup x = some g) (hty : t.typeId g.ty = .ok st)
    (hr : ResultsIn Γ [.accessChain (.pointer .uniform st) n var [idx]]) :
    ∃ g', PlaceJudged Γ sc (.ident x) ⟨n, g.ty⟩
      [.accessChain (.pointer .uniform st) n var [idx]] g' := by
  obtain ⟨⟨cbuffer, i⟩, hx, hvar, hbits⟩ := hd.members.lookup_some hc
  obtain ⟨g', hg', hgty, -⟩ := hd.globals.lookup_some hg
  have hl := hd.locals.lookup_none hl
  have hst : sc.typeOf g'.ty = some st := hgty ▸ hd.typeOf hty
  refine ⟨⟨g'.ty, .uniform, st⟩, ?_, hgty.symm, ?_, ?_⟩
  · simp [Scope.placeTy, hl, hx, hg', hst]
  · exact hr _ List.mem_cons_self (n, .pointer .uniform st) rfl
  · have hchain := accessChain_wellTyped n .uniform st hvar hbits
    simp [Scope.PlaceTyped, hl, hx, hg', hst, hchain]

theorem memberOf_eq_some {name member : String} {info : StructInfo} {idx : Nat} {m : StructMember}
    (hd : Describes Γ t sc) (hinfo : t.structs.lookup name = some info)
    (hidx : info.members.findIdx? (·.name = member) = some idx)
    (hm : info.members.find? (·.name = member) = some m) :
    sc.memberOf (.struct name) member = some (idx, m) := by
  unfold Scope.memberOf
  rw [hd.structs]
  simp [hinfo, hidx, hm]

theorem placeJudged_member {n : Spirv.Id} {base : Expr} {member name : String} {ptr : Spirv.Id}
    {info : StructInfo} {idx : Nat} {m : StructMember} {is : List Spirv.Inst}
    (hd : Describes Γ t sc) (hbase : ∃ g, PlaceJudged Γ sc base ⟨ptr, .struct name⟩ is g)
    (hinfo : t.structs.lookup name = some info)
    (hidx : info.members.findIdx? (·.name = member) = some idx)
    (hm : info.members.find? (·.name = member) = some m) (hty : t.typeId m.ty = .ok st)
    (hbits : Γ.bits n = some (BitVec.ofNat 32 idx))
    (hresult : Γ.ty (n + 1) = some (.pointer .function st)) :
    ∃ g, PlaceJudged Γ sc (.member base member) ⟨n + 1, m.ty⟩
      (is ++ [.accessChain (.pointer .function st) (n + 1) ptr [n]]) g := by
  obtain ⟨⟨_, cls, pointee⟩, hplace, rfl, hptr, htyped⟩ := hbase
  have hmem := memberOf_eq_some hd hinfo hidx hm
  have hst := hd.typeOf hty
  have hchain := accessChain_wellTyped (n + 1) .function st hptr hbits
  refine ⟨⟨m.ty, .function, st⟩, ?_, rfl, hresult, ?_⟩
  · simp [Scope.placeTy, hplace, hmem, hst]
  · simp [Scope.PlaceTyped, hplace, hmem, hst, htyped, hchain]

variable {p : Place}

theorem PlaceCode.judged {n n' : Spirv.Id} {e : Expr} {cs : List Spirv.Constant}
    {is : List Spirv.Inst} (h : PlaceCode t n e p n' cs is) (hd : Describes Γ t sc)
    (hc : ConstsIn Γ cs) (hr : ResultsIn Γ is) : ∃ g, PlaceJudged Γ sc e p is g := by
  induction h with
  | local_ hl => exact placeJudged_local hd hl
  | cbuffer hl hc' hg hty => exact placeJudged_cbuffer hd hl hc' hg hty hr
  | global hl hc' hg => exact placeJudged_global hd hl hc' hg
  | @member n₁ base member ptr name cs is info idx m st hbase hinfo hidx hm hty ih =>
    rw [constsIn_append] at hc
    rw [resultsIn_append] at hr
    have hbits := (hc.2 _ List.mem_cons_self).2
    have hresult := hr.2 _ List.mem_cons_self (n₁ + 1, .pointer .function st) rfl
    exact placeJudged_member hd (ih hc.1 hr.1) hinfo hidx hm hty hbits hresult

/-! ## Instructions -/

theorem unary_wellTyped (op : Spirv.UnaryOp) (st : Spirv.Ty) (id : Spirv.Id) {x : Spirv.Id}
    {tx : Spirv.Ty} (hx : Γ.ty x = some tx) :
    (Spirv.Inst.unary op st id x).WellTyped Γ ↔ op.Accepts st tx := by
  constructor
  · rintro ⟨u, hu, h⟩
    rw [hx] at hu
    cases hu
    exact h
  · exact fun h => ⟨tx, hx, h⟩

theorem binary_wellTyped (op : Spirv.BinaryOp) (st : Spirv.Ty) (id : Spirv.Id) {x y : Spirv.Id}
    {tx ty : Spirv.Ty} (hx : Γ.ty x = some tx) (hy : Γ.ty y = some ty) :
    (Spirv.Inst.binary op st id x y).WellTyped Γ ↔ op.Accepts st tx ty := by
  constructor
  · rintro ⟨u, w, hu, hw, h⟩
    rw [hx] at hu
    rw [hy] at hw
    cases hu
    cases hw
    exact h
  · exact fun h => ⟨tx, ty, hx, hy, h⟩

variable {id : Spirv.Id}

theorem BinaryCode.judged {op : BinaryOp} {l r v : Val} {i : Spirv.Inst}
    (h : BinaryCode t op l r id v i) (hd : Describes Γ t sc) (hl : HasTy Γ sc l) (hr : HasTy Γ sc r)
    (hi : ∀ d, i.result = some d → Γ.ty d.1 = some d.2) :
    HasTy Γ sc v ∧ (i.WellTyped Γ ↔ OperandsTyped op l.ty r.ty) ∧
      v.ty = if isComparison op then inferComparison l.ty
        else if isLogical op then .scalar .bool else arithTy l.ty r.ty := by
  obtain ⟨tl, htl, hlid⟩ := hl
  obtain ⟨tr, htr, hrid⟩ := hr
  cases h with
  | @intro o ty st hop hty =>
    have hst := hd.typeOf hty
    refine ⟨⟨st, valueTypeOf_of_typeOf hst, hi (id, st) rfl⟩, ?_, binaryChoice_ty hop⟩
    rw [binary_wellTyped _ _ _ hlid hrid]
    exact binaryChoice_accepts hd.structsOk htl htr hop hst

variable {kind : ScalarKind}

theorem coerceScalarOut_judged {v : Val} (hv : HasTy Γ sc v)
    (hr : ResultsIn Γ (coerceScalarOut v kind id).2) :
    HasTy Γ sc (coerceScalarOut v kind id).1 ∧
      (coerceScalarOut v kind id).1.ty = v.ty.coercedScalar kind ∧
      (AllWellTyped Γ (coerceScalarOut v kind id).2 ↔ Converts v.ty kind) := by
  unfold coerceScalarOut at hr ⊢
  unfold Ty.coercedScalar
  by_cases hk : v.ty = .scalar kind
  · rw [if_pos hk, hk]
    refine ⟨hv, ?_, ?_⟩
    · split_ifs <;> rfl
    · refine ⟨fun _ k he _ => ?_, fun _ => allWellTyped_nil⟩
      cases he
      exact Or.inl rfl
  · rw [if_neg hk] at hr ⊢
    cases hop : coerceOp v.ty kind with
    | none => exact ⟨hv, rfl, fun _ => converts_of_coerceOp_none hop, fun _ => allWellTyped_nil⟩
    | some op =>
      simp only [hop] at hr
      obtain ⟨st, hst, hid⟩ := hv
      refine ⟨⟨scalarTypeId kind, rfl, hr _ List.mem_cons_self (id, _) rfl⟩, rfl, ?_⟩
      cases hvty : v.ty with
      | scalar k =>
        rw [hvty] at hop hk hst
        cases hst
        have hne : k ≠ kind := by
          rintro rfl
          exact hk rfl
        rw [← coerceOp_accepts hne hop, ← unary_wellTyped _ _ id hid]
        simp
      | _ =>
        rw [hvty] at hop
        cases hop

/-- A coercion converts between scalars alone. -/
theorem coerceOut_judged {v : Val} {target : Ty} (hv : HasTy Γ sc v)
    (hr : ResultsIn Γ (coerceOut v target id).2) :
    HasTy Γ sc (coerceOut v target id).1 ∧
      (coerceOut v target id).1.ty = v.ty.coerced target ∧
      (AllWellTyped Γ (coerceOut v target id).2 ↔
        ∀ k kind, v.ty = .scalar k → target = .scalar kind → Converts v.ty kind) := by
  unfold coerceOut at hr ⊢
  unfold Ty.coerced
  cases hvty : v.ty with
  | scalar k =>
    simp only [hvty] at hr ⊢
    cases target with
    | scalar kind =>
      obtain ⟨hval, hty, htyped⟩ := coerceScalarOut_judged hv hr
      rw [hvty] at hty htyped
      refine ⟨hval, hty, htyped.trans ?_⟩
      constructor
      · rintro h _ _ - ⟨⟩
        exact h
      · exact fun h => h k kind rfl rfl
    | _ => exact ⟨hv, hvty, by simp, fun _ => allWellTyped_nil⟩
  | _ =>
    simp only [hvty]
    exact ⟨hv, trivial, by simp, fun _ => allWellTyped_nil⟩

/-! ## Constructors and calls -/

/-- The types of a list of values. -/
def TypesOf (sc : Scope) (tys : List Ty) (ts : List Spirv.Ty) : Prop :=
  List.Forall₂ (fun ty st => sc.valueTypeOf ty = some st) tys ts

variable {vs : List Val}

theorem exists_types (h : ∀ v ∈ vs, HasTy Γ sc v) :
    ∃ ts : List Spirv.Ty, (vs.map Val.id).map Γ.ty = ts.map some ∧
      TypesOf sc (vs.map Val.ty) ts := by
  induction vs with
  | nil => exact ⟨[], rfl, .nil⟩
  | cons v vs ih =>
    obtain ⟨hv, hvs⟩ := List.forall_mem_cons.mp h
    obtain ⟨st, hst, hid⟩ := hv
    obtain ⟨ts, hts, htypes⟩ := ih hvs
    refine ⟨st :: ts, ?_, .cons hst htypes⟩
    rw [List.map_cons, List.map_cons, List.map_cons, hid, hts]

theorem map_some_injective {ts ts' : List Spirv.Ty} (h : ts.map some = ts'.map some) : ts = ts' :=
  List.map_injective_iff.mpr (fun _ _ => Option.some.inj) h

variable {ts : List Spirv.Ty}

theorem extInst_wellTyped (st : Spirv.Ty) (id set : Spirv.Id) (ext : Nat) {ids : List Spirv.Id}
    (h : ids.map Γ.ty = ts.map some) :
    (Spirv.Inst.extInst st id set ext ids).WellTyped Γ ↔ Spirv.ExtAccepts ext st ts := by
  constructor
  · rintro ⟨ts', hts', hacc⟩
    rw [h] at hts'
    rw [map_some_injective hts']
    exact hacc
  · exact fun hacc => ⟨ts, h, hacc⟩

theorem compositeConstruct_wellTyped (st : Spirv.Ty) (id : Spirv.Id) {ids : List Spirv.Id}
    (h : ids.map Γ.ty = ts.map some) :
    (Spirv.Inst.compositeConstruct st id ids).WellTyped Γ ↔ Spirv.Supplies st ts := by
  constructor
  · rintro ⟨ts', hts', hsup⟩
    rw [h] at hts'
    rw [map_some_injective hts']
    exact hsup
  · exact fun hsup => ⟨ts, h, hsup⟩

variable {tys : List Ty}

/-- Properties of types and of what they stand for, through a list. -/
theorem TypesOf.forall_iff (h : TypesOf sc tys ts) {P : Ty → Prop} {Q : Spirv.Ty → Prop}
    (hpq : ∀ ty st, sc.valueTypeOf ty = some st → (P ty ↔ Q st)) :
    (∀ ty ∈ tys, P ty) ↔ ∀ st ∈ ts, Q st := by
  induction h with
  | nil => simp
  | cons hst _ ih => rw [List.forall_mem_cons, List.forall_mem_cons, ih, hpq _ _ hst]

variable {ty : Ty}

theorem width_of_shape {k : ScalarKind} {size : Option Nat} (hst : sc.valueTypeOf ty = some st)
    (h : ty.shape = some (k, size)) : st.width = ty.width := by
  cases ty with
  | scalar k' =>
    cases hst
    cases k' <;> rfl
  | vector k' n =>
    cases hst
    rfl
  | _ => cases h

theorem TypesOf.widths (h : TypesOf sc tys ts)
    (hsh : ∀ ty ∈ tys, ∃ k size, ty.shape = some (k, size)) :
    ts.map Spirv.Ty.width = tys.map Ty.width := by
  induction h with
  | nil => rfl
  | cons hst _ ih =>
    obtain ⟨⟨k, size, hk⟩, hrest⟩ := List.forall_mem_cons.mp hsh
    rw [List.map_cons, List.map_cons, ih hrest, width_of_shape hst hk]

theorem component_iff (hs : sc.StructsOk) (kind : ScalarKind) (hst : sc.valueTypeOf ty = some st) :
    (∃ size, ty.shape = some (kind, size)) ↔
      st = scalarTypeId kind ∨ ∃ n, st = .vector (scalarTypeId kind) n := by
  constructor
  · rintro ⟨size, h⟩
    rw [(shape_iff hs hst _ _).mp h]
    cases size with
    | none => exact Or.inl rfl
    | some n => exact Or.inr ⟨n, rfl⟩
  · rintro (rfl | ⟨n, rfl⟩)
    · exact ⟨none, (shape_iff hs hst _ _).mpr rfl⟩
    · exact ⟨some n, (shape_iff hs hst _ _).mpr rfl⟩

/-- Constituents of one kind, as many as there are components. -/
theorem supplies_iff (hs : sc.StructsOk) {n : Nat} (h : TypesOf sc tys ts) :
    Spirv.Supplies (vectorTypeId kind n) ts ↔
      (∀ ty ∈ tys, ∃ size, ty.shape = some (kind, size)) ∧ (tys.map Ty.width).sum = n := by
  have hall := h.forall_iff fun ty st hst => component_iff hs kind hst
  rw [hall]
  have hwidths : (∀ st ∈ ts, st = scalarTypeId kind ∨ ∃ n, st = .vector (scalarTypeId kind) n) →
      ts.map Spirv.Ty.width = tys.map Ty.width := by
    intro hts
    refine h.widths fun ty hty => ?_
    obtain ⟨size, hsh⟩ := hall.mpr hts ty hty
    exact ⟨kind, size, hsh⟩
  constructor
  · rintro ⟨elem, m, heq, hts, hsum⟩
    injection heq with helem hm
    subst helem hm
    exact ⟨hts, hwidths hts ▸ hsum⟩
  · rintro ⟨hts, hsum⟩
    exact ⟨_, n, rfl, hts, (hwidths hts).symm ▸ hsum⟩

theorem constructTyped_assemble (kind : ScalarKind) (n : Nat) (h : tys.length ≠ 1) :
    ConstructTyped (.vector kind n) tys ↔
      (∀ ty ∈ tys, ∃ size, ty.shape = some (kind, size)) ∧ (tys.map Ty.width).sum = n := by
  match tys, h with
  | [], _ => exact Iff.rfl
  | [_], h => exact absurd rfl h
  | _ :: _ :: _, _ => exact Iff.rfl

theorem intrinsicTy_eq (name : String) (vs : List Val) :
    intrinsicTy name vs = if name = "length" then .scalar .float
      else ((vs.map Val.ty).getLast?).getD (.scalar .float) := by
  unfold intrinsicTy
  rw [List.getLast?_map]

variable {name : String}

theorem intrinsics_lookup {ext arity : Nat} (h : intrinsics.lookup name = some (ext, arity)) :
    (ext = Spirv.extLength ↔ name = "length") ∧ (ext = Spirv.extCross ↔ name = "cross") ∧
      name ≠ "dot" ∧ name ≠ "mul" ∧ 0 < arity := by
  have hall : ∀ p ∈ intrinsics, (p.2.1 = Spirv.extLength ↔ p.1 = "length") ∧
      (p.2.1 = Spirv.extCross ↔ p.1 = "cross") ∧ p.1 ≠ "dot" ∧ p.1 ≠ "mul" ∧ 0 < p.2.2 := by
    decide
  exact hall _ (Assoc.mem_of_lookup h)

theorem ext_accepts (hs : sc.StructsOk) {ext : Nat} (h : TypesOf sc tys ts)
    (hname : intrinsics.lookup name = some (ext, tys.length))
    (hst : sc.valueTypeOf (if name = "length" then .scalar .float
      else (tys.getLast?).getD (.scalar .float)) = some st) :
    Spirv.ExtAccepts ext st ts ↔ CallTyped name tys := by
  obtain ⟨hlength, hcross, hdot, hmul, hpos⟩ := intrinsics_lookup hname
  unfold Spirv.ExtAccepts CallTyped
  rw [if_neg hdot, if_neg hmul]
  by_cases hl : name = "length"
  · rw [if_pos (hlength.mpr hl), if_pos hl]
    rw [if_pos hl] at hst
    cases hst
    rw [h.forall_iff fun ty st hst => (isFloat_iff hs hst).symm]
    exact and_iff_right rfl
  · rw [if_neg (mt hlength.mp hl), if_neg hl]
    rw [if_neg hl] at hst
    obtain ⟨last, hlast⟩ : ∃ last, tys.getLast? = some last := by
      cases hlast : tys.getLast? with
      | some last => exact ⟨last, rfl⟩
      | none =>
        rw [List.getLast?_eq_none_iff.mp hlast] at hpos
        cases hpos
    rw [hlast] at hst
    have hst : sc.valueTypeOf last = some st := hst
    have hall : ∀ size, st = shapeTy .float size → ((∀ ty ∈ tys, ty.shape = some (.float, size)) ↔
        ∀ u ∈ ts, u = st) := by
      rintro size rfl
      exact h.forall_iff fun ty u hu => shape_iff hs hu .float size
    constructor
    · rintro ⟨hf, h3, hts⟩
      obtain ⟨size, hsh⟩ := (isFloat_iff hs hst).mp hf
      have hshape := (shape_iff hs hst _ _).mp hsh
      refine ⟨size, (hall size hshape).mpr hts, fun hc => ?_⟩
      rw [← h3 (hcross.mpr hc), hshape, shapeTy_size]
    · rintro ⟨size, hsh, h3⟩
      have hshape := (shape_iff hs hst _ _).mp (hsh last (List.mem_of_getLast? hlast))
      refine ⟨?_, fun hc => ?_, (hall size hshape).mp hsh⟩
      · rw [hshape]
        exact shapeTy_isFloat.mpr rfl
      · rw [hshape, shapeTy_size, h3 (hcross.mp hc)]

/-! ## Expressions -/

/-- The value of an expression has the type that the rules give, and its instructions are well typed
    exactly when the rules say so. -/
structure Judged (Γ : Spirv.Env) (sc : Scope) (e : Expr) (v : Val) (is : List Spirv.Inst) : Prop where
  ty : sc.valTy e = some v.ty
  val : HasTy Γ sc v
  typed : AllWellTyped Γ is ↔ sc.Typed e

structure JudgedArgs (Γ : Spirv.Env) (sc : Scope) (es : List Expr) (vs : List Val)
    (is : List Spirv.Inst) : Prop where
  tys : sc.valTys es = some (vs.map Val.ty)
  vals : ∀ v ∈ vs, HasTy Γ sc v
  typed : AllWellTyped Γ is ↔ sc.AllTyped es

/-- The last instruction gives the value its type. -/
theorem HasTy.result {i : Spirv.Inst} (hst : sc.valueTypeOf ty = some st)
    (hi : i.result = some (id, st)) (hr : ResultsIn Γ [i]) :
    HasTy Γ sc ⟨id, ty⟩ := ⟨st, hst, hr i List.mem_cons_self (id, st) hi⟩

section

variable {e lhs rhs : Expr} {v l r : Val} {is is' : List Spirv.Inst} {n : Spirv.Id}

attribute [local simp] Scope.valTy Scope.valTys Scope.Typed Scope.AllTyped

theorem judged_literal (lit : Literal) (n : Spirv.Id)
    (hc : ConstsIn Γ [⟨lit.spirvTy, n, lit.bits⟩]) :
    Judged Γ sc (.literal lit) ⟨n, lit.ty⟩ [] := by
  refine ⟨by simp, ?_, by simp⟩
  refine ⟨lit.spirvTy, ?_, (hc _ List.mem_cons_self).1⟩
  cases lit <;> rfl

variable {g : GlobalTy}

theorem judged_ident (hd : Describes Γ t sc) (hp : PlaceJudged Γ sc (.ident x) p is g)
    (hty : t.valueTypeId p.ty = .ok st) (hr : ResultsIn Γ [.load st n p.ptr]) :
    Judged Γ sc (.ident x) ⟨n, p.ty⟩ (is ++ [.load st n p.ptr]) := by
  have hst := hd.valueTypeOf hty
  refine ⟨?_, .result hst rfl hr, ?_⟩
  · unfold Scope.valTy
    rw [hp.place, Option.map_some, hp.ty]
  · have hload := load_wellTyped st n hp.ptr
    unfold Scope.Typed
    simp [hp.typed, hp.place, hp.ty, hst, hload]

theorem judged_field {member name : String} (hd : Describes Γ t sc)
    (hbase : t.inferType e = .ok (.struct name)) (hp : PlaceJudged Γ sc (.member e member) p is g)
    (hst : g.pointee = st) (hty : t.typeId p.ty = .ok st) (hr : ResultsIn Γ [.load st n p.ptr]) :
    Judged Γ sc (.member e member) ⟨n, p.ty⟩ (is ++ [.load st n p.ptr]) := by
  have hbase := (hd.inferType e).trans hbase
  refine ⟨?_, .result (valueTypeOf_of_typeOf (hd.typeOf hty)) rfl hr, ?_⟩
  · simp [hbase, hp.place, hp.ty]
  · have hload := load_wellTyped st n hp.ptr
    simp [hbase, hp.typed, hload, hst]

/-- The place of a member points to the type of the member. -/
theorem placeJudged_member_pointee {member : String} (hd : Describes Γ t sc)
    (hp : PlaceJudged Γ sc (.member e member) p is g) (hty : t.typeId p.ty = .ok st) :
    g.pointee = st := by
  have hplace := hp.place
  unfold Scope.placeTy at hplace
  obtain ⟨q, -, hplace⟩ := Option.bind_eq_some_iff.mp hplace
  obtain ⟨⟨i, m⟩, -, hplace⟩ := Option.bind_eq_some_iff.mp hplace
  obtain ⟨u, hu, hplace⟩ := Option.bind_eq_some_iff.mp hplace
  cases hplace
  have hst := hd.typeOf hty
  rw [← hp.ty, hu] at hst
  exact Option.some.inj hst

theorem shuffle_wellTyped (hs : sc.StructsOk) {comps : List Nat} (hv : HasTy Γ sc v) :
    (Spirv.Inst.vectorShuffle (vectorTypeId kind comps.length) n v.id v.id comps).WellTyped Γ ↔
      ∃ m, v.ty = .vector kind m ∧ ∀ c ∈ comps, c < m := by
  obtain ⟨st, hst, hid⟩ := hv
  constructor
  · rintro ⟨elem, m, m', hm, -, heq, hcomps⟩
    rw [hid] at hm
    cases hm
    injection heq with helem
    subst helem
    exact ⟨m, shape_injective ((shape_iff hs hst kind (some m)).mpr rfl) rfl, hcomps⟩
  · rintro ⟨m, hty, hcomps⟩
    rw [hty] at hst
    cases hst
    exact ⟨scalarTypeId kind, m, m, hid, hid, rfl, hcomps⟩

theorem swizzle_wellTyped (n : Spirv.Id) (kind : ScalarKind) (comps : List Nat)
    (hs : sc.StructsOk) (hv : HasTy Γ sc v) :
    (swizzleInst kind comps n v.id).WellTyped Γ ↔ sc.SwizzleTyped v.ty kind comps := by
  match comps with
  | [] | c :: c' :: rest => exact shuffle_wellTyped hs hv
  | [c] =>
    obtain ⟨st, hst, hid⟩ := hv
    constructor
    · rintro ⟨u, hu, hcomp⟩
      rw [hid] at hu
      cases hu
      exact ⟨st, hst, by simpa using hcomp⟩
    · rintro ⟨u, hu, hcomp⟩
      rw [hst] at hu
      cases hu
      exact ⟨st, hid, by simpa using hcomp⟩

theorem judged_swizzle {member : String} {k : Nat} {comps : List Nat} (hd : Describes Γ t sc)
    (hbase : t.inferType e = .ok (.vector kind k)) (he : Judged Γ sc e v is)
    (hcomps : decodeSwizzle member = some comps) (hr : ResultsIn Γ [swizzleInst kind comps n v.id]) :
    Judged Γ sc (.member e member) ⟨n, swizzleTy kind comps⟩
      (is ++ [swizzleInst kind comps n v.id]) := by
  have hbase := (hd.inferType e).trans hbase
  refine ⟨?_, ?_, ?_⟩
  · simp [hbase, hcomps]
  · rcases comps with _ | ⟨c, _ | ⟨c', rest⟩⟩ <;> exact .result rfl rfl hr
  · have hswizzle := swizzle_wellTyped n kind comps hd.structsOk he.val
    simp [hbase, he.typed, he.ty, hcomps, hswizzle]

theorem judged_float (he : Judged Γ sc e v is) : Judged Γ sc (.construct (.scalar .float) [e]) v is := by
  refine ⟨?_, he.val, ?_⟩
  · simp [he.ty, constructTy]
  · simp [he.typed, he.ty, ConstructTyped]

theorem judged_scalar (hkind : kind ≠ .float) (he : Judged Γ sc e v is)
    (hr : ResultsIn Γ (coerceScalarOut v kind n).2) :
    Judged Γ sc (.construct (.scalar kind) [e]) (coerceScalarOut v kind n).1
      (is ++ (coerceScalarOut v kind n).2) := by
  obtain ⟨hval, hty, htyped⟩ := coerceScalarOut_judged he.val hr
  refine ⟨?_, hval, ?_⟩
  · rw [hty]
    cases kind with
    | float => exact absurd rfl hkind
    | _ => simp [he.ty, constructTy]
  · simp [he.typed, he.ty, ConstructTyped, htyped, hkind]

theorem judged_broadcast {kind k : ScalarKind} {m : Nat} (hd : Describes Γ t sc)
    (he : Judged Γ sc e v is) (hv : v.ty = .scalar k)
    (hr : ResultsIn Γ [.compositeConstruct (vectorTypeId kind m) n (List.replicate m v.id)]) :
    Judged Γ sc (.construct (.vector kind m) [e]) ⟨n, .vector kind m⟩
      (is ++ [.compositeConstruct (vectorTypeId kind m) n (List.replicate m v.id)]) := by
  refine ⟨?_, .result rfl rfl hr, ?_⟩
  · simp [he.ty, constructTy]
  · have hvals : ∀ w ∈ List.replicate m v, HasTy Γ sc w := by
      intro w hw
      rw [List.eq_of_mem_replicate hw]
      exact he.val
    obtain ⟨ts, hts, htypes⟩ := exists_types hvals
    rw [List.map_replicate] at hts
    have hall : (∀ ty ∈ (List.replicate m v).map Val.ty, ∃ size, ty.shape = some (kind, size)) ∧
        (((List.replicate m v).map Val.ty).map Ty.width).sum = m ↔ m = 0 ∨ v.ty = .scalar kind := by
      rw [List.map_replicate, hv]
      cases m with
      | zero => simp
      | succ m => simp [Ty.shape, Ty.width]
    have hsup := (compositeConstruct_wellTyped (vectorTypeId kind m) n hts).trans
      ((supplies_iff hd.structsOk htypes).trans hall)
    simp [he.typed, he.ty, ConstructTyped, hsup]

theorem judged_assemble {args : List Expr} {m : Nat} (hd : Describes Γ t sc)
    (hlen : args.length ≠ 1) (ha : JudgedArgs Γ sc args vs is) (hvs : vs.length = args.length)
    (hr : ResultsIn Γ [.compositeConstruct (vectorTypeId kind m) n (vs.map Val.id)]) :
    Judged Γ sc (.construct (.vector kind m) args) ⟨n, .vector kind m⟩
      (is ++ [.compositeConstruct (vectorTypeId kind m) n (vs.map Val.id)]) := by
  refine ⟨?_, .result rfl rfl hr, ?_⟩
  · simp [ha.tys, constructTy]
  · obtain ⟨ts, hts, htypes⟩ := exists_types ha.vals
    have hsup := (compositeConstruct_wellTyped (vectorTypeId kind m) n hts).trans
      (supplies_iff hd.structsOk htypes)
    have hlen : (vs.map Val.ty).length ≠ 1 := by
      rw [List.length_map, hvs]
      exact hlen
    have hconstruct := constructTyped_assemble kind m hlen
    unfold Scope.Typed
    rw [allWellTyped_append, ha.typed, allWellTyped_cons, hsup, ← hconstruct]
    simp [ha.tys]

theorem judged_assign (hp : PlaceJudged Γ sc lhs p is g) (he : Judged Γ sc rhs v is')
    (hr : ResultsIn Γ (coerceOut v p.ty n).2) :
    Judged Γ sc (.binary .assign lhs rhs) (coerceOut v p.ty n).1
      (is ++ is' ++ (coerceOut v p.ty n).2 ++ [.store p.ptr (coerceOut v p.ty n).1.id]) := by
  obtain ⟨hval, hty, htyped⟩ := coerceOut_judged he.val hr
  refine ⟨?_, hval, ?_⟩
  · rw [hty]
    simp [hp.place, he.ty, hp.ty]
  · obtain ⟨st, hst, hid⟩ := hval
    rw [hty] at hst
    have hstore := store_wellTyped hp.ptr hid
    simp [Scope.AssignTyped, hp.typed, hp.place, hp.ty, he.typed, he.ty, htyped, hst, hstore]

theorem judged_compound {op core : BinaryOp} {i : Spirv.Inst} {n₁ n₂ : Spirv.Id}
    (hd : Describes Γ t sc) (hop : coreOp op = some core) (hp : PlaceJudged Γ sc lhs p is g)
    (hty : t.typeId p.ty = .ok st) (he : Judged Γ sc rhs v is')
    (hi : BinaryCode t core ⟨n₁, p.ty⟩ v n₂ r i) (hr : ResultsIn Γ [.load st n₁ p.ptr, i]) :
    Judged Γ sc (.binary op lhs rhs) r
      (is ++ .load st n₁ p.ptr :: is' ++ [i, .store p.ptr r.id]) := by
  obtain ⟨hcmp, hlog, hne⟩ := coreOp_arith hop
  have hst := valueTypeOf_of_typeOf (hd.typeOf hty)
  have hcur : HasTy Γ sc ⟨n₁, p.ty⟩ :=
    ⟨st, hst, hr _ List.mem_cons_self (n₁, st) rfl⟩
  obtain ⟨hval, htyped, hrty⟩ :=
    hi.judged hd hcur he.val (hr i (List.mem_cons_of_mem _ List.mem_cons_self))
  simp only [hcmp, hlog, Bool.false_eq_true, if_false] at hrty
  refine ⟨?_, hval, ?_⟩
  · simp [hne, hop, hp.place, he.ty, hp.ty, hrty]
  · obtain ⟨sr, hsr, hid⟩ := hval
    rw [hrty] at hsr
    have hload := load_wellTyped st n₁ hp.ptr
    have hstore := store_wellTyped hp.ptr hid
    simp [hne, hop, hp.typed, hp.place, hp.ty, he.typed, he.ty, hst, hsr, hload, hstore, htyped]
    tauto

theorem judged_binary {op : BinaryOp} {i : Spirv.Inst} (hd : Describes Γ t sc)
    (hop : op ≠ .assign ∧ coreOp op = none) (hl : Judged Γ sc lhs l is) (hr : Judged Γ sc rhs r is')
    (hi : BinaryCode t op l r n v i) (hres : ResultsIn Γ [i]) :
    Judged Γ sc (.binary op lhs rhs) v (is ++ is' ++ [i]) := by
  obtain ⟨hval, htyped, hty⟩ := hi.judged hd hl.val hr.val (hres i List.mem_cons_self)
  refine ⟨?_, hval, ?_⟩
  · rw [hty]
    simp only [Scope.valTy, hop.1, hop.2, if_false, hl.ty, hr.ty]
    split_ifs <;> rfl
  · simp [hop.1, hop.2, hl.typed, hr.typed, hl.ty, hr.ty, htyped]

theorem judged_unary {op : UnaryOp} {o : Spirv.UnaryOp} (hd : Describes Γ t sc)
    (he : Judged Γ sc e v is) (hty : t.typeId v.ty = .ok st) (ho : unaryOpcode op v.ty = some o)
    (hr : ResultsIn Γ [.unary o st n v.id]) :
    Judged Γ sc (.unary op e) ⟨n, v.ty⟩ (is ++ [.unary o st n v.id]) := by
  have hst := valueTypeOf_of_typeOf (hd.typeOf hty)
  refine ⟨?_, .result hst rfl hr, ?_⟩
  · simp [he.ty]
  · obtain ⟨sv, hsv, hid⟩ := he.val
    rw [hst] at hsv
    cases hsv
    have hop := (unary_wellTyped o st n hid).trans
      (unaryOpcode_accepts hd.structsOk hst ho)
    simp [he.typed, he.ty, hop]

theorem judged_convert {o : Spirv.UnaryOp} (hd : Describes Γ t sc) (he : Judged Γ sc e v is)
    (hty : t.typeId ty = .ok st) (ho : castOp v.ty ty = some o)
    (hr : ResultsIn Γ [.unary o st n v.id]) :
    Judged Γ sc (.cast ty e) ⟨n, ty⟩ (is ++ [.unary o st n v.id]) := by
  have hst := valueTypeOf_of_typeOf (hd.typeOf hty)
  refine ⟨by simp, .result hst rfl hr, ?_⟩
  obtain ⟨sv, hsv, hid⟩ := he.val
  have hop := (unary_wellTyped o st n hid).mpr (castOp_accepts hsv hst ho)
  simp [he.typed, hop]

theorem judged_castSame (he : Judged Γ sc e v is) (hv : v.ty = ty) :
    Judged Γ sc (.cast ty e) v is := by
  refine ⟨?_, he.val, ?_⟩
  · simp [hv]
  · simp [he.typed]

theorem judged_dot {a b : Expr} (hd : Describes Γ t sc) (ha : Judged Γ sc a l is)
    (hb : Judged Γ sc b r is') (hty : t.typeId l.ty.scalarPart = .ok st)
    (hr : ResultsIn Γ [.binary .dot st n l.id r.id]) :
    Judged Γ sc (.call "dot" [a, b]) ⟨n, l.ty.scalarPart⟩
      (is ++ is' ++ [.binary .dot st n l.id r.id]) := by
  have hst := valueTypeOf_of_typeOf (hd.typeOf hty)
  refine ⟨?_, .result hst rfl hr, ?_⟩
  · simp [ha.ty, hb.ty, callTy]
  · obtain ⟨tl, htl, hlid⟩ := ha.val
    obtain ⟨tr, htr, hrid⟩ := hb.val
    have hdot := (binary_wellTyped _ st n hlid hrid).trans
      (dot_accepts hd.structsOk htl htr hst)
    simp [ha.typed, hb.typed, ha.ty, hb.ty, hdot, and_assoc]

theorem callTyped_mul (a b : Ty) : CallTyped "mul" [a, b] ↔ ProductTyped a b := by
  simp [CallTyped]

theorem judged_mul {a b : Expr} {i : Spirv.Inst} (hd : Describes Γ t sc) (ha : Judged Γ sc a l is)
    (hb : Judged Γ sc b r is') (hm : matrixProduct l.ty r.ty = none)
    (hi : BinaryCode t .mul l r n v i) (hr : ResultsIn Γ [i]) :
    Judged Γ sc (.call "mul" [a, b]) v (is ++ is' ++ [i]) := by
  obtain ⟨hval, htyped, hty⟩ := hi.judged hd ha.val hb.val (hr i List.mem_cons_self)
  refine ⟨?_, hval, ?_⟩
  · rw [hty]
    simp [ha.ty, hb.ty, callTy, productTy, hm, isComparison, isLogical]
  · have hmul := htyped.trans ((productTyped_of_none hm).symm.trans (callTyped_mul _ _).symm)
    simp [ha.typed, hb.typed, ha.ty, hb.ty, hmul, and_assoc]

theorem judged_mulMatrix {a b : Expr} {o : Spirv.BinaryOp} (hd : Describes Γ t sc)
    (ha : Judged Γ sc a l is) (hb : Judged Γ sc b r is')
    (hm : matrixProduct l.ty r.ty = some (.ok (o, ty))) (hty : t.typeId ty = .ok st)
    (hr : ResultsIn Γ [.binary o st n l.id r.id]) :
    Judged Γ sc (.call "mul" [a, b]) ⟨n, ty⟩ (is ++ is' ++ [.binary o st n l.id r.id]) := by
  have hst := valueTypeOf_of_typeOf (hd.typeOf hty)
  refine ⟨?_, .result hst rfl hr, ?_⟩
  · simp [ha.ty, hb.ty, callTy, productTy, hm]
  · obtain ⟨tl, htl, hlid⟩ := ha.val
    obtain ⟨tr, htr, hrid⟩ := hb.val
    have hmul := (binary_wellTyped _ st n hlid hrid).trans
      ((matrixProduct_accepts htl htr hm hst).trans (callTyped_mul _ _).symm)
    simp [ha.typed, hb.typed, ha.ty, hb.ty, hmul, and_assoc]

theorem judged_intrinsic {args : List Expr} {ext : Nat} {set : Spirv.Id} (hd : Describes Γ t sc)
    (hname : intrinsics.lookup name = some (ext, args.length)) (ha : JudgedArgs Γ sc args vs is)
    (hvs : vs.length = args.length) (hty : t.typeId (intrinsicTy name vs) = .ok st)
    (hr : ResultsIn Γ [.extInst st n set ext (vs.map Val.id)]) :
    Judged Γ sc (.call name args) ⟨n, intrinsicTy name vs⟩
      (is ++ [.extInst st n set ext (vs.map Val.id)]) := by
  have hst := valueTypeOf_of_typeOf (hd.typeOf hty)
  obtain ⟨-, -, hdot, hmul, hpos⟩ := intrinsics_lookup hname
  refine ⟨?_, .result hst rfl hr, ?_⟩
  · have hlast : (vs.map Val.ty).getLast? = some ((vs.map Val.ty).getLast?.getD (.scalar .float)) := by
      cases vs with
      | nil =>
        rw [← hvs] at hpos
        cases hpos
      | cons v vs => simp [List.getLast?_cons]
    rw [intrinsicTy_eq]
    unfold Scope.valTy
    rw [ha.tys]
    show callTy name (vs.map Val.ty) = _
    unfold callTy
    rw [if_neg hdot, if_neg hmul]
    by_cases hl : name = "length"
    · rw [if_pos hl, if_pos hl]
    · rw [if_neg hl, if_neg hl]
      exact hlast
  · obtain ⟨ts, hts, htypes⟩ := exists_types ha.vals
    rw [intrinsicTy_eq] at hst
    have hlen : args.length = (vs.map Val.ty).length := by rw [List.length_map, hvs]
    have hext := (extInst_wellTyped st n set ext hts).trans
      (ext_accepts hd.structsOk htypes (hlen ▸ hname) hst)
    unfold Scope.Typed
    rw [allWellTyped_append, ha.typed, allWellTyped_cons, hext]
    simp [ha.tys]

theorem broadcast_wellTyped {m : Nat} {lo : Spirv.Id} (hlo : Γ.ty lo = some .float) :
    (Spirv.Inst.compositeConstruct (vectorTypeId .float m) n (List.replicate m lo)).WellTyped Γ := by
  refine ⟨List.replicate m .float, ?_, .float, m, rfl, ?_, ?_⟩
  · rw [List.map_replicate, List.map_replicate, hlo]
  · exact fun u hu => Or.inl (List.eq_of_mem_replicate hu)
  · simp [Spirv.Ty.width]

theorem clampBounds_judged {lo hi lo' hi' : Spirv.Id} (hlo : Γ.ty lo = some .float)
    (hhi : Γ.ty hi = some .float) (h : clampBounds ty lo hi n = some (lo', hi', is))
    (hr : ResultsIn Γ is) :
    AllWellTyped Γ is ∧ ∃ k size, ty.shape = some (k, size) ∧
      Γ.ty lo' = some (shapeTy .float size) ∧ Γ.ty hi' = some (shapeTy .float size) := by
  cases ty with
  | scalar k =>
    cases h
    exact ⟨allWellTyped_nil, k, none, rfl, hlo, hhi⟩
  | vector k m =>
    cases h
    refine ⟨?_, k, some m, rfl, ?_, ?_⟩
    · simp [broadcast_wellTyped, hlo, hhi]
    · exact hr _ List.mem_cons_self (n, _) rfl
    · exact hr _ (List.mem_cons_of_mem _ List.mem_cons_self) (n + 1, _) rfl
  | _ => cases h

theorem judged_saturate {lo hi lo' hi' set : Spirv.Id} (hd : Describes Γ t sc)
    (he : Judged Γ sc e v is) (hty : t.typeId v.ty = .ok st) (hlo : Γ.ty lo = some .float)
    (hhi : Γ.ty hi = some .float) {n' : Spirv.Id}
    (hbounds : clampBounds v.ty lo hi n' = some (lo', hi', is'))
    (hr : ResultsIn Γ (is' ++ [.extInst st n set glslFClamp [v.id, lo', hi']])) :
    Judged Γ sc (.call "saturate" [e]) ⟨n, v.ty⟩
      (is ++ is' ++ [.extInst st n set glslFClamp [v.id, lo', hi']]) := by
  rw [resultsIn_append] at hr
  have hst := valueTypeOf_of_typeOf (hd.typeOf hty)
  refine ⟨?_, .result hst rfl hr.2, ?_⟩
  · simp [he.ty, callTy]
  · obtain ⟨htyped, k, size, hsh, hlo', hhi'⟩ := clampBounds_judged hlo hhi hbounds hr.1
    obtain ⟨sv, hsv, hid⟩ := he.val
    rw [hst] at hsv
    cases hsv
    have hshape := (shape_iff hd.structsOk hst _ _).mp hsh
    have hts : [v.id, lo', hi'].map Γ.ty =
        [st, shapeTy .float size, shapeTy .float size].map some := by
      simp [hid, hlo', hhi']
    have hacc : Spirv.ExtAccepts glslFClamp st [st, shapeTy .float size, shapeTy .float size] ↔
        CallTyped "saturate" [v.ty] := by
      have hcall : CallTyped "saturate" [v.ty] ↔ k = .float := by
        simp [CallTyped, hsh]
      rw [hcall, hshape]
      constructor
      · rintro ⟨hf, -⟩
        exact shapeTy_isFloat.mp hf
      · rintro rfl
        refine ⟨shapeTy_isFloat.mpr rfl, fun h => absurd h (by decide), ?_⟩
        simp
    have hext := (extInst_wellTyped st n set glslFClamp hts).trans hacc
    simp [he.typed, he.ty, htyped, hext]

/-- A texture is loaded as a sampled image, which is no image to sample. -/
theorem judged_sample {base sampler coord : Expr} {ptr sid cid n₁ n₂ n₃ : Spirv.Id}
    {is'' : List Spirv.Inst}
    (hr : ResultsIn Γ [.load .sampledImage n₁ ptr,
      .imageSampleImplicitLod (vectorTypeId .float 4) n₃ n₂ cid]) :
    Judged Γ sc (.methodCall base "Sample" [sampler, coord]) ⟨n₃, .vector .float 4⟩
      (is ++ .load .sampledImage n₁ ptr :: is' ++ is'' ++
        [.sampledImage .sampledImage n₂ n₁ sid,
          .imageSampleImplicitLod (vectorTypeId .float 4) n₃ n₂ cid]) := by
  refine ⟨by simp, .result rfl rfl (resultsIn_cons.mp hr).2, ?_⟩
  have hload := hr _ List.mem_cons_self (n₁, .sampledImage) rfl
  have himage : ¬ (Spirv.Inst.sampledImage .sampledImage n₂ n₁ sid).WellTyped Γ := by
    rintro ⟨-, h, -⟩
    rw [hload] at h
    cases h
  simp [himage]

theorem judgedArgs_cons {es : List Expr} (he : Judged Γ sc e v is) (hs : JudgedArgs Γ sc es vs is') :
    JudgedArgs Γ sc (e :: es) (v :: vs) (is ++ is') := by
  refine ⟨?_, List.forall_mem_cons.mpr ⟨he.val, hs.vals⟩, ?_⟩
  · simp [he.ty, hs.tys]
  · simp [he.typed, hs.typed]

end

end

theorem CodeArgs.length {t : Tables} {es : List Expr} {n n' : Spirv.Id} {vs : List Val}
    {cs : List Spirv.Constant} {is : List Spirv.Inst} (h : CodeArgs t n es vs n' cs is) :
    vs.length = es.length := by
  induction es generalizing n vs cs is with
  | nil =>
    cases h
    rfl
  | cons e es ih =>
    cases h with
    | cons he hs => exact congrArg (· + 1) (ih hs)

/-- The instructions of an expression are well typed exactly when the expression is, by induction on
    the code: each rule says what its own instruction asks of the types of the operands. -/
theorem Code.judged {Γ : Spirv.Env} {t : Tables} {sc : Scope} (hd : Describes Γ t sc) {e : Expr}
    {n n' : Spirv.Id} {v : Val} {cs : List Spirv.Constant} {is : List Spirv.Inst}
    (h : Code t n e v n' cs is) : ConstsIn Γ cs → ResultsIn Γ is → Judged Γ sc e v is := by
  refine @Code.rec t (fun _ e v _ cs is _ => ConstsIn Γ cs → ResultsIn Γ is → Judged Γ sc e v is)
    (fun _ es vs _ cs is _ => ConstsIn Γ cs → ResultsIn Γ is → JudgedArgs Γ sc es vs is) ?literal
    ?ident ?field ?swizzle ?float ?scalar ?broadcast ?assemble ?assign ?compound ?binary ?unary
    ?convert ?castSame ?saturate ?dot ?mul ?mulMatrix ?intrinsic ?sample ?nil ?cons _ _ _ _ _ _ h
  case literal => exact fun n l hc _ => judged_literal l n hc
  case ident =>
    intro n n₁ x p cs is st hp hty hc hr
    rw [resultsIn_append] at hr
    obtain ⟨g, hg⟩ := hp.judged hd hc hr.1
    exact judged_ident hd hg hty hr.2
  case field =>
    intro n n₁ base member name p cs is st hbase hp hty hc hr
    rw [resultsIn_append] at hr
    obtain ⟨g, hg⟩ := hp.judged hd hc hr.1
    exact judged_field hd hbase hg (placeJudged_member_pointee hd hg hty) hty hr.2
  case swizzle =>
    intro n n₁ base member kind k v cs is comps hbase he hcomps ih hc hr
    rw [resultsIn_append] at hr
    exact judged_swizzle hd hbase (ih hc hr.1) hcomps hr.2
  case float => exact fun he ih hc hr => judged_float (ih hc hr)
  case scalar =>
    intro n n₁ kind e v cs is hkind he ih hc hr
    rw [resultsIn_append] at hr
    exact judged_scalar hkind (ih hc hr.1) hr.2
  case broadcast =>
    intro n n₁ kind k m e v cs is he hv ih hc hr
    rw [resultsIn_append] at hr
    exact judged_broadcast hd (ih hc hr.1) hv hr.2
  case assemble =>
    intro n n₁ kind m args vs cs is hlen ha ih hc hr
    rw [resultsIn_append] at hr
    exact judged_assemble hd hlen (ih hc hr.1) ha.length hr.2
  case assign =>
    intro n n₁ n₂ lhs rhs p v cs cs' is is' hp he ih hc hr
    rw [constsIn_append] at hc
    simp only [resultsIn_append] at hr
    obtain ⟨g, hg⟩ := hp.judged hd hc.1 hr.1.1.1
    exact judged_assign hg (ih hc.2 hr.1.1.2) hr.1.2
  case compound =>
    intro n n₁ n₂ op core lhs rhs p v r cs cs' is is' st i hop hp hty he hi ih hc hr
    rw [constsIn_append] at hc
    simp only [resultsIn_append, resultsIn_cons] at hr
    obtain ⟨⟨hris, hload, hris'⟩, hi', -⟩ := hr
    obtain ⟨g, hg⟩ := hp.judged hd hc.1 hris
    refine judged_compound hd hop hg hty (ih hc.2 hris') hi ?_
    simp only [resultsIn_cons]
    exact ⟨hload, hi', nofun⟩
  case binary =>
    intro n n₁ n₂ op lhs rhs l r v cs cs' is is' i hop hl hr' hv ihl ihr hc hr
    rw [constsIn_append] at hc
    simp only [resultsIn_append] at hr
    exact judged_binary hd hop (ihl hc.1 hr.1.1) (ihr hc.2 hr.1.2) hv hr.2
  case unary =>
    intro n n₁ op e v cs is o st he hty ho ih hc hr
    rw [resultsIn_append] at hr
    exact judged_unary hd (ih hc hr.1) hty ho hr.2
  case convert =>
    intro n n₁ ty e v cs is o st he hty ho ih hc hr
    rw [resultsIn_append] at hr
    exact judged_convert hd (ih hc hr.1) hty ho hr.2
  case castSame => exact fun he hty hv ih hc hr => judged_castSame (ih hc hr) hv
  case saturate =>
    intro n n₁ e v cs is is' st lo hi he hty hbounds ih hc hr
    rw [constsIn_append] at hc
    rw [List.append_assoc, resultsIn_append] at hr
    have hlo := (hc.2 _ List.mem_cons_self).1
    have hhi := (hc.2 _ (List.mem_cons_of_mem _ List.mem_cons_self)).1
    exact judged_saturate hd (ih hc.1 hr.1) hty hlo hhi hbounds hr.2
  case dot =>
    intro n n₁ n₂ a b va vb cs cs' is is' st ha hb hty iha ihb hc hr
    rw [constsIn_append] at hc
    simp only [resultsIn_append] at hr
    exact judged_dot hd (iha hc.1 hr.1.1) (ihb hc.2 hr.1.2) hty hr.2
  case mul =>
    intro n n₁ n₂ a b va vb v cs cs' is is' i ha hb hm hv iha ihb hc hr
    rw [constsIn_append] at hc
    simp only [resultsIn_append] at hr
    exact judged_mul hd (iha hc.1 hr.1.1) (ihb hc.2 hr.1.2) hm hv hr.2
  case mulMatrix =>
    intro n n₁ n₂ a b va vb cs cs' is is' o ty st ha hb hm hty iha ihb hc hr
    rw [constsIn_append] at hc
    simp only [resultsIn_append] at hr
    exact judged_mulMatrix hd (iha hc.1 hr.1.1) (ihb hc.2 hr.1.2) hm hty hr.2
  case intrinsic =>
    intro n n₁ name args vs cs is ext st hname ha hty ih hc hr
    rw [resultsIn_append] at hr
    exact judged_intrinsic hd hname (ih hc hr.1) ha.length hty hr.2
  case sample =>
    intro n n₁ n₂ n₃ base sampler coord p vs vc cs cs' cs'' is is' is'' hp hs hcode ihs ihc hc hr
    simp only [resultsIn_append, resultsIn_cons] at hr
    obtain ⟨⟨⟨-, hload, -⟩, -⟩, -, hsample, -⟩ := hr
    refine judged_sample ?_
    simp only [resultsIn_cons]
    exact ⟨hload, hsample, nofun⟩
  case nil =>
    intro n hc hr
    exact ⟨by simp [Scope.valTys], nofun, by simp [Scope.AllTyped]⟩
  case cons =>
    intro n n₁ n₂ e es v vs cs cs' is is' he hs ihe ihs hc hr
    rw [constsIn_append] at hc
    rw [resultsIn_append] at hr
    exact judgedArgs_cons (ihe hc.1 hr.1) (ihs hc.2 hr.2)

end WinCompat.Hlsl
