import WinCompat.Hlsl.Codegen

/-!
# What an expression is compiled to

`Code t n e v n' cs is` says that with the tables `t` and the ids from `n` on, `e` is compiled to the
constants `cs` and the instructions `is` of one block, with the value `v`, and the next id is `n'`.
`emitExpr_code` gets it from the emitter, once; what the emitted code is like is proved from it.
-/

namespace WinCompat.Hlsl

open Lib Lib.Comp

/-! ## Growth of the context -/

/-- The context with constants and instructions added and the next id set. -/
def Ctx.extend (s : Ctx) (n : Spirv.Id) (cs : List Spirv.Constant) (is : List Spirv.Inst) : Ctx :=
  { s with builder := { s.builder with
      nextId := n
      constants := s.builder.constants ++ cs
      func := s.builder.func.map (·.appendAll is) } }

@[simp] theorem Ctx.extend_toTables (s : Ctx) (n : Spirv.Id) (cs : List Spirv.Constant)
    (is : List Spirv.Inst) : (s.extend n cs is).toTables = s.toTables := rfl

@[simp] theorem Ctx.extend_nextId (s : Ctx) (n : Spirv.Id) (cs : List Spirv.Constant)
    (is : List Spirv.Inst) : (s.extend n cs is).builder.nextId = n := rfl

theorem Ctx.extend_extend (s : Ctx) (n n' : Spirv.Id) (cs cs' : List Spirv.Constant)
    (is is' : List Spirv.Inst) :
    (s.extend n cs is).extend n' cs' is' = s.extend n' (cs ++ cs') (is ++ is') := by
  unfold Ctx.extend
  simp only [List.append_assoc, Option.map_map]
  congr 3
  funext f
  exact Spirv.Function.appendAll_appendAll f is is'

theorem map_appendAll_nil (f : Option Spirv.Function) : f.map (·.appendAll []) = f := by
  cases f with
  | none => rfl
  | some f => exact congrArg some (Spirv.Function.appendAll_nil f)

theorem Ctx.extend_self (s : Ctx) : s.extend s.builder.nextId [] [] = s := by
  unfold Ctx.extend
  rw [map_appendAll_nil, List.append_nil]

/-- A block is selected. -/
def Ctx.Open (s : Ctx) : Prop := ∃ f b, s.builder.func = some f ∧ f.selected = some b

theorem Ctx.Open.extend {s : Ctx} (h : s.Open) (n : Spirv.Id) (cs : List Spirv.Constant)
    (is : List Spirv.Inst) : (s.extend n cs is).Open := by
  obtain ⟨f, b, hf, hb⟩ := h
  refine ⟨f.appendAll is, { b with body := b.body ++ is }, ?_, ?_⟩
  · show s.builder.func.map _ = _
    rw [hf]
    rfl
  · show f.selected.map _ = _
    rw [hb]
    rfl

/-! ## Builder calls -/

section

variable {s s' : Ctx} {id : Spirv.Id}

theorem builderId_ok (h : builderId s = .ok (id, s')) :
    s.builder.nextId = id ∧ s' = s.extend (s.builder.nextId + 1) [] [] := by
  cases h
  refine ⟨rfl, ?_⟩
  unfold Ctx.extend
  rw [map_appendAll_nil, List.append_nil]
  rfl

theorem constOp_ok {ty : Spirv.Ty} {bits : BitVec 32} (h : constOp ty bits s = .ok (id, s')) :
    s.builder.nextId = id ∧
      s' = s.extend (s.builder.nextId + 1) [⟨ty, s.builder.nextId, bits⟩] [] := by
  cases h
  refine ⟨rfl, ?_⟩
  unfold Ctx.extend
  rw [map_appendAll_nil]
  rfl

theorem append_ok (hs : s.Open) {what : String} {i : Spirv.Inst} {u : Unit}
    (h : append what i s = .ok (u, s')) : s' = s.extend s.builder.nextId [] [i] := by
  obtain ⟨f, b, hf, hb⟩ := hs
  unfold append onFunction Spirv.Builder.onFunction at h
  simp only [hf, Spirv.Function.append_eq hb] at h
  cases h
  unfold Ctx.extend
  rw [hf, List.append_nil]
  rfl

theorem appendResult_ok (hs : s.Open) {what : String} {i : Spirv.Id → Spirv.Inst}
    (h : appendResult what i s = .ok (id, s')) :
    s.builder.nextId = id ∧
      s' = s.extend (s.builder.nextId + 1) [] [i s.builder.nextId] := by
  obtain ⟨id', s1, h1, h⟩ := bind_eq_ok h
  obtain ⟨rfl, rfl⟩ := builderId_ok h1
  obtain ⟨_, s2, h2, h⟩ := bind_eq_ok h
  have := append_ok (hs.extend _ _ _) h2
  cases h
  refine ⟨rfl, ?_⟩
  rw [this, Ctx.extend_extend]
  rfl

theorem typeId_ok {ty : Ty} {st : Spirv.Ty} (h : typeId ty s = .ok (st, s')) :
    s.typeId ty = .ok st ∧ s = s' := read_eq_ok h

end

/-! ## Coercions and operators -/

/-- The value of `coerce_scalar` and its instruction. -/
def coerceScalarOut (v : Val) (kind : ScalarKind) (id : Spirv.Id) : Val × List Spirv.Inst :=
  if v.ty = .scalar kind then (v, [])
  else
    match coerceOp v.ty kind with
    | some op => (⟨id, .scalar kind⟩, [.unary op (scalarTypeId kind) id v.id])
    | none => (v, [])

/-- The value of `coerce` and its instruction. -/
def coerceOut (v : Val) (target : Ty) (id : Spirv.Id) : Val × List Spirv.Inst :=
  match v.ty, target with
  | .scalar _, .scalar kind => coerceScalarOut v kind id
  | _, _ => (v, [])

/-- The value of `coerce_to_bool` and its instruction. -/
def coerceToBoolOut (v : Val) (id : Spirv.Id) : Option (Spirv.Id × List Spirv.Inst) :=
  match v.ty with
  | .scalar .bool => some (v.id, [])
  | .vector .bool _ => some (id, [.unary .any .bool id v.id])
  | _ => none

/-- The opcode and the result type of an operator that is no assignment. -/
def binaryChoice (op : BinaryOp) (l r : Ty) : Option (Spirv.BinaryOp × Ty) :=
  if isComparison op then (comparisonOp op l.isFloat).map fun o => (o, inferComparison l)
  else if isLogical op then some (if op = .and then .logicalAnd else .logicalOr, .scalar .bool)
  else (arithOp op (arithTy l r)).map fun o => (o, arithTy l r)

/-- One instruction for a binary operator. -/
inductive BinaryCode (t : Tables) (op : BinaryOp) (l r : Val) (id : Spirv.Id) :
    Val → Spirv.Inst → Prop
  | intro {o : Spirv.BinaryOp} {ty : Ty} {st : Spirv.Ty}
      (hop : binaryChoice op l.ty r.ty = some (o, ty)) (hty : t.typeId ty = .ok st) :
      BinaryCode t op l r id ⟨id, ty⟩ (.binary o st id l.id r.id)

def swizzleTy (kind : ScalarKind) (comps : List Nat) : Ty :=
  match comps with
  | [_] => .scalar kind
  | _ => .vector kind comps.length

/-- One component is extracted; several take a shuffle of the vector with itself. -/
def swizzleInst (kind : ScalarKind) (comps : List Nat) (id base : Spirv.Id) : Spirv.Inst :=
  match comps with
  | [c] => .compositeExtract (scalarTypeId kind) id base [c]
  | _ => .vectorShuffle (vectorTypeId kind comps.length) id base base comps

/-- The bounds that `saturate` clamps to, and the instructions that broadcast them. -/
def clampBounds (ty : Ty) (lo hi id : Spirv.Id) :
    Option (Spirv.Id × Spirv.Id × List Spirv.Inst) :=
  match ty with
  | .scalar _ => some (lo, hi, [])
  | .vector _ n => some (id, id + 1,
      [.compositeConstruct (vectorTypeId .float n) id (List.replicate n lo),
        .compositeConstruct (vectorTypeId .float n) (id + 1) (List.replicate n hi)])
  | _ => none

def Literal.spirvTy : Literal → Spirv.Ty
  | .float _ => .float
  | .int _ => .int true
  | .uint _ => .int false
  | .bool _ => .bool

def Literal.bits : Literal → BitVec 32
  | .float bits => f32OfF64 bits
  | .int v => v.setWidth 32
  | .uint v => v.setWidth 32
  | .bool v => if v then 1 else 0

/-! ## The relation -/

/-- The code of `emit_place`. -/
inductive PlaceCode (t : Tables) : Spirv.Id → Expr → Place → Spirv.Id → List Spirv.Constant →
    List Spirv.Inst → Prop
  | local_ {n : Spirv.Id} {x : String} {l : Local} (hl : t.locals.lookup x = some l) :
      PlaceCode t n (.ident x) ⟨l.ptr, l.ty⟩ n [] []
  | cbuffer {n : Spirv.Id} {x : String} {var idx : Spirv.Id} {g : Global} {st : Spirv.Ty}
      (hl : t.locals.lookup x = none) (hc : t.cbufferMembers.lookup x = some (var, idx))
      (hg : t.globals.lookup x = some g) (hty : t.typeId g.ty = .ok st) :
      PlaceCode t n (.ident x) ⟨n, g.ty⟩ (n + 1) []
        [.accessChain (.pointer .uniform st) n var [idx]]
  | global {n : Spirv.Id} {x : String} {g : Global} (hl : t.locals.lookup x = none)
      (hc : t.cbufferMembers.lookup x = none) (hg : t.globals.lookup x = some g) :
      PlaceCode t n (.ident x) ⟨g.ptr, g.ty⟩ n [] []
  | member {n n₁ : Spirv.Id} {base : Expr} {member : String} {ptr : Spirv.Id} {name : String}
      {cs : List Spirv.Constant} {is : List Spirv.Inst} {info : StructInfo} {idx : Nat}
      {m : StructMember} {st : Spirv.Ty} (hbase : PlaceCode t n base ⟨ptr, .struct name⟩ n₁ cs is)
      (hinfo : t.structs.lookup name = some info)
      (hidx : info.members.findIdx? (·.name = member) = some idx)
      (hm : info.members.find? (·.name = member) = some m) (hty : t.typeId m.ty = .ok st) :
      PlaceCode t n (.member base member) ⟨n₁ + 1, m.ty⟩ (n₁ + 2)
        (cs ++ [⟨.int true, n₁, BitVec.ofNat 32 idx⟩])
        (is ++ [.accessChain (.pointer .function st) (n₁ + 1) ptr [n₁]])

mutual

/-- The code of `emit_expr`. -/
inductive Code (t : Tables) : Spirv.Id → Expr → Val → Spirv.Id → List Spirv.Constant →
    List Spirv.Inst → Prop
  | literal (n : Spirv.Id) (l : Literal) :
      Code t n (.literal l) ⟨n, l.ty⟩ (n + 1) [⟨l.spirvTy, n, l.bits⟩] []
  | ident {n n₁ : Spirv.Id} {x : String} {p : Place} {cs : List Spirv.Constant}
      {is : List Spirv.Inst} {st : Spirv.Ty} (hp : PlaceCode t n (.ident x) p n₁ cs is)
      (hty : t.valueTypeId p.ty = .ok st) :
      Code t n (.ident x) ⟨n₁, p.ty⟩ (n₁ + 1) cs (is ++ [.load st n₁ p.ptr])
  | field {n n₁ : Spirv.Id} {base : Expr} {member : String} {name : String} {p : Place}
      {cs : List Spirv.Constant} {is : List Spirv.Inst} {st : Spirv.Ty}
      (hbase : t.inferType base = .ok (.struct name))
      (hp : PlaceCode t n (.member base member) p n₁ cs is) (hty : t.typeId p.ty = .ok st) :
      Code t n (.member base member) ⟨n₁, p.ty⟩ (n₁ + 1) cs (is ++ [.load st n₁ p.ptr])
  | swizzle {n n₁ : Spirv.Id} {base : Expr} {member : String} {kind : ScalarKind} {k : Nat}
      {v : Val} {cs : List Spirv.Constant} {is : List Spirv.Inst} {comps : List Nat}
      (hbase : t.inferType base = .ok (.vector kind k)) (he : Code t n base v n₁ cs is)
      (hcomps : decodeSwizzle member = some comps) :
      Code t n (.member base member) ⟨n₁, swizzleTy kind comps⟩ (n₁ + 1) cs
        (is ++ [swizzleInst kind comps n₁ v.id])
  | float {n n₁ : Spirv.Id} {e : Expr} {v : Val} {cs : List Spirv.Constant}
      {is : List Spirv.Inst} (he : Code t n e v n₁ cs is) :
      Code t n (.construct (.scalar .float) [e]) v n₁ cs is
  | scalar {n n₁ : Spirv.Id} {kind : ScalarKind} {e : Expr} {v : Val} {cs : List Spirv.Constant}
      {is : List Spirv.Inst} (hkind : kind ≠ .float) (he : Code t n e v n₁ cs is) :
      Code t n (.construct (.scalar kind) [e]) (coerceScalarOut v kind n₁).1
        (n₁ + (coerceScalarOut v kind n₁).2.length) cs (is ++ (coerceScalarOut v kind n₁).2)
  | broadcast {n n₁ : Spirv.Id} {kind k : ScalarKind} {m : Nat} {e : Expr} {v : Val}
      {cs : List Spirv.Constant} {is : List Spirv.Inst} (he : Code t n e v n₁ cs is)
      (hv : v.ty = .scalar k) :
      Code t n (.construct (.vector kind m) [e]) ⟨n₁, .vector kind m⟩ (n₁ + 1) cs
        (is ++ [.compositeConstruct (vectorTypeId kind m) n₁ (List.replicate m v.id)])
  | assemble {n n₁ : Spirv.Id} {kind : ScalarKind} {m : Nat} {args : List Expr} {vs : List Val}
      {cs : List Spirv.Constant} {is : List Spirv.Inst} (hlen : args.length ≠ 1)
      (ha : CodeArgs t n args vs n₁ cs is) :
      Code t n (.construct (.vector kind m) args) ⟨n₁, .vector kind m⟩ (n₁ + 1) cs
        (is ++ [.compositeConstruct (vectorTypeId kind m) n₁ (vs.map Val.id)])
  | assign {n n₁ n₂ : Spirv.Id} {lhs rhs : Expr} {p : Place} {v : Val}
      {cs cs' : List Spirv.Constant} {is is' : List Spirv.Inst} (hp : PlaceCode t n lhs p n₁ cs is)
      (he : Code t n₁ rhs v n₂ cs' is') :
      Code t n (.binary .assign lhs rhs) (coerceOut v p.ty n₂).1
        (n₂ + (coerceOut v p.ty n₂).2.length) (cs ++ cs')
        (is ++ is' ++ (coerceOut v p.ty n₂).2 ++ [.store p.ptr (coerceOut v p.ty n₂).1.id])
  | compound {n n₁ n₂ : Spirv.Id} {op core : BinaryOp} {lhs rhs : Expr} {p : Place} {v r : Val}
      {cs cs' : List Spirv.Constant} {is is' : List Spirv.Inst} {st : Spirv.Ty} {i : Spirv.Inst}
      (hop : coreOp op = some core) (hp : PlaceCode t n lhs p n₁ cs is)
      (hty : t.typeId p.ty = .ok st) (he : Code t (n₁ + 1) rhs v n₂ cs' is')
      (hr : BinaryCode t core ⟨n₁, p.ty⟩ v n₂ r i) :
      Code t n (.binary op lhs rhs) r (n₂ + 1) (cs ++ cs')
        (is ++ .load st n₁ p.ptr :: is' ++ [i, .store p.ptr r.id])
  | binary {n n₁ n₂ : Spirv.Id} {op : BinaryOp} {lhs rhs : Expr} {l r v : Val}
      {cs cs' : List Spirv.Constant} {is is' : List Spirv.Inst} {i : Spirv.Inst}
      (hop : op ≠ .assign ∧ coreOp op = none) (hl : Code t n lhs l n₁ cs is)
      (hr : Code t n₁ rhs r n₂ cs' is') (hv : BinaryCode t op l r n₂ v i) :
      Code t n (.binary op lhs rhs) v (n₂ + 1) (cs ++ cs') (is ++ is' ++ [i])
  | unary {n n₁ : Spirv.Id} {op : UnaryOp} {e : Expr} {v : Val} {cs : List Spirv.Constant}
      {is : List Spirv.Inst} {o : Spirv.UnaryOp} {st : Spirv.Ty} (he : Code t n e v n₁ cs is)
      (hty : t.typeId v.ty = .ok st) (ho : unaryOpcode op v.ty = some o) :
      Code t n (.unary op e) ⟨n₁, v.ty⟩ (n₁ + 1) cs (is ++ [.unary o st n₁ v.id])
  | convert {n n₁ : Spirv.Id} {ty : Ty} {e : Expr} {v : Val} {cs : List Spirv.Constant}
      {is : List Spirv.Inst} {o : Spirv.UnaryOp} {st : Spirv.Ty} (he : Code t n e v n₁ cs is)
      (hty : t.typeId ty = .ok st) (ho : castOp v.ty ty = some o) :
      Code t n (.cast ty e) ⟨n₁, ty⟩ (n₁ + 1) cs (is ++ [.unary o st n₁ v.id])
  | castSame {n n₁ : Spirv.Id} {ty : Ty} {e : Expr} {v : Val} {cs : List Spirv.Constant}
      {is : List Spirv.Inst} {st : Spirv.Ty} (he : Code t n e v n₁ cs is)
      (hty : t.typeId ty = .ok st) (hv : v.ty = ty) : Code t n (.cast ty e) v n₁ cs is
  | saturate {n n₁ : Spirv.Id} {e : Expr} {v : Val} {cs : List Spirv.Constant}
      {is is' : List Spirv.Inst} {st : Spirv.Ty} {lo hi : Spirv.Id} (he : Code t n e v n₁ cs is)
      (hty : t.typeId v.ty = .ok st)
      (hbounds : clampBounds v.ty n₁ (n₁ + 1) (n₁ + 2) = some (lo, hi, is')) :
      Code t n (.call "saturate" [e]) ⟨n₁ + 2 + is'.length, v.ty⟩ (n₁ + 2 + is'.length + 1)
        (cs ++ [⟨.float, n₁, f32OfF64 0⟩, ⟨.float, n₁ + 1, f32OfF64 0x3FF0000000000000⟩])
        (is ++ is' ++
          [.extInst st (n₁ + 2 + is'.length) t.glslSet glslFClamp [v.id, lo, hi]])
  | dot {n n₁ n₂ : Spirv.Id} {a b : Expr} {va vb : Val} {cs cs' : List Spirv.Constant}
      {is is' : List Spirv.Inst} {st : Spirv.Ty} (ha : Code t n a va n₁ cs is)
      (hb : Code t n₁ b vb n₂ cs' is') (hty : t.typeId va.ty.scalarPart = .ok st) :
      Code t n (.call "dot" [a, b]) ⟨n₂, va.ty.scalarPart⟩ (n₂ + 1) (cs ++ cs')
        (is ++ is' ++ [.binary .dot st n₂ va.id vb.id])
  | mul {n n₁ n₂ : Spirv.Id} {a b : Expr} {va vb v : Val} {cs cs' : List Spirv.Constant}
      {is is' : List Spirv.Inst} {i : Spirv.Inst} (ha : Code t n a va n₁ cs is)
      (hb : Code t n₁ b vb n₂ cs' is') (hm : matrixProduct va.ty vb.ty = none)
      (hv : BinaryCode t .mul va vb n₂ v i) :
      Code t n (.call "mul" [a, b]) v (n₂ + 1) (cs ++ cs') (is ++ is' ++ [i])
  | mulMatrix {n n₁ n₂ : Spirv.Id} {a b : Expr} {va vb : Val} {cs cs' : List Spirv.Constant}
      {is is' : List Spirv.Inst} {o : Spirv.BinaryOp} {ty : Ty} {st : Spirv.Ty}
      (ha : Code t n a va n₁ cs is) (hb : Code t n₁ b vb n₂ cs' is')
      (hm : matrixProduct va.ty vb.ty = some (.ok (o, ty))) (hty : t.typeId ty = .ok st) :
      Code t n (.call "mul" [a, b]) ⟨n₂, ty⟩ (n₂ + 1) (cs ++ cs')
        (is ++ is' ++ [.binary o st n₂ va.id vb.id])
  | intrinsic {n n₁ : Spirv.Id} {name : String} {args : List Expr} {vs : List Val}
      {cs : List Spirv.Constant} {is : List Spirv.Inst} {ext : Nat} {st : Spirv.Ty}
      (hname : intrinsics.lookup name = some (ext, args.length))
      (ha : CodeArgs t n args vs n₁ cs is) (hty : t.typeId (intrinsicTy name vs) = .ok st) :
      Code t n (.call name args) ⟨n₁, intrinsicTy name vs⟩ (n₁ + 1) cs
        (is ++ [.extInst st n₁ t.glslSet ext (vs.map Val.id)])
  | sample {n n₁ n₂ n₃ : Spirv.Id} {base sampler coord : Expr} {p : Place} {vs vc : Val}
      {cs cs' cs'' : List Spirv.Constant} {is is' is'' : List Spirv.Inst}
      (hp : PlaceCode t n base p n₁ cs is) (hs : Code t (n₁ + 1) sampler vs n₂ cs' is')
      (hc : Code t n₂ coord vc n₃ cs'' is'') :
      Code t n (.methodCall base "Sample" [sampler, coord]) ⟨n₃ + 1, .vector .float 4⟩ (n₃ + 2)
        (cs ++ cs' ++ cs'')
        (is ++ .load .sampledImage n₁ p.ptr :: is' ++ is'' ++
          [.sampledImage .sampledImage n₃ n₁ vs.id,
            .imageSampleImplicitLod (vectorTypeId .float 4) (n₃ + 1) n₃ vc.id])

inductive CodeArgs (t : Tables) : Spirv.Id → List Expr → List Val → Spirv.Id →
    List Spirv.Constant → List Spirv.Inst → Prop
  | nil (n : Spirv.Id) : CodeArgs t n [] [] n [] []
  | cons {n n₁ n₂ : Spirv.Id} {e : Expr} {es : List Expr} {v : Val} {vs : List Val}
      {cs cs' : List Spirv.Constant} {is is' : List Spirv.Inst} (he : Code t n e v n₁ cs is)
      (hs : CodeArgs t n₁ es vs n₂ cs' is') :
      CodeArgs t n (e :: es) (v :: vs) n₂ (cs ++ cs') (is ++ is')

end

/-! ## The emitter emits the code -/

attribute [local simp] Ctx.extend_extend

/-- Whatever `x` returns, it has added the code that `C` describes. -/
def Realises {α : Type} (t : Tables) (x : Cg α)
    (C : Spirv.Id → α → Spirv.Id → List Spirv.Constant → List Spirv.Inst → Prop) : Prop :=
  ∀ s a s', s.Open → s.toTables = t → x s = .ok (a, s') →
    ∃ n cs is, C s.builder.nextId a n cs is ∧ s' = s.extend n cs is

variable {t : Tables}

theorem realises_literal (l : Literal) : Realises t (emitLiteral l) (Code t · (.literal l)) := by
  intro s v s' hs ht h
  cases l with
  | float bits | int bits | uint bits | bool bits =>
    obtain ⟨id, s1, h1, h⟩ := bind_eq_ok h
    obtain ⟨rfl, rfl⟩ := constOp_ok h1
    cases h
    exact ⟨_, _, _, .literal _ _, rfl⟩

theorem realises_place_ident (x : String) :
    Realises t (emitPlace (.ident x)) (PlaceCode t · (.ident x)) := by
  intro s p s' hs ht h
  obtain ⟨s0, s1, h0, h⟩ := bind_eq_ok h
  cases h0
  subst ht
  cases hl : s.locals.lookup x with
  | some l =>
    simp only [hl] at h
    cases h
    exact ⟨_, _, _, .local_ hl, (Ctx.extend_self s).symm⟩
  | none =>
    cases hc : s.cbufferMembers.lookup x with
    | some r =>
      obtain ⟨var, idx⟩ := r
      cases hg : s.globals.lookup x with
      | some g =>
        simp only [hl, hc, hg] at h
        obtain ⟨st, s1, h1, h⟩ := bind_eq_ok h
        obtain ⟨hty, rfl⟩ := typeId_ok h1
        obtain ⟨id, s2, h2, h⟩ := bind_eq_ok h
        obtain ⟨rfl, rfl⟩ := appendResult_ok hs h2
        cases h
        exact ⟨_, _, _, .cbuffer hl hc hg hty, rfl⟩
      | none =>
        simp only [hl, hc, hg] at h
        cases h
    | none =>
      cases hg : s.globals.lookup x with
      | some g =>
        simp only [hl, hc, hg] at h
        cases h
        exact ⟨_, _, _, .global hl hc hg, (Ctx.extend_self s).symm⟩
      | none =>
        simp only [hl, hc, hg] at h
        cases h

theorem realises_place_member {base : Expr} (member : String)
    (ih : Realises t (emitPlace base) (PlaceCode t · base)) :
    Realises t (emitPlace (.member base member)) (PlaceCode t · (.member base member)) := by
  intro s p s' hs ht h
  obtain ⟨pb, s1, h1, h⟩ := bind_eq_ok h
  obtain ⟨n, cs, is, hbase, rfl⟩ := ih s pb s1 hs ht h1
  subst ht
  obtain ⟨ptr, pty⟩ := pb
  cases pty with
  | struct name =>
    obtain ⟨s0, s2, h2, h⟩ := bind_eq_ok h
    cases h2
    simp only [Ctx.extend_toTables] at h
    cases hinfo : s.structs.lookup name with
    | none =>
      simp only [hinfo] at h
      cases h
    | some info =>
      cases hidx : info.members.findIdx? (·.name = member) with
      | none =>
        simp only [hinfo, hidx] at h
        cases h
      | some idx =>
        cases hm : info.members.find? (·.name = member) with
        | none =>
          simp only [hinfo, hidx, hm] at h
          cases h
        | some m =>
          simp only [hinfo, hidx, hm] at h
          obtain ⟨c, s3, h3, h⟩ := bind_eq_ok h
          obtain ⟨rfl, rfl⟩ := constOp_ok h3
          obtain ⟨st, s4, h4, h⟩ := bind_eq_ok h
          obtain ⟨hty, rfl⟩ := typeId_ok h4
          obtain ⟨id, s5, h5, h⟩ := bind_eq_ok h
          obtain ⟨rfl, rfl⟩ := appendResult_ok ((hs.extend _ _ _).extend _ _ _) h5
          cases h
          refine ⟨_, _, _, .member hbase hinfo hidx hm hty, ?_⟩
          simp
  | _ => cases h

theorem realises_place : ∀ e : Expr, Realises t (emitPlace e) (PlaceCode t · e)
  | .ident x => realises_place_ident x
  | .member base member => realises_place_member member (realises_place base)
  | .literal _ | .construct _ _ | .call _ _ | .methodCall _ _ _ | .binary _ _ _ | .unary _ _
  | .cast _ _ => fun _ _ _ _ _ h => nomatch h

theorem loadPlace_ok {tyId : Ty → Cg Spirv.Ty} {typeOf : Tables → Ty → Outcome CodegenError Spirv.Ty}
    (htyId : ∀ ty, tyId ty = Comp.read fun s => typeOf s.toTables ty) {s s' : Ctx} {p : Place}
    {v : Val} (hs : s.Open) (h : loadPlace p tyId s = .ok (v, s')) :
    ∃ st, typeOf s.toTables p.ty = .ok st ∧ v = ⟨s.builder.nextId, p.ty⟩ ∧
      s' = s.extend (s.builder.nextId + 1) [] [.load st s.builder.nextId p.ptr] := by
  obtain ⟨st, s2, h2, h⟩ := bind_eq_ok h
  rw [htyId] at h2
  obtain ⟨hty, rfl⟩ := read_eq_ok h2
  obtain ⟨id, s3, h3, h⟩ := bind_eq_ok h
  obtain ⟨rfl, rfl⟩ := appendResult_ok hs h3
  cases h
  exact ⟨st, hty, rfl, rfl⟩

theorem coerceScalar_ok {s s' : Ctx} {v v' : Val} {kind : ScalarKind} (hs : s.Open)
    (h : coerceScalar v kind s = .ok (v', s')) :
    v' = (coerceScalarOut v kind s.builder.nextId).1 ∧
      s' = s.extend (s.builder.nextId + (coerceScalarOut v kind s.builder.nextId).2.length) []
        (coerceScalarOut v kind s.builder.nextId).2 := by
  unfold coerceScalar at h
  unfold coerceScalarOut
  by_cases hk : v.ty = .scalar kind
  · rw [if_pos hk] at h ⊢
    cases h
    exact ⟨rfl, (Ctx.extend_self _).symm⟩
  · rw [if_neg hk] at h ⊢
    cases hop : coerceOp v.ty kind with
    | some op =>
      simp only [hop] at h
      obtain ⟨id, s1, h1, h⟩ := bind_eq_ok h
      obtain ⟨rfl, rfl⟩ := appendResult_ok hs h1
      cases h
      exact ⟨rfl, rfl⟩
    | none =>
      simp only [hop] at h
      cases h
      exact ⟨rfl, (Ctx.extend_self _).symm⟩

theorem coerceOut_same (v : Val) (id : Spirv.Id) : coerceOut v v.ty id = (v, []) := by
  unfold coerceOut
  cases hv : v.ty with
  | scalar k =>
    unfold coerceScalarOut
    simp only [hv, if_pos]
  | _ => rfl

theorem coerce_ok {s s' : Ctx} {v v' : Val} {target : Ty} (hs : s.Open)
    (h : coerce v target s = .ok (v', s')) :
    v' = (coerceOut v target s.builder.nextId).1 ∧
      s' = s.extend (s.builder.nextId + (coerceOut v target s.builder.nextId).2.length) []
        (coerceOut v target s.builder.nextId).2 := by
  unfold coerce at h
  by_cases hk : v.ty = target
  · rw [if_pos hk] at h
    subst hk
    rw [coerceOut_same]
    cases h
    exact ⟨rfl, (Ctx.extend_self _).symm⟩
  · rw [if_neg hk] at h
    unfold coerceOut
    cases hv : v.ty with
    | scalar k =>
      cases target with
      | scalar kind =>
        simp only [hv] at h
        exact coerceScalar_ok hs h
      | _ =>
        simp only [hv] at h
        cases h
        exact ⟨rfl, (Ctx.extend_self _).symm⟩
    | _ =>
      simp only [hv] at h
      cases h
      exact ⟨rfl, (Ctx.extend_self _).symm⟩

theorem coerceToBool_ok {s s' : Ctx} {v : Val} {id : Spirv.Id} (hs : s.Open)
    (h : coerceToBool v s = .ok (id, s')) :
    ∃ is, coerceToBoolOut v s.builder.nextId = some (id, is) ∧
      s' = s.extend (s.builder.nextId + is.length) [] is := by
  unfold coerceToBool at h
  unfold coerceToBoolOut
  cases hv : v.ty with
  | scalar k =>
    simp only [hv] at h
    cases k
    case bool =>
      cases h
      exact ⟨[], rfl, (Ctx.extend_self _).symm⟩
    all_goals cases h
  | vector k m =>
    simp only [hv] at h
    cases k
    case bool =>
      obtain ⟨rfl, rfl⟩ := appendResult_ok hs h
      exact ⟨_, rfl, rfl⟩
    all_goals cases h
  | _ =>
    simp only [hv] at h
    cases h

variable {op : BinaryOp}

theorem binaryCode_arith {s s' : Ctx} {l r v : Val} (hs : s.Open) (hc : isComparison op = false)
    (hl : isLogical op = false) (h : emitArith op l r s = .ok (v, s')) :
    ∃ i, BinaryCode s.toTables op l r s.builder.nextId v i ∧
      s' = s.extend (s.builder.nextId + 1) [] [i] := by
  obtain ⟨st, s1, h1, h⟩ := bind_eq_ok h
  obtain ⟨hty, rfl⟩ := typeId_ok h1
  cases ho : arithOp op (arithTy l.ty r.ty) with
  | none =>
    simp only [ho] at h
    cases h
  | some o =>
    simp only [ho] at h
    obtain ⟨id, s2, h2, h⟩ := bind_eq_ok h
    obtain ⟨rfl, rfl⟩ := appendResult_ok hs h2
    cases h
    refine ⟨_, .intro ?_ hty, rfl⟩
    simp only [binaryChoice, hc, hl, ho, Bool.false_eq_true, if_false, Option.map_some]

theorem binaryCode_comparison {s s' : Ctx} {l r v : Val} (hs : s.Open) (hc : isComparison op = true)
    (h : emitComparison op l r s = .ok (v, s')) :
    ∃ i, BinaryCode s.toTables op l r s.builder.nextId v i ∧
      s' = s.extend (s.builder.nextId + 1) [] [i] := by
  obtain ⟨st, s1, h1, h⟩ := bind_eq_ok h
  obtain ⟨hty, rfl⟩ := typeId_ok h1
  cases ho : comparisonOp op l.ty.isFloat with
  | none =>
    simp only [ho] at h
    cases h
  | some o =>
    simp only [ho] at h
    obtain ⟨id, s2, h2, h⟩ := bind_eq_ok h
    obtain ⟨rfl, rfl⟩ := appendResult_ok hs h2
    cases h
    refine ⟨_, .intro ?_ hty, rfl⟩
    simp only [binaryChoice, hc, ho, if_true, Option.map_some]

theorem binaryCode_logical {s s' : Ctx} {l r v : Val} (hs : s.Open) (hc : isComparison op = false)
    (hl : isLogical op = true) (h : emitLogical op l r s = .ok (v, s')) :
    ∃ i, BinaryCode s.toTables op l r s.builder.nextId v i ∧
      s' = s.extend (s.builder.nextId + 1) [] [i] := by
  obtain ⟨id, s2, h2, h⟩ := bind_eq_ok h
  obtain ⟨rfl, rfl⟩ := appendResult_ok hs h2
  cases h
  refine ⟨_, .intro ?_ rfl, rfl⟩
  simp only [binaryChoice, hc, hl, Bool.false_eq_true, if_false, if_true]

section

variable {lhs rhs e : Expr}

theorem realises_assign (hr : Realises t (emitExpr rhs) (Code t · rhs)) (emitLhs : Cg Val) :
    Realises t (emitBinary .assign lhs emitLhs (emitExpr rhs)) (Code t · (.binary .assign lhs rhs)) := by
  intro s v s' hs ht h
  obtain ⟨p, s1, h1, h⟩ := bind_eq_ok h
  obtain ⟨n₁, cs, is, hp, rfl⟩ := realises_place lhs s p s1 hs ht h1
  obtain ⟨w, s2, h2, h⟩ := bind_eq_ok h
  obtain ⟨n₂, cs', is', he, rfl⟩ := hr _ w s2 (hs.extend _ _ _) ht h2
  obtain ⟨v', s3, h3, h⟩ := bind_eq_ok h
  obtain ⟨rfl, rfl⟩ := coerce_ok ((hs.extend _ _ _).extend _ _ _) h3
  obtain ⟨u, s4, h4, h⟩ := bind_eq_ok h
  have h4 := append_ok (((hs.extend _ _ _).extend _ _ _).extend _ _ _) h4
  cases h
  refine ⟨_, _, _, .assign hp he, ?_⟩
  rw [h4]
  simp

theorem coreOp_arith {op core : BinaryOp} (h : coreOp op = some core) :
    isComparison core = false ∧ isLogical core = false ∧ op ≠ .assign := by
  cases op <;> cases h <;> exact ⟨rfl, rfl, nofun⟩

theorem realises_compound {op core : BinaryOp} (hop : coreOp op = some core)
    (hr : Realises t (emitExpr rhs) (Code t · rhs)) (emitLhs : Cg Val) :
    Realises t (emitBinary op lhs emitLhs (emitExpr rhs)) (Code t · (.binary op lhs rhs)) := by
  intro s v s' hs ht h
  obtain ⟨hc, hl, hne⟩ := coreOp_arith hop
  unfold emitBinary at h
  simp only [hne, if_false, hop] at h
  obtain ⟨p, s1, h1, h⟩ := bind_eq_ok h
  obtain ⟨n₁, cs, is, hp, rfl⟩ := realises_place lhs s p s1 hs ht h1
  obtain ⟨st, s2, h2, h⟩ := bind_eq_ok h
  obtain ⟨hty, rfl⟩ := typeId_ok h2
  obtain ⟨cur, s3, h3, h⟩ := bind_eq_ok h
  obtain ⟨rfl, rfl⟩ := appendResult_ok (hs.extend _ _ _) h3
  obtain ⟨w, s4, h4, h⟩ := bind_eq_ok h
  obtain ⟨n₂, cs', is', he, rfl⟩ := hr _ w s4 ((hs.extend _ _ _).extend _ _ _) ht h4
  obtain ⟨r, s5, h5, h⟩ := bind_eq_ok h
  obtain ⟨i, hi, rfl⟩ := binaryCode_arith (((hs.extend _ _ _).extend _ _ _).extend _ _ _) hc hl h5
  obtain ⟨u, s6, h6, h⟩ := bind_eq_ok h
  have h6 := append_ok ((((hs.extend _ _ _).extend _ _ _).extend _ _ _).extend _ _ _) h6
  cases h
  subst ht
  refine ⟨_, _, _, .compound hop hp hty he hi, ?_⟩
  rw [h6]
  simp only [Ctx.extend_extend, Ctx.extend_nextId, List.append_nil, List.append_assoc,
    List.cons_append, List.nil_append]

/-- The operands are emitted left to right, and one instruction combines them, whichever of the
    three kinds the operator is of. -/
theorem realises_binary (hop : op ≠ .assign ∧ coreOp op = none)
    (hl : Realises t (emitExpr lhs) (Code t · lhs)) (hr : Realises t (emitExpr rhs) (Code t · rhs)) :
    Realises t (emitBinary op lhs (emitExpr lhs) (emitExpr rhs)) (Code t · (.binary op lhs rhs)) := by
  intro s v s' hs ht h
  unfold emitBinary at h
  simp only [hop.1, if_false, hop.2] at h
  obtain ⟨l, s1, h1, h⟩ := bind_eq_ok h
  obtain ⟨n₁, cs, is, hcl, rfl⟩ := hl s l s1 hs ht h1
  obtain ⟨r, s2, h2, h⟩ := bind_eq_ok h
  obtain ⟨n₂, cs', is', hcr, rfl⟩ := hr _ r s2 (hs.extend _ _ _) ht h2
  have hs2 := (hs.extend n₁ cs is).extend n₂ cs' is'
  have hcode : ∃ i, BinaryCode t op l r n₂ v i ∧
      s' = ((s.extend n₁ cs is).extend n₂ cs' is').extend (n₂ + 1) [] [i] := by
    subst ht
    cases hcmp : isComparison op with
    | true =>
      simp only [hcmp, if_true] at h
      exact binaryCode_comparison hs2 hcmp h
    | false =>
      cases hlog : isLogical op with
      | true =>
        simp only [hcmp, hlog, if_true, Bool.false_eq_true, if_false] at h
        exact binaryCode_logical hs2 hcmp hlog h
      | false =>
        simp only [hcmp, hlog, Bool.false_eq_true, if_false] at h
        exact binaryCode_arith hs2 hcmp hlog h
  obtain ⟨i, hi, rfl⟩ := hcode
  refine ⟨_, _, _, .binary hop hcl hcr hi, ?_⟩
  simp

theorem realises_unary (op : UnaryOp) (he : Realises t (emitExpr e) (Code t · e)) :
    Realises t (emitUnary op (emitExpr e)) (Code t · (.unary op e)) := by
  intro s v s' hs ht h
  obtain ⟨w, s1, h1, h⟩ := bind_eq_ok h
  obtain ⟨n₁, cs, is, hc, rfl⟩ := he s w s1 hs ht h1
  obtain ⟨st, s2, h2, h⟩ := bind_eq_ok h
  obtain ⟨hty, rfl⟩ := typeId_ok h2
  subst ht
  cases ho : unaryOpcode op w.ty with
  | none =>
    simp only [ho] at h
    cases h
  | some o =>
    simp only [ho] at h
    obtain ⟨id, s3, h3, h⟩ := bind_eq_ok h
    obtain ⟨rfl, rfl⟩ := appendResult_ok (hs.extend _ _ _) h3
    cases h
    refine ⟨_, _, _, .unary hc hty ho, ?_⟩
    simp

theorem realises_cast (ty : Ty) (he : Realises t (emitExpr e) (Code t · e)) :
    Realises t (emitCast ty (emitExpr e)) (Code t · (.cast ty e)) := by
  intro s v s' hs ht h
  obtain ⟨w, s1, h1, h⟩ := bind_eq_ok h
  obtain ⟨n₁, cs, is, hc, rfl⟩ := he s w s1 hs ht h1
  obtain ⟨st, s2, h2, h⟩ := bind_eq_ok h
  obtain ⟨hty, rfl⟩ := typeId_ok h2
  subst ht
  cases ho : castOp w.ty ty with
  | none =>
    simp only [ho] at h
    by_cases hw : w.ty = ty
    · rw [if_pos hw] at h
      cases h
      exact ⟨_, _, _, .castSame hc hty hw, rfl⟩
    · rw [if_neg hw] at h
      cases h
  | some o =>
    simp only [ho] at h
    obtain ⟨id, s3, h3, h⟩ := bind_eq_ok h
    obtain ⟨rfl, rfl⟩ := appendResult_ok (hs.extend _ _ _) h3
    cases h
    refine ⟨_, _, _, .convert hc hty ho, ?_⟩
    simp

theorem realises_ident (x : String) :
    Realises t (emitExpr (.ident x)) (Code t · (.ident x)) := by
  intro s v s' hs ht h
  unfold emitExpr at h
  obtain ⟨p, s1, h1, h⟩ := bind_eq_ok h
  obtain ⟨n₁, cs, is, hp, rfl⟩ := realises_place _ s p s1 hs ht h1
  obtain ⟨st, hty, rfl, rfl⟩ := loadPlace_ok (fun _ => rfl) (hs.extend _ _ _) h
  subst ht
  refine ⟨_, _, _, .ident hp hty, ?_⟩
  simp

theorem realises_member {base : Expr} (member : String)
    (he : Realises t (emitExpr base) (Code t · base)) :
    Realises t (emitMember base member (emitExpr base)) (Code t · (.member base member)) := by
  intro s v s' hs ht h
  obtain ⟨bty, s1, h1, h⟩ := bind_eq_ok h
  obtain ⟨hinfer, rfl⟩ := read_eq_ok h1
  cases bty with
  | struct name =>
    obtain ⟨p, s2, h2, h⟩ := bind_eq_ok h
    obtain ⟨n₁, cs, is, hp, rfl⟩ := realises_place _ s p s2 hs ht h2
    obtain ⟨st, hty, rfl, rfl⟩ := loadPlace_ok (fun _ => rfl) (hs.extend _ _ _) h
    subst ht
    refine ⟨_, _, _, .field hinfer hp hty, ?_⟩
    simp
  | vector kind k =>
    obtain ⟨w, s2, h2, h⟩ := bind_eq_ok h
    obtain ⟨n₁, cs, is, hc, rfl⟩ := he s w s2 hs ht h2
    subst ht
    unfold emitSwizzle at h
    cases hcomps : decodeSwizzle member with
    | none =>
      simp only [hcomps] at h
      cases h
    | some comps =>
      have hcode : ∃ id, appendResult (if comps.length = 1 then "composite_extract" else
          "vector_shuffle") (fun id => swizzleInst kind comps id w.id) (s.extend n₁ cs is) = .ok (id, s') ∧
          v = ⟨id, swizzleTy kind comps⟩ := by
        match comps with
        | [c] =>
          simp only [hcomps] at h
          obtain ⟨id, s3, h3, h⟩ := bind_eq_ok h
          cases h
          exact ⟨id, h3, rfl⟩
        | [] =>
          simp only [hcomps] at h
          obtain ⟨id, s3, h3, h⟩ := bind_eq_ok h
          cases h
          exact ⟨id, h3, rfl⟩
        | c :: c' :: rest =>
          simp only [hcomps] at h
          obtain ⟨id, s3, h3, h⟩ := bind_eq_ok h
          cases h
          refine ⟨id, ?_, rfl⟩
          rw [if_neg (by simp only [List.length_cons]; omega)]
          exact h3
      obtain ⟨id, h3, rfl⟩ := hcode
      obtain ⟨rfl, rfl⟩ := appendResult_ok (hs.extend _ _ _) h3
      refine ⟨_, _, _, .swizzle hinfer hc hcomps, ?_⟩
      simp
  | _ => cases h

end

/-! ### Arguments -/

/-- Every argument realises its code. -/
def RealisesAll (t : Tables) (args : List Expr) : Prop :=
  ∀ e ∈ args, Realises t (emitExpr e) (Code t · e)

variable {args : List Expr}

theorem realises_args (ha : RealisesAll t args) :
    Realises t (emitArgs (emitExprs args)) (CodeArgs t · args) := by
  induction args with
  | nil =>
    intro s vs s' hs ht h
    cases h
    exact ⟨_, _, _, .nil _, (Ctx.extend_self _).symm⟩
  | cons e es ih =>
    intro s vs s' hs ht h
    obtain ⟨v, s1, h1, h⟩ := bind_eq_ok h
    obtain ⟨n₁, cs, is, hc, rfl⟩ := ha e List.mem_cons_self s v s1 hs ht h1
    obtain ⟨ws, s2, h2, h⟩ := bind_eq_ok h
    obtain ⟨n₂, cs', is', hcs, rfl⟩ :=
      ih (fun e he => ha e (List.mem_cons_of_mem _ he)) _ ws s2 (hs.extend _ _ _) ht h2
    cases h
    exact ⟨_, _, _, .cons hc hcs, by rw [Ctx.extend_extend]⟩

theorem emitExprs_length (args : List Expr) : (emitExprs args).length = args.length := by
  induction args with
  | nil => rfl
  | cons e es ih => exact congrArg (· + 1) ih

theorem realises_assemble (kind : ScalarKind) (m : Nat) (hlen : args.length ≠ 1)
    (ha : RealisesAll t args) {s s' : Ctx} {v : Val} (hs : s.Open) (ht : s.toTables = t) (h : (do
      let vals ← emitArgs (emitExprs args)
      let id ← compositeConstruct (vectorTypeId kind m) (vals.map Val.id)
      pure (⟨id, .vector kind m⟩ : Val) : Cg Val) s = .ok (v, s')) :
    ∃ n cs is, Code t s.builder.nextId (.construct (.vector kind m) args) v n cs is ∧
      s' = s.extend n cs is := by
  obtain ⟨vs, s1, h1, h⟩ := bind_eq_ok h
  obtain ⟨n₁, cs, is, hc, rfl⟩ := realises_args ha s vs s1 hs ht h1
  obtain ⟨id, s2, h2, h⟩ := bind_eq_ok h
  obtain ⟨rfl, rfl⟩ := appendResult_ok (hs.extend _ _ _) h2
  cases h
  refine ⟨_, _, _, .assemble hlen hc, ?_⟩
  simp

theorem realises_broadcast {e : Expr} (kind : ScalarKind) (m : Nat)
    (he : Realises t (emitExpr e) (Code t · e)) :
    Realises t (emitConstruct (.vector kind m) [emitExpr e])
      (Code t · (.construct (.vector kind m) [e])) := by
  intro s v s' hs ht h
  obtain ⟨w, s1, h1, h⟩ := bind_eq_ok h
  obtain ⟨n₁, cs, is, hc, rfl⟩ := he s w s1 hs ht h1
  cases hw : w.ty with
  | scalar k =>
    simp only [hw] at h
    obtain ⟨id, s2, h2, h⟩ := bind_eq_ok h
    obtain ⟨rfl, rfl⟩ := appendResult_ok (hs.extend _ _ _) h2
    cases h
    refine ⟨_, _, _, .broadcast hc hw, ?_⟩
    simp
  | _ =>
    simp only [hw] at h
    cases h

theorem realises_scalar {e : Expr} (kind : ScalarKind) (he : Realises t (emitExpr e) (Code t · e)) :
    Realises t (emitConstruct (.scalar kind) [emitExpr e])
      (Code t · (.construct (.scalar kind) [e])) := by
  intro s v s' hs ht h
  by_cases hkind : kind = .float
  · subst hkind
    obtain ⟨n, cs, is, hc, rfl⟩ := he s v s' hs ht h
    exact ⟨_, _, _, .float hc, rfl⟩
  · have h : (emitExpr e >>= fun v => coerceScalar v kind) s = .ok (v, s') := by
      cases kind with
      | float => exact absurd rfl hkind
      | _ => exact h
    obtain ⟨w, s1, h1, h⟩ := bind_eq_ok h
    obtain ⟨n₁, cs, is, hc, rfl⟩ := he s w s1 hs ht h1
    obtain ⟨rfl, rfl⟩ := coerceScalar_ok (hs.extend _ _ _) h
    refine ⟨_, _, _, .scalar hkind hc, ?_⟩
    simp

theorem realises_construct (ty : Ty) (ha : RealisesAll t args) :
    Realises t (emitConstruct ty (emitExprs args)) (Code t · (.construct ty args)) := by
  match args, ha with
  | [], ha =>
    intro s v s' hs ht h
    cases ty with
    | scalar kind => cases kind <;> cases h
    | vector kind m => exact realises_assemble kind m (by decide) ha hs ht h
    | _ => cases h
  | [e], ha =>
    have he := ha e List.mem_cons_self
    cases ty with
    | scalar kind => exact realises_scalar kind he
    | vector kind m => exact realises_broadcast kind m he
    | _ => exact fun _ _ _ _ _ h => nomatch h
  | e :: e' :: es, ha =>
    intro s v s' hs ht h
    cases ty with
    | scalar kind => cases kind <;> cases h
    | vector kind m =>
      refine realises_assemble kind m ?_ ha hs ht h
      simp only [List.length_cons]
      omega
    | _ => cases h

/-! ### Calls -/

theorem realises_saturate {e : Expr} (he : Realises t (emitExpr e) (Code t · e)) :
    Realises t (emitSaturate (emitExpr e)) (Code t · (.call "saturate" [e])) := by
  intro s v s' hs ht h
  obtain ⟨w, s1, h1, h⟩ := bind_eq_ok h
  obtain ⟨n₁, cs, is, hc, rfl⟩ := he s w s1 hs ht h1
  obtain ⟨lo, s2, h2, h⟩ := bind_eq_ok h
  obtain ⟨rfl, rfl⟩ := constOp_ok h2
  obtain ⟨hi, s3, h3, h⟩ := bind_eq_ok h
  obtain ⟨rfl, rfl⟩ := constOp_ok h3
  obtain ⟨st, s4, h4, h⟩ := bind_eq_ok h
  obtain ⟨hty, rfl⟩ := typeId_ok h4
  obtain ⟨lo', s5, h5, h⟩ := bind_eq_ok h
  obtain ⟨hi', s6, h6, h⟩ := bind_eq_ok h
  obtain ⟨id, s7, h7, h⟩ := bind_eq_ok h
  obtain ⟨s0, s8, h8, h7⟩ := bind_eq_ok h7
  cases h8
  have hs3 := ((hs.extend n₁ cs is).extend (n₁ + 1) [⟨.float, n₁, f32OfF64 0⟩] []).extend (n₁ + 2)
    [⟨.float, n₁ + 1, f32OfF64 0x3FF0000000000000⟩] []
  subst ht
  cases hw : w.ty with
  | scalar k =>
    rw [hw] at h5 h6
    cases h5
    cases h6
    obtain ⟨rfl, rfl⟩ := appendResult_ok hs3 h7
    have hbounds : clampBounds w.ty n₁ (n₁ + 1) (n₁ + 2) = some (n₁, n₁ + 1, []) := by
      rw [hw]
      rfl
    cases h
    refine ⟨_, _, _, .saturate hc hty hbounds, ?_⟩
    simp only [Ctx.extend_extend, Ctx.extend_nextId, List.append_nil, List.append_assoc,
      List.cons_append, List.nil_append, List.length_nil, Nat.add_zero, Ctx.extend_toTables]
  | vector k m =>
    rw [hw] at h5 h6
    obtain ⟨rfl, rfl⟩ := appendResult_ok hs3 h5
    obtain ⟨rfl, rfl⟩ := appendResult_ok (hs3.extend _ _ _) h6
    obtain ⟨rfl, rfl⟩ := appendResult_ok ((hs3.extend _ _ _).extend _ _ _) h7
    have hbounds : clampBounds w.ty n₁ (n₁ + 1) (n₁ + 2) = some (n₁ + 2, n₁ + 3,
        [.compositeConstruct (vectorTypeId .float m) (n₁ + 2) (List.replicate m n₁),
          .compositeConstruct (vectorTypeId .float m) (n₁ + 3) (List.replicate m (n₁ + 1))]) := by
      rw [hw]
      rfl
    cases h
    refine ⟨_, _, _, .saturate hc hty hbounds, ?_⟩
    simp only [Ctx.extend_extend, Ctx.extend_nextId, List.append_nil, List.append_assoc,
      List.cons_append, List.nil_append, List.length_cons, List.length_nil, Ctx.extend_toTables]
  | _ =>
    rw [hw] at h5
    cases h5

theorem realises_dot {a b : Expr} (ha : Realises t (emitExpr a) (Code t · a))
    (hb : Realises t (emitExpr b) (Code t · b)) :
    Realises t (emitDot (emitExpr a) (emitExpr b)) (Code t · (.call "dot" [a, b])) := by
  intro s v s' hs ht h
  obtain ⟨va, s1, h1, h⟩ := bind_eq_ok h
  obtain ⟨n₁, cs, is, hca, rfl⟩ := ha s va s1 hs ht h1
  obtain ⟨vb, s2, h2, h⟩ := bind_eq_ok h
  obtain ⟨n₂, cs', is', hcb, rfl⟩ := hb _ vb s2 (hs.extend _ _ _) ht h2
  obtain ⟨st, s3, h3, h⟩ := bind_eq_ok h
  obtain ⟨hty, rfl⟩ := typeId_ok h3
  obtain ⟨id, s4, h4, h⟩ := bind_eq_ok h
  obtain ⟨rfl, rfl⟩ := appendResult_ok ((hs.extend _ _ _).extend _ _ _) h4
  cases h
  subst ht
  refine ⟨_, _, _, .dot hca hcb hty, ?_⟩
  simp

theorem realises_mul {a b : Expr} (ha : Realises t (emitExpr a) (Code t · a))
    (hb : Realises t (emitExpr b) (Code t · b)) :
    Realises t (emitMul [emitExpr a, emitExpr b]) (Code t · (.call "mul" [a, b])) := by
  intro s v s' hs ht h
  obtain ⟨va, s1, h1, h⟩ := bind_eq_ok h
  obtain ⟨n₁, cs, is, hca, rfl⟩ := ha s va s1 hs ht h1
  obtain ⟨vb, s2, h2, h⟩ := bind_eq_ok h
  obtain ⟨n₂, cs', is', hcb, rfl⟩ := hb _ vb s2 (hs.extend _ _ _) ht h2
  have hs2 := (hs.extend n₁ cs is).extend n₂ cs' is'
  subst ht
  cases hm : matrixProduct va.ty vb.ty with
  | none =>
    simp only [hm] at h
    obtain ⟨i, hi, rfl⟩ := binaryCode_arith hs2 rfl rfl h
    refine ⟨_, _, _, .mul hca hcb hm hi, ?_⟩
    simp
  | some r =>
    cases r with
    | error msg =>
      simp only [hm] at h
      cases h
    | ok r =>
      obtain ⟨o, ty⟩ := r
      simp only [hm] at h
      obtain ⟨st, s3, h3, h⟩ := bind_eq_ok h
      obtain ⟨hty, rfl⟩ := typeId_ok h3
      obtain ⟨id, s4, h4, h⟩ := bind_eq_ok h
      obtain ⟨rfl, rfl⟩ := appendResult_ok hs2 h4
      cases h
      refine ⟨_, _, _, .mulMatrix hca hcb hm hty, ?_⟩
      simp

theorem realises_intrinsic (name : String) (ha : RealisesAll t args) :
    Realises t (emitIntrinsic name (emitExprs args)) (Code t · (.call name args)) := by
  intro s v s' hs ht h
  unfold emitIntrinsic at h
  cases hname : intrinsics.lookup name with
  | none =>
    simp only [hname] at h
    cases h
  | some r =>
    obtain ⟨ext, arity⟩ := r
    simp only [hname, emitExprs_length] at h
    by_cases hlen : args.length = arity
    · simp only [hlen, ne_eq, not_true_eq_false, if_false] at h
      obtain ⟨vs, s1, h1, h⟩ := bind_eq_ok h
      obtain ⟨n₁, cs, is, hc, rfl⟩ := realises_args ha s vs s1 hs ht h1
      obtain ⟨st, s2, h2, h⟩ := bind_eq_ok h
      obtain ⟨hty, rfl⟩ := typeId_ok h2
      obtain ⟨id, s3, h3, h⟩ := bind_eq_ok h
      obtain ⟨s0, s4, h4, h3⟩ := bind_eq_ok h3
      cases h4
      obtain ⟨rfl, rfl⟩ := appendResult_ok (hs.extend _ _ _) h3
      cases h
      subst ht
      refine ⟨_, _, _, .intrinsic (hlen ▸ hname) hc hty, ?_⟩
      simp only [Ctx.extend_extend, Ctx.extend_nextId, List.append_nil, Ctx.extend_toTables]
    · simp only [hlen, ne_eq, not_false_eq_true, if_true] at h
      cases h

theorem realises_call (name : String) (ha : RealisesAll t args) :
    Realises t (emitCall name (emitExprs args)) (Code t · (.call name args)) := by
  unfold emitCall
  split
  · next x hargs =>
    match args, ha with
    | [e], ha =>
      cases hargs
      exact realises_saturate (ha e List.mem_cons_self)
    | [], _ => cases hargs
    | _ :: _ :: _, _ => cases hargs
  · next x y hargs =>
    match args, ha with
    | [a, b], ha =>
      cases hargs
      exact realises_dot (ha a List.mem_cons_self)
        (ha b (List.mem_cons_of_mem _ List.mem_cons_self))
    | [], _ => cases hargs
    | [_], _ => cases hargs
    | _ :: _ :: _ :: _, _ => cases hargs
  · match args, ha with
    | [a, b], ha =>
      exact realises_mul (ha a List.mem_cons_self)
        (ha b (List.mem_cons_of_mem _ List.mem_cons_self))
    | [], _ => exact fun _ _ _ _ _ h => nomatch h
    | [_], _ => exact fun _ _ _ _ _ h => nomatch h
    | _ :: _ :: _ :: _, _ => exact fun _ _ _ _ _ h => nomatch h
  · exact realises_intrinsic _ ha

theorem realises_methodCall {base : Expr} (method : String) (ha : RealisesAll t args) :
    Realises t (emitMethodCall base method (emitExprs args))
      (Code t · (.methodCall base method args)) := by
  intro s v s' hs ht h
  unfold emitMethodCall at h
  by_cases hm : method = "Sample"
  · subst hm
    simp only [ne_eq, not_true_eq_false, if_false] at h
    match args, ha with
    | [sampler, coord], ha =>
      obtain ⟨p, s1, h1, h⟩ := bind_eq_ok h
      obtain ⟨n₁, cs, is, hp, rfl⟩ := realises_place _ s p s1 hs ht h1
      obtain ⟨im, s2, h2, h⟩ := bind_eq_ok h
      obtain ⟨rfl, rfl⟩ := appendResult_ok (hs.extend _ _ _) h2
      have hs2 := (hs.extend n₁ cs is).extend (n₁ + 1) [] [.load .sampledImage n₁ p.ptr]
      obtain ⟨vs, s3, h3, h⟩ := bind_eq_ok h
      obtain ⟨n₂, cs', is', hcs, rfl⟩ := ha sampler List.mem_cons_self _ vs s3 hs2 ht h3
      obtain ⟨vc, s4, h4, h⟩ := bind_eq_ok h
      obtain ⟨n₃, cs'', is'', hcc, rfl⟩ := ha coord (List.mem_cons_of_mem _ List.mem_cons_self) _ vc
        s4 (hs2.extend _ _ _) ht h4
      have hs4 := (hs2.extend n₂ cs' is').extend n₃ cs'' is''
      obtain ⟨si, s5, h5, h⟩ := bind_eq_ok h
      obtain ⟨rfl, rfl⟩ := appendResult_ok hs4 h5
      obtain ⟨id, s6, h6, h⟩ := bind_eq_ok h
      obtain ⟨rfl, rfl⟩ := appendResult_ok (hs4.extend _ _ _) h6
      cases h
      refine ⟨_, _, _, .sample hp hcs hcc, ?_⟩
      simp only [Ctx.extend_extend, Ctx.extend_nextId, List.append_nil, List.append_assoc,
        List.cons_append, List.nil_append]
    | [], _ => cases h
    | [_], _ => cases h
    | _ :: _ :: _ :: _, _ => cases h
  · simp only [ne_eq, hm, not_false_eq_true, if_true] at h
    cases h

mutual

/-- The emitter realises the relation: from an open block, whatever it returns is what `Code`
    derives, and the state is the old one extended by that code. By induction on the expression. -/
theorem emitExpr_code (t : Tables) : ∀ e : Expr, Realises t (emitExpr e) (Code t · e)
  | .literal l => realises_literal l
  | .construct ty args => by
      unfold emitExpr
      exact realises_construct ty (emitExprs_code t args)
  | .ident x => realises_ident x
  | .member base member => by
      unfold emitExpr
      exact realises_member member (emitExpr_code t base)
  | .call name args => by
      unfold emitExpr
      exact realises_call name (emitExprs_code t args)
  | .methodCall base method args => by
      unfold emitExpr
      exact realises_methodCall method (emitExprs_code t args)
  | .binary op lhs rhs => by
      unfold emitExpr
      by_cases hop : op = .assign
      · subst hop
        exact realises_assign (emitExpr_code t rhs) _
      · cases hcore : coreOp op with
        | some core => exact realises_compound hcore (emitExpr_code t rhs) _
        | none => exact realises_binary ⟨hop, hcore⟩ (emitExpr_code t lhs) (emitExpr_code t rhs)
  | .unary op e => by
      unfold emitExpr
      exact realises_unary op (emitExpr_code t e)
  | .cast ty e => by
      unfold emitExpr
      exact realises_cast ty (emitExpr_code t e)

theorem emitExprs_code (t : Tables) : ∀ es : List Expr, RealisesAll t es
  | [] => fun _ h => nomatch h
  | e :: es => by
      intro e' he'
      cases he' with
      | head => exact emitExpr_code t e
      | tail _ he' => exact emitExprs_code t es e' he'

end

end WinCompat.Hlsl
