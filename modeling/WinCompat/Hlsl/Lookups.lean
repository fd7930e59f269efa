import WinCompat.Hlsl.StmtTyping

/-!
# What an expression looks up

The only use that the emission of an expression makes of the local variables is to look up the
identifiers of the expression. So it emits the same for other locals that answer those lookups alike
(`reads_expr`). And an instruction goes through the pointer of a local exactly when one of the
identifiers is looked up to that local (`Code.through_iff`).
-/

namespace WinCompat.Lib.Spirv

/-- The pointer that an instruction reads or writes through, or makes an offset into. -/
def Inst.pointer : Inst → Option Id
  | .load _ _ ptr | .store ptr _ | .accessChain _ _ ptr _ => some ptr
  | _ => none

/-- Some of the instructions goes through the pointer. -/
def Through (ptr : Id) (is : List Inst) : Prop := ∃ i ∈ is, i.pointer = some ptr

section

variable {ptr : Id} {i : Inst} {is is' : List Inst}

@[simp] theorem through_nil : ¬ Through ptr [] := by
  simp [Through]

@[simp] theorem through_cons : Through ptr (i :: is) ↔ i.pointer = some ptr ∨ Through ptr is := by
  simp [Through]

@[simp] theorem through_append : Through ptr (is ++ is') ↔ Through ptr is ∨ Through ptr is' := by
  simp [Through, or_and_right, exists_or]

end

end WinCompat.Lib.Spirv

namespace WinCompat.Hlsl

open Lib Lib.Comp

mutual

/-- The identifiers that occur in an expression. -/
def Expr.idents : Expr → List String
  | .literal _ => []
  | .ident x => [x]
  | .construct _ args | .call _ args => identsOf args
  | .methodCall base _ args => base.idents ++ identsOf args
  | .member base _ => base.idents
  | .binary _ lhs rhs => lhs.idents ++ rhs.idents
  | .unary _ e | .cast _ e => e.idents

def identsOf : List Expr → List String
  | [] => []
  | e :: es => e.idents ++ identsOf es

end

/-! ## Pointers -/

/-- One of the names is looked up to a local variable with this pointer. -/
def Tables.Finds (t : Tables) (ptr : Spirv.Id) (xs : List String) : Prop :=
  ∃ x ∈ xs, ∃ l, t.locals.lookup x = some l ∧ l.ptr = ptr

/-- No global has this pointer. -/
def Tables.NotGlobal (t : Tables) (ptr : Spirv.Id) : Prop :=
  (∀ x g, t.globals.lookup x = some g → g.ptr ≠ ptr) ∧
    ∀ x c, t.cbufferMembers.lookup x = some c → c.1 ≠ ptr

section

variable {t : Tables} {ptr : Spirv.Id} {xs ys : List String}

@[simp] theorem Tables.finds_nil : ¬ t.Finds ptr [] := by
  simp [Tables.Finds]

@[simp] theorem Tables.finds_append : t.Finds ptr (xs ++ ys) ↔ t.Finds ptr xs ∨ t.Finds ptr ys := by
  simp [Tables.Finds, or_and_right, exists_or]

theorem Tables.finds_ident {x : String} :
    t.Finds ptr [x] ↔ ∃ l, t.locals.lookup x = some l ∧ l.ptr = ptr := by
  simp [Tables.Finds]

attribute [local simp] Expr.idents identsOf Tables.finds_ident

/-- A place is that of a local, or has gone through it. -/
theorem PlaceCode.through_iff {e : Expr} {n n' : Spirv.Id} {p : Place} {cs : List Spirv.Constant}
    {is : List Spirv.Inst} (h : PlaceCode t n e p n' cs is) (hg : t.NotGlobal ptr)
    (hlt : ptr < n) : p.ptr = ptr ∨ Spirv.Through ptr is ↔ t.Finds ptr e.idents := by
  induction h with
  | local_ hl => simp [hl]
  | cbuffer hl hc hglobal hty =>
    have hne := hg.2 _ _ hc
    have hn : _ ≠ ptr := (Nat.ne_of_lt hlt).symm
    simp [hl, Spirv.Inst.pointer, hne, hn]
  | global hl hc hglobal =>
    have hne := hg.1 _ _ hglobal
    simp [hl, hne]
  | @member n₁ base member ptr' name cs is info idx m st hbase hinfo hidx hm hty ih =>
    have hle := hbase.straight.le
    have hn : n₁ + 1 ≠ ptr :=
      (Nat.ne_of_lt (Nat.lt_succ_of_lt (Nat.lt_of_lt_of_le hlt hle))).symm
    rw [Expr.idents, ← ih]
    simp [Spirv.Inst.pointer, hn, or_comm]

theorem coerceScalarOut_through (v : Val) (kind : ScalarKind) (id : Spirv.Id) :
    ¬ Spirv.Through ptr (coerceScalarOut v kind id).2 := by
  unfold coerceScalarOut
  by_cases hk : v.ty = .scalar kind
  · simp [hk]
  · rw [if_neg hk]
    cases coerceOp v.ty kind <;> simp [Spirv.Inst.pointer]

/-- Conversions work on values, and go through no pointer. -/
theorem coerceOut_through (v : Val) (target : Ty) (id : Spirv.Id) :
    ¬ Spirv.Through ptr (coerceOut v target id).2 := by
  unfold coerceOut
  split
  · exact coerceScalarOut_through v _ id
  · exact Spirv.through_nil

theorem clampBounds_through {ty : Ty} {lo hi id lo' hi' : Spirv.Id} {is : List Spirv.Inst}
    (h : clampBounds ty lo hi id = some (lo', hi', is)) : ¬ Spirv.Through ptr is := by
  unfold clampBounds at h
  split at h
  · cases h
    exact Spirv.through_nil
  · cases h
    simp [Spirv.Inst.pointer]
  · cases h

theorem swizzleInst_pointer (kind : ScalarKind) (comps : List Nat) (id base : Spirv.Id) :
    (swizzleInst kind comps id base).pointer = none := by
  unfold swizzleInst
  split <;> rfl

/-- Nor do the operators. -/
theorem BinaryCode.pointer {op : BinaryOp} {l r v : Val} {id : Spirv.Id} {i : Spirv.Inst}
    (h : BinaryCode t op l r id v i) : i.pointer = none := by
  cases h
  rfl

/-- What the code of an expression does with the pointer of a local, by induction on the derivation.
    The ids that the code draws are new, so no instruction goes through the pointer by accident. -/
theorem Code.through_iff {e : Expr} {n n' : Spirv.Id} {v : Val} {cs : List Spirv.Constant}
    {is : List Spirv.Inst} (h : Code t n e v n' cs is) (hg : t.NotGlobal ptr) (hlt : ptr < n) :
    Spirv.Through ptr is ↔ t.Finds ptr e.idents := by
  revert hlt
  refine @Code.rec t
    (fun n e _ _ _ is _ => ptr < n → (Spirv.Through ptr is ↔ t.Finds ptr e.idents))
    (fun n es _ _ _ is _ => ptr < n → (Spirv.Through ptr is ↔ t.Finds ptr (identsOf es)))
    ?literal ?ident ?field ?swizzle ?float ?scalar
    ?broadcast ?assemble ?assign ?compound ?binary ?unary ?convert ?castSame ?saturate ?dot ?mul
    ?mulMatrix ?intrinsic ?sample ?nil ?cons _ _ _ _ _ _ h
  case literal => simp
  case ident =>
    intro n n₁ x p cs is st hp hty hlt
    rw [← hp.through_iff hg hlt]
    simp [Spirv.Inst.pointer, or_comm]
  case field =>
    intro n n₁ base member name p cs is st hbase hp hty hlt
    rw [← hp.through_iff hg hlt]
    simp [Spirv.Inst.pointer, or_comm]
  case swizzle =>
    intro n n₁ base member kind k v cs is comps hbase he hcomps ih hlt
    simp [← ih hlt, swizzleInst_pointer]
  case float =>
    intro n n₁ e v cs is he ih hlt
    simp [ih hlt]
  case scalar =>
    intro n n₁ kind e v cs is hkind he ih hlt
    simp [ih hlt, coerceScalarOut_through]
  case broadcast =>
    intro n n₁ kind k m e v cs is he hv ih hlt
    simp [ih hlt, Spirv.Inst.pointer]
  case assemble =>
    intro n n₁ kind m args vs cs is hlen ha ih hlt
    simp [ih hlt, Spirv.Inst.pointer]
  case assign =>
    intro n n₁ n₂ lhs rhs p v cs cs' is is' hp he ih hlt
    have ih := ih (Nat.lt_of_lt_of_le hlt hp.straight.le)
    simp [← hp.through_iff hg hlt, ← ih, Spirv.Inst.pointer, coerceOut_through, or_assoc, or_comm,
      or_left_comm]
  case compound =>
    intro n n₁ n₂ op core lhs rhs p v r cs cs' is is' st i hop hp hty he hr ih hlt
    have ih := ih (Nat.lt_succ_of_lt (Nat.lt_of_lt_of_le hlt hp.straight.le))
    cases hr
    simp [← hp.through_iff hg hlt, ← ih, Spirv.Inst.pointer, or_assoc, or_comm, or_left_comm]
  case binary =>
    intro n n₁ n₂ op lhs rhs l r v cs cs' is is' i hop hl hr hv ihl ihr hlt
    have ihr := ihr (Nat.lt_of_lt_of_le hlt hl.straight.le)
    simp [← ihl hlt, ← ihr, hv.pointer]
  case unary =>
    intro n n₁ op e v cs is o st he hty ho ih hlt
    simp [← ih hlt, Spirv.Inst.pointer]
  case convert =>
    intro n n₁ ty e v cs is o st he hty ho ih hlt
    simp [← ih hlt, Spirv.Inst.pointer]
  case castSame =>
    intro n n₁ ty e v cs is st he hty hv ih hlt
    simp [ih hlt]
  case saturate =>
    intro n n₁ e v cs is is' st lo hi he hty hbounds ih hlt
    simp [← ih hlt, Spirv.Inst.pointer, clampBounds_through hbounds]
  case dot =>
    intro n n₁ n₂ a b va vb cs cs' is is' st ha hb hty iha ihb hlt
    have ihb := ihb (Nat.lt_of_lt_of_le hlt ha.straight.le)
    simp [← iha hlt, ← ihb, Spirv.Inst.pointer]
  case mul =>
    intro n n₁ n₂ a b va vb v cs cs' is is' i ha hb hm hv iha ihb hlt
    have ihb := ihb (Nat.lt_of_lt_of_le hlt ha.straight.le)
    simp [← iha hlt, ← ihb, hv.pointer]
  case mulMatrix =>
    intro n n₁ n₂ a b va vb cs cs' is is' o ty st ha hb hm hty iha ihb hlt
    have ihb := ihb (Nat.lt_of_lt_of_le hlt ha.straight.le)
    simp [← iha hlt, ← ihb, Spirv.Inst.pointer]
  case intrinsic =>
    intro n n₁ name args vs cs is ext st hname ha hty ih hlt
    simp [ih hlt, Spirv.Inst.pointer]
  case sample =>
    intro n n₁ n₂ n₃ base sampler coord p vs vc cs cs' cs'' is is' is'' hp hs hc ihs ihc hlt
    have hlt₁ := Nat.lt_succ_of_lt (Nat.lt_of_lt_of_le hlt hp.straight.le)
    have ihs := ihs hlt₁
    have ihc := ihc (Nat.lt_of_lt_of_le hlt₁ hs.straight.le)
    simp [← hp.through_iff hg hlt, ← ihs, ← ihc, Spirv.Inst.pointer, or_assoc, or_comm,
      or_left_comm]
  case nil => simp
  case cons =>
    intro n n₁ n₂ e es v vs cs cs' is is' he hs ihe ihs hlt
    have ihs := ihs (Nat.lt_of_lt_of_le hlt he.straight.le)
    simp [← ihe hlt, ← ihs]

end

/-! ## Emission with other locals -/

/-- The same state with other local variables. -/
def Ctx.withLocals (s : Ctx) (locals : List (String × Local)) : Ctx := { s with locals }

@[simp] theorem Ctx.withLocals_locals (s : Ctx) (L : List (String × Local)) :
    (s.withLocals L).locals = L := rfl

@[simp] theorem Ctx.withLocals_builder (s : Ctx) (L : List (String × Local)) :
    (s.withLocals L).builder = s.builder := rfl

/-- `x` leaves the locals alone, and returns the same with any locals that answer the lookups of
    `xs` alike. -/
def ReadsLocals {α : Type} (xs : List String) (x : Cg α) : Prop :=
  ∀ (s s' : Ctx) (a : α) (L : List (String × Local)), x s = .ok (a, s') →
    (∀ y ∈ xs, L.lookup y = s.locals.lookup y) →
      s'.locals = s.locals ∧ x (s.withLocals L) = .ok (a, s'.withLocals L)

namespace ReadsLocals

variable {α β : Type} {xs ys : List String}

theorem mono {x : Cg α} (h : ReadsLocals xs x) (hsub : ∀ y ∈ xs, y ∈ ys) : ReadsLocals ys x :=
  fun s s' a L hok hL => h s s' a L hok fun y hy => hL y (hsub y hy)

theorem pure (a : α) : ReadsLocals xs (Pure.pure a : Cg α) := by
  intro s s' a L h _
  cases h
  exact ⟨rfl, rfl⟩

theorem throw (e : CodegenError) : ReadsLocals xs (Comp.throw e : Cg α) := by
  intro s s' a L h _
  cases h

/-- The parts of a sequence read from one list of names, so the lookups that the first leaves alone
    are the ones that the second makes. -/
theorem bind {x : Cg α} {k : α → Cg β} (hx : ReadsLocals xs x) (hk : ∀ a, ReadsLocals xs (k a)) :
    ReadsLocals xs (x >>= k) := by
  intro s s'' b L h hL
  obtain ⟨a, s', h1, h2⟩ := bind_eq_ok h
  obtain ⟨hlocals, h1'⟩ := hx s s' a L h1 hL
  obtain ⟨hlocals', h2'⟩ := hk a s' s'' b L h2 fun y hy => by rw [hL y hy, hlocals]
  refine ⟨hlocals'.trans hlocals, ?_⟩
  rw [bind_ok h1', h2']

/-- After the whole state was read, the rest may depend on the locals only through the names. -/
theorem get {k : Ctx → Cg β} (hk : ∀ s, ReadsLocals xs (k s))
    (hsame : ∀ s L, (∀ y ∈ xs, L.lookup y = s.locals.lookup y) → k (s.withLocals L) = k s) :
    ReadsLocals xs (Comp.get >>= k) := by
  intro s s' b L h hL
  obtain ⟨s₀, s₁, h0, h1⟩ := bind_eq_ok h
  cases h0
  obtain ⟨hlocals, h1'⟩ := hk s s s' b L h1 hL
  refine ⟨hlocals, ?_⟩
  rw [bind_ok (show Comp.get (s.withLocals L) = .ok (s.withLocals L, s.withLocals L) from rfl),
    hsame s L hL, h1']

theorem read {f : Ctx → Outcome CodegenError α}
    (hf : ∀ s L, (∀ y ∈ xs, L.lookup y = s.locals.lookup y) → f (s.withLocals L) = f s) :
    ReadsLocals xs (Comp.read f) := by
  intro s s' a L h hL
  obtain ⟨ha, rfl⟩ := read_eq_ok h
  refine ⟨rfl, ?_⟩
  show f (s.withLocals L) >>= _ = _
  rw [hf s L hL, ha]
  rfl

end ReadsLocals

section

variable {xs : List String}

theorem reads_builderId : ReadsLocals xs builderId := by
  intro s s' a L h _
  cases h
  exact ⟨rfl, rfl⟩

theorem reads_constOp (ty : Spirv.Ty) (bits : BitVec 32) : ReadsLocals xs (constOp ty bits) := by
  intro s s' a L h _
  cases h
  exact ⟨rfl, rfl⟩

theorem reads_onFunction (what : String) (change : Spirv.Function → Option Spirv.Function) :
    ReadsLocals xs (onFunction what change) := by
  intro s s' a L h _
  unfold onFunction at h ⊢
  rw [Ctx.withLocals_builder]
  cases hb : s.builder.onFunction change with
  | none =>
    rw [hb] at h
    cases h
  | some b =>
    rw [hb] at h
    cases h
    exact ⟨rfl, rfl⟩

theorem reads_insertFront (i : Spirv.Inst) : ReadsLocals xs (insertFront i) := by
  intro s s' a L h _
  unfold insertFront at h ⊢
  rw [Ctx.withLocals_builder]
  cases hb : s.builder.onFunction (·.insertFront i) with
  | none =>
    rw [hb] at h
    cases h
  | some b =>
    rw [hb] at h
    cases h
    exact ⟨rfl, rfl⟩

theorem reads_appendResult (what : String) (i : Spirv.Id → Spirv.Inst) :
    ReadsLocals xs (appendResult what i) :=
  reads_builderId.bind fun id => (reads_onFunction what _).bind fun _ => .pure id

theorem reads_typeId (ty : Ty) : ReadsLocals xs (typeId ty) := by
  refine .read fun s L _ => ?_
  cases ty <;> rfl

theorem reads_valueTypeId (ty : Ty) : ReadsLocals xs (valueTypeId ty) := by
  refine .read fun s L _ => ?_
  cases ty <;> rfl

theorem reads_isTerminated : ReadsLocals xs isTerminated := by
  refine .get (fun s => ?_) fun s L _ => rfl
  cases s.builder.func <;> exact .pure _

/-! ### Values -/

theorem reads_literal (l : Literal) : ReadsLocals xs (emitLiteral l) := by
  cases l <;> exact (reads_constOp _ _).bind fun _ => .pure _

theorem reads_coerceScalar (val : Val) (kind : ScalarKind) :
    ReadsLocals xs (coerceScalar val kind) := by
  unfold coerceScalar
  by_cases hty : val.ty = .scalar kind
  · rw [if_pos hty]
    exact .pure val
  · rw [if_neg hty]
    cases coerceOp val.ty kind with
    | some op => exact (reads_appendResult _ _).bind fun _ => .pure _
    | none => exact .pure val

theorem reads_coerce (val : Val) (target : Ty) : ReadsLocals xs (coerce val target) := by
  unfold coerce
  by_cases hty : val.ty = target
  · rw [if_pos hty]
    exact .pure val
  · rw [if_neg hty]
    split
    · exact reads_coerceScalar val _
    · exact .pure val

theorem reads_coerceToBool (val : Val) : ReadsLocals xs (coerceToBool val) := by
  unfold coerceToBool
  split
  · exact .pure _
  · exact reads_appendResult _ _
  · exact .throw _

theorem reads_arith (op : BinaryOp) (l r : Val) : ReadsLocals xs (emitArith op l r) := by
  refine ReadsLocals.bind (reads_typeId _) fun st => ?_
  split
  · exact (reads_appendResult _ _).bind fun _ => .pure _
  · exact .throw _

theorem reads_comparison (op : BinaryOp) (l r : Val) : ReadsLocals xs (emitComparison op l r) := by
  refine ReadsLocals.bind (reads_typeId _) fun st => ?_
  split
  · exact (reads_appendResult _ _).bind fun _ => .pure _
  · exact .throw _

theorem reads_logical (op : BinaryOp) (l r : Val) : ReadsLocals xs (emitLogical op l r) :=
  (reads_appendResult _ _).bind fun _ => .pure _

theorem reads_swizzle (base : Val) (member : String) (kind : ScalarKind) :
    ReadsLocals xs (emitSwizzle base member kind) := by
  unfold emitSwizzle
  split
  · exact .throw _
  · exact (reads_appendResult _ _).bind fun _ => .pure _
  · exact (reads_appendResult _ _).bind fun _ => .pure _

theorem reads_broadcast (c : Spirv.Id) (ty : Ty) : ReadsLocals xs (broadcastConst c ty) := by
  unfold broadcastConst
  split
  · exact .pure _
  · exact reads_appendResult _ _
  · exact .throw _

theorem reads_extInst (ty : Spirv.Ty) (instruction : Nat) (operands : List Spirv.Id) :
    ReadsLocals xs (extInst ty instruction operands) :=
  .get (fun _ => reads_appendResult _ _) fun _ _ _ => rfl

theorem reads_loadPlace (place : Place) {tyId : Ty → Cg Spirv.Ty}
    (hty : ReadsLocals xs (tyId place.ty)) : ReadsLocals xs (loadPlace place tyId) :=
  hty.bind fun _ => (reads_appendResult _ _).bind fun _ => .pure _

/-! ### Places and inferred types -/

theorem reads_place_ident (x : String) : ReadsLocals [x] (emitPlace (.ident x)) := by
  refine .get (fun s => ?_) fun s L hL => ?_
  · cases s.locals.lookup x with
    | some l => exact .pure _
    | none =>
      cases s.cbufferMembers.lookup x with
      | some r =>
        obtain ⟨cbvar, idxConst⟩ := r
        cases s.globals.lookup x with
        | some g =>
          exact (reads_typeId _).bind fun _ => (reads_appendResult _ _).bind fun _ => .pure _
        | none => exact .throw _
      | none =>
        cases s.globals.lookup x with
        | some g => exact .pure _
        | none => exact .throw _
  · have hx : L.lookup x = s.locals.lookup x := hL x (List.mem_singleton.2 rfl)
    simp only [Ctx.withLocals_locals, hx]
    rfl

theorem reads_place : ∀ e : Expr, ReadsLocals e.idents (emitPlace e)
  | .ident x => reads_place_ident x
  | .member base member => by
      refine ReadsLocals.bind (reads_place base) fun place => ?_
      obtain ⟨ptr, ty⟩ := place
      cases ty with
      | struct name =>
        refine ReadsLocals.get (fun s => ?_) fun s L _ => rfl
        cases s.structs.lookup name with
        | none => exact .throw _
        | some info =>
          dsimp only
          split
          · exact (reads_constOp _ _).bind fun _ => (reads_typeId _).bind fun _ =>
              (reads_appendResult _ _).bind fun _ => .pure _
          · exact .throw _
      | _ => exact .throw _
  | .literal _ | .construct _ _ | .call _ _ | .methodCall _ _ _ | .binary _ _ _ | .unary _ _
  | .cast _ _ => .throw _

mutual

theorem inferType_withLocals {t : Tables} {L : List (String × Local)} :
    ∀ e : Expr, (∀ y ∈ e.idents, L.lookup y = t.locals.lookup y) →
      Tables.inferType { t with locals := L } e = t.inferType e
  | .literal _, _ | .construct _ _, _ | .cast _ _, _ | .methodCall _ _ _, _ => rfl
  | .ident x, h => by
      have hx : L.lookup x = t.locals.lookup x := h x (List.mem_singleton.2 rfl)
      unfold Tables.inferType Tables.inferIdent
      rw [hx]
  | .member base member, h => by
      unfold Tables.inferType
      rw [inferType_withLocals base h]
      rfl
  | .call name args, h => by
      unfold Tables.inferType
      rw [inferTypes_withLocals args h]
  | .binary op lhs rhs, h => by
      unfold Tables.inferType
      rw [inferType_withLocals lhs fun y hy => h y (List.mem_append_left _ hy),
        inferType_withLocals rhs fun y hy => h y (List.mem_append_right _ hy)]
  | .unary _ e, h => by
      unfold Tables.inferType
      exact inferType_withLocals e h

theorem inferTypes_withLocals {t : Tables} {L : List (String × Local)} :
    ∀ es : List Expr, (∀ y ∈ identsOf es, L.lookup y = t.locals.lookup y) →
      Tables.inferTypes { t with locals := L } es = t.inferTypes es
  | [], _ => rfl
  | e :: es, h => by
      unfold Tables.inferTypes
      rw [inferType_withLocals e fun y hy => h y (List.mem_append_left _ hy),
        inferTypes_withLocals es fun y hy => h y (List.mem_append_right _ hy)]

end

/-! ### Expressions -/

variable {x : Cg Val}

theorem reads_member {base : Expr} (member : String) (hx : ReadsLocals base.idents x) :
    ReadsLocals base.idents (emitMember base member x) := by
  have hinfer : ReadsLocals base.idents (Comp.read fun s : Ctx => s.inferType base) :=
    .read fun s L hL => inferType_withLocals base hL
  refine ReadsLocals.bind hinfer fun ty => ?_
  cases ty with
  | struct name =>
    exact ReadsLocals.bind (reads_place (.member base member)) fun place =>
      reads_loadPlace place (reads_typeId _)
  | vector kind n => exact ReadsLocals.bind hx fun v => reads_swizzle v member kind
  | _ => exact .throw _

theorem reads_binary (op : BinaryOp) {lhs : Expr} {x y : Cg Val} (hlhs : ∀ z ∈ lhs.idents, z ∈ xs)
    (hx : ReadsLocals xs x) (hy : ReadsLocals xs y) : ReadsLocals xs (emitBinary op lhs x y) := by
  have hplace := (reads_place lhs).mono hlhs
  unfold emitBinary
  by_cases hassign : op = .assign
  · rw [if_pos hassign]
    exact ReadsLocals.bind hplace fun place => ReadsLocals.bind hy fun v =>
      (reads_coerce v _).bind fun _ => (reads_onFunction _ _).bind fun _ => .pure _
  · rw [if_neg hassign]
    cases coreOp op with
    | some core =>
      exact ReadsLocals.bind hplace fun place => (reads_typeId _).bind fun _ =>
        (reads_appendResult _ _).bind fun _ => ReadsLocals.bind hy fun v =>
          (reads_arith core _ v).bind fun _ => (reads_onFunction _ _).bind fun _ => .pure _
    | none =>
      refine ReadsLocals.bind hx fun l => ReadsLocals.bind hy fun r => ?_
      by_cases hcmp : isComparison op = true
      · simp only [if_pos hcmp]
        exact reads_comparison op l r
      · by_cases hlog : isLogical op = true
        · simp only [if_neg hcmp, if_pos hlog]
          exact reads_logical op l r
        · simp only [if_neg hcmp, if_neg hlog]
          exact reads_arith op l r

theorem reads_unary (op : UnaryOp) (hx : ReadsLocals xs x) : ReadsLocals xs (emitUnary op x) := by
  refine ReadsLocals.bind hx fun v => (reads_typeId _).bind fun st => ?_
  split
  · exact (reads_appendResult _ _).bind fun _ => .pure _
  · exact .throw _

theorem reads_cast (ty : Ty) (hx : ReadsLocals xs x) : ReadsLocals xs (emitCast ty x) := by
  refine ReadsLocals.bind hx fun v => (reads_typeId _).bind fun st => ?_
  split
  · exact (reads_appendResult _ _).bind fun _ => .pure _
  · by_cases hty : v.ty = ty
    · simp only [if_pos hty]
      exact .pure _
    · simp only [if_neg hty]
      exact .throw _

variable {args : List (Cg Val)}

theorem reads_args (h : ∀ x ∈ args, ReadsLocals xs x) : ReadsLocals xs (emitArgs args) := by
  induction args with
  | nil => exact .pure _
  | cons x rest ih =>
    exact ReadsLocals.bind (h x List.mem_cons_self) fun v =>
      ReadsLocals.bind (ih fun y hy => h y (List.mem_cons_of_mem _ hy)) fun _ => .pure _

theorem reads_construct (ty : Ty) (h : ∀ x ∈ args, ReadsLocals xs x) :
    ReadsLocals xs (emitConstruct ty args) := by
  have hassemble : ∀ (kind : ScalarKind) (n : Nat), ReadsLocals xs (do
      let vals ← emitArgs args
      let id ← compositeConstruct (vectorTypeId kind n) (vals.map Val.id)
      pure (⟨id, ty⟩ : Val)) := fun kind n =>
    ReadsLocals.bind (reads_args h) fun _ => (reads_appendResult _ _).bind fun _ => .pure _
  unfold emitConstruct
  cases ty with
  | scalar kind =>
    match kind, args, h with
    | .float, [arg], h => exact h arg List.mem_cons_self
    | .int, [arg], h | .uint, [arg], h | .bool, [arg], h =>
      exact ReadsLocals.bind (h arg List.mem_cons_self) fun v => reads_coerceScalar v _
    | .float, [], _ | .int, [], _ | .uint, [], _ | .bool, [], _ => exact .throw _
    | .float, _ :: _ :: _, _ | .int, _ :: _ :: _, _ | .uint, _ :: _ :: _, _
    | .bool, _ :: _ :: _, _ => exact .throw _
  | vector kind n =>
    match args, h, hassemble kind n with
    | [], _, hall | _ :: _ :: _, _, hall => exact hall
    | [arg], h, _ =>
      refine ReadsLocals.bind (h arg List.mem_cons_self) fun v => ?_
      obtain ⟨id, vty⟩ := v
      cases vty with
      | scalar k => exact (reads_appendResult _ _).bind fun _ => .pure _
      | _ => exact .throw _
  | _ => exact .throw _

theorem reads_saturate (hx : ReadsLocals xs x) : ReadsLocals xs (emitSaturate x) :=
  ReadsLocals.bind hx fun v => (reads_constOp _ _).bind fun lo => (reads_constOp _ _).bind fun hi =>
    (reads_typeId _).bind fun _ => (reads_broadcast lo v.ty).bind fun _ =>
      (reads_broadcast hi v.ty).bind fun _ => (reads_extInst _ _ _).bind fun _ => .pure _

theorem reads_dot {x y : Cg Val} (hx : ReadsLocals xs x) (hy : ReadsLocals xs y) :
    ReadsLocals xs (emitDot x y) :=
  ReadsLocals.bind hx fun _ => ReadsLocals.bind hy fun _ => (reads_typeId _).bind fun _ =>
    (reads_appendResult _ _).bind fun _ => .pure _

theorem reads_mul (h : ∀ x ∈ args, ReadsLocals xs x) : ReadsLocals xs (emitMul args) := by
  match args, h with
  | [x, y], h =>
    refine ReadsLocals.bind (h x (by simp)) fun a => ReadsLocals.bind (h y (by simp)) fun b => ?_
    split
    · exact .throw _
    · exact (reads_typeId _).bind fun _ => (reads_appendResult _ _).bind fun _ => .pure _
    · exact reads_arith _ a b
  | [], _ | [_], _ | _ :: _ :: _ :: _, _ => exact .throw _

theorem reads_intrinsic (name : String) (h : ∀ x ∈ args, ReadsLocals xs x) :
    ReadsLocals xs (emitIntrinsic name args) := by
  unfold emitIntrinsic
  cases intrinsics.lookup name with
  | none => exact .throw _
  | some r =>
    obtain ⟨extOp, arity⟩ := r
    by_cases hlen : args.length ≠ arity
    · simp only [if_pos hlen]
      exact .throw _
    · simp only [if_neg hlen]
      exact ReadsLocals.bind (reads_args h) fun _ => (reads_typeId _).bind fun _ =>
        (reads_extInst _ _ _).bind fun _ => .pure _

theorem reads_call (name : String) (h : ∀ x ∈ args, ReadsLocals xs x) :
    ReadsLocals xs (emitCall name args) := by
  unfold emitCall
  split
  · exact reads_saturate (h _ (by simp))
  · exact reads_dot (h _ (by simp)) (h _ (by simp))
  · exact reads_mul h
  · exact reads_intrinsic name h

theorem reads_methodCall {base : Expr} (method : String) (hbase : ∀ y ∈ base.idents, y ∈ xs)
    (h : ∀ x ∈ args, ReadsLocals xs x) : ReadsLocals xs (emitMethodCall base method args) := by
  unfold emitMethodCall
  by_cases hm : method ≠ "Sample"
  · rw [if_pos hm]
    exact .throw _
  · rw [if_neg hm]
    match args, h with
    | [x, y], h =>
      exact ReadsLocals.bind ((reads_place base).mono hbase) fun place =>
        (reads_appendResult _ _).bind fun _ => ReadsLocals.bind (h x (by simp)) fun _ =>
          ReadsLocals.bind (h y (by simp)) fun _ => (reads_appendResult _ _).bind fun _ =>
            (reads_appendResult _ _).bind fun _ => .pure _
    | [], _ | [_], _ | _ :: _ :: _ :: _, _ => exact .throw _

mutual

/-- The emission of an expression looks up its identifiers. -/
theorem reads_expr : ∀ e : Expr, ReadsLocals e.idents (emitExpr e)
  | .literal l => reads_literal l
  | .ident x => ReadsLocals.bind (reads_place (.ident x)) fun place =>
      reads_loadPlace place (reads_valueTypeId _)
  | .construct ty args => reads_construct ty (reads_exprs args)
  | .member base member => reads_member member (reads_expr base)
  | .call name args => reads_call name (reads_exprs args)
  | .methodCall _ method args =>
      reads_methodCall method (fun _ hy => List.mem_append_left _ hy) fun x hx =>
        (reads_exprs args x hx).mono fun _ hy => List.mem_append_right _ hy
  | .binary op lhs rhs =>
      reads_binary op (fun _ hy => List.mem_append_left _ hy)
        ((reads_expr lhs).mono fun _ hy => List.mem_append_left _ hy)
        ((reads_expr rhs).mono fun _ hy => List.mem_append_right _ hy)
  | .unary op e => reads_unary op (reads_expr e)
  | .cast ty e => reads_cast ty (reads_expr e)

theorem reads_exprs : ∀ es : List Expr, ∀ x ∈ emitExprs es, ReadsLocals (identsOf es) x
  | [], _, h => nomatch h
  | e :: es, x, h => by
      rcases List.mem_cons.1 h with he | hs
      · rw [he]
        exact (reads_expr e).mono fun _ hy => List.mem_append_left _ hy
      · exact (reads_exprs es x hs).mono fun _ hy => List.mem_append_right _ hy

end

end

end WinCompat.Hlsl
