import WinCompat.Hlsl.ExprTyping

/-!
# The code of well-typed statements is well typed

`Checked x typed after ends`: whatever `x` emits is well typed exactly when `typed` holds of the scope
it begins in, and it leaves the scope `after`. Statements are checked by induction on the syntax
(`checked_stmt`); what an expression emits is known from its code, whose ids are new
(`Code.straight`).
-/

namespace WinCompat.Hlsl

open Lib Lib.Comp

variable {is : List Spirv.Inst} {v : Val}

/-! ## Steps of the emitter -/

/-- There is a function, and a block is selected as `o` says. -/
def Ctx.OpenIs (s : Ctx) (o : Bool) : Prop :=
  ∃ f, s.builder.func = some f ∧ f.selected.isSome = o

theorem Ctx.OpenIs.isOpen {s : Ctx} (h : s.OpenIs true) : s.Open := by
  obtain ⟨f, hf, ho⟩ := h
  obtain ⟨b, hb⟩ := Option.isSome_iff_exists.mp ho
  exact ⟨f, b, hf, hb⟩

theorem Ctx.Open.openIs {s : Ctx} (h : s.Open) : s.OpenIs true := by
  obtain ⟨f, b, hf, hb⟩ := h
  exact ⟨f, hf, by rw [hb]; rfl⟩

/-- The context is one in which the scope begins: its tables and its output are as the scope says. -/
structure Fits (Γ : Spirv.Env) (s : Ctx) (sc : Scope) : Prop where
  tables : Describes Γ s.toTables sc
  out : ∃ v, s.outVar = some v ∧ Γ.ty v = some (.pointer .output sc.out)

/-- From `s` to `s'`, instructions have been emitted that are well typed exactly when `T` holds, and
    a scope that fits `s` has become one that fits `s'`. Code adds no variable of the module and no
    decoration. -/
structure Goes (s s' : Ctx) (o : Bool) (T : Spirv.Env → Scope → Prop) (after : Scope → Scope) :
    Prop where
  emits : ∃ is, s.builder.Emitted s'.builder is ∧ ∀ Γ sc, Γ.Agrees s'.builder → Fits Γ s sc →
    Fits Γ s' (after sc) ∧ (AllWellTyped Γ is ↔ T Γ sc)
  isOpen : s'.OpenIs o
  globals : s.builder.SameGlobals s'.builder

namespace Goes

variable {s s₁ s₂ : Ctx} {o o' : Bool} {T T' T'' : Spirv.Env → Scope → Prop}
  {after after' : Scope → Scope}

theorem agrees (h : Goes s s₁ o T after) {Γ : Spirv.Env} (ha : Γ.Agrees s₁.builder) :
    Γ.Agrees s.builder := by
  obtain ⟨is, hem, -⟩ := h.emits
  exact hem.agrees Γ ha

theorem fits (h : Goes s s₁ o T after) {Γ : Spirv.Env} {sc : Scope} (ha : Γ.Agrees s₁.builder)
    (hf : Fits Γ s sc) : Fits Γ s₁ (after sc) := by
  obtain ⟨is, -, hj⟩ := h.emits
  exact (hj Γ sc ha hf).1

/-- One step after another; what is known in between may settle a condition. -/
theorem trans_of (h : Goes s s₁ o T after) (h' : Goes s₁ s₂ o' T' after')
    (hiff : ∀ Γ sc, Γ.Agrees s₁.builder → Fits Γ s sc →
      (T Γ sc ∧ T' Γ (after sc) ↔ T'' Γ sc)) :
    Goes s s₂ o' T'' fun sc => after' (after sc) := by
  obtain ⟨is, hem, hj⟩ := h.emits
  obtain ⟨is', hem', hj'⟩ := h'.emits
  refine ⟨⟨is ++ is', hem.trans hem', fun Γ sc ha hf => ?_⟩, h'.isOpen,
    h.globals.trans h'.globals⟩
  have ha₁ := hem'.agrees Γ ha
  obtain ⟨hf₁, htyped⟩ := hj Γ sc ha₁ hf
  obtain ⟨hf₂, htyped'⟩ := hj' Γ _ ha hf₁
  refine ⟨hf₂, ?_⟩
  rw [allWellTyped_append, htyped, htyped']
  exact hiff Γ sc ha₁ hf

theorem trans (h : Goes s s₁ o T after) (h' : Goes s₁ s₂ o' T' after') :
    Goes s s₂ o' (fun Γ sc => T Γ sc ∧ T' Γ (after sc)) fun sc => after' (after sc) :=
  h.trans_of h' fun _ _ _ _ => Iff.rfl

theorem congr (h : Goes s s₁ o T after) (hiff : ∀ Γ sc, T Γ sc ↔ T' Γ sc) :
    Goes s s₁ o T' after := by
  obtain ⟨is, hem, hj⟩ := h.emits
  exact ⟨⟨is, hem, fun Γ sc ha hf => ⟨(hj Γ sc ha hf).1, (hj Γ sc ha hf).2.trans (hiff Γ sc)⟩⟩,
    h.isOpen, h.globals⟩

theorem free (h : Goes s s₁ o T after) (ht : ∀ Γ sc, T Γ sc) :
    Goes s s₁ o (fun _ _ => True) after :=
  h.congr fun Γ sc => iff_of_true (ht Γ sc) trivial

theorem skip (h : Goes s s₁ o (fun _ _ => True) id) (h' : Goes s₁ s₂ o' T after) :
    Goes s s₂ o' T after :=
  h.trans_of h' fun _ _ _ _ => and_iff_right trivial

theorem skip_right (h : Goes s s₁ o T after) (h' : Goes s₁ s₂ o' (fun _ _ => True) id) :
    Goes s s₂ o' T after :=
  h.trans_of h' fun _ _ _ _ => and_iff_left trivial

theorem refl (h : s.OpenIs o) : Goes s s o (fun _ _ => True) id :=
  ⟨⟨[], .refl _, fun _ _ _ hf => ⟨hf, iff_of_true allWellTyped_nil trivial⟩⟩, h, rfl, rfl⟩

end Goes

theorem insts_of_func {b : Spirv.Builder} {f : Spirv.Function} (h : b.func = some f) :
    b.insts = f.insts := by
  unfold Spirv.Builder.insts
  rw [h]

theorem insts_appendAll {f : Spirv.Function} {b : Spirv.Block} (h : f.selected = some b)
    (is : List Spirv.Inst) : (f.appendAll is).insts = f.insts ++ is := by
  simp [Spirv.Function.insts, Spirv.Function.blocks, Spirv.Function.appendAll, h]

section

variable {s s' : Ctx}

variable {cs : List Spirv.Constant}

variable {n : Spirv.Id}

theorem extend_emitted (hs : s.Open) (ha : Spirv.Adds s.builder.nextId n cs is) :
    s.builder.Emitted (s.extend n cs is).builder is := by
  obtain ⟨f, b, hf, hb⟩ := hs
  refine Spirv.Builder.emitted_of_insts cs rfl rfl ?_ ha
  have hf' : (s.extend n cs is).builder.func = some (f.appendAll is) := by
    show s.builder.func.map _ = _
    rw [hf]
    rfl
  rw [insts_of_func hf, insts_of_func hf', insts_appendAll hb]

theorem extend_known (hs : s.Open) {Γ : Spirv.Env} (ha : Γ.Agrees (s.extend n cs is).builder) :
    ConstsIn Γ cs ∧ ResultsIn Γ is := by
  obtain ⟨f, b, hf, hb⟩ := hs
  have hf' : (s.extend n cs is).builder.func = some (f.appendAll is) := by
    show s.builder.func.map _ = _
    rw [hf]
    rfl
  have hdefs : ∀ d ∈ (s.extend n cs is).builder.defs, Γ.ty d.1 = some d.2 := ha.ty
  unfold Spirv.Builder.defs at hdefs
  rw [insts_of_func hf', insts_appendAll hb] at hdefs
  constructor
  · intro c hc
    have hmem : c ∈ (s.extend n cs is).builder.constants := List.mem_append_right _ hc
    refine ⟨hdefs (c.id, c.ty) ?_, ha.bits c hmem⟩
    exact List.mem_append_left _ (List.mem_append_left _ (List.mem_map.mpr ⟨c, hmem, rfl⟩))
  · intro i hi d hd
    apply hdefs d
    exact List.mem_append_right _ (List.mem_filterMap.mpr ⟨i, List.mem_append_right _ hi, hd⟩)

/-! ### Builder calls -/

/-- A value of an expression: its type is the one that the rules give. -/
def ValueIn (s s' : Ctx) (e : Expr) (v : Val) : Prop :=
  ∀ Γ sc, Γ.Agrees s'.builder → Fits Γ s sc → sc.valTy e = some v.ty ∧ HasTy Γ sc v

/-- A pointer to a local variable of type `ty`. -/
def LocalPtr (s s' : Ctx) (ptr : Spirv.Id) (ty : Ty) : Prop :=
  ∀ Γ sc, Γ.Agrees s'.builder → Fits Γ s sc → LocalIn Γ sc ⟨ptr, ty⟩ ty

theorem goes_extend (hs : s.Open) {T : Spirv.Env → Scope → Prop}
    (ha : Spirv.Adds s.builder.nextId n cs is)
    (hiff : ∀ Γ sc, Fits Γ s sc → ConstsIn Γ cs → ResultsIn Γ is →
      (AllWellTyped Γ is ↔ T Γ sc)) : Goes s (s.extend n cs is) true T id := by
  refine ⟨⟨is, extend_emitted hs ha, fun Γ sc hΓ hf => ?_⟩, (hs.extend n cs is).openIs, rfl, rfl⟩
  obtain ⟨hc, hr⟩ := extend_known hs hΓ
  exact ⟨⟨hf.tables, hf.out⟩, hiff Γ sc hf hc hr⟩

theorem goes_expr {e : Expr} (hs : s.Open) (h : emitExpr e s = .ok (v, s')) :
    Goes s s' true (fun _ sc => sc.Typed e) id ∧ ValueIn s s' e v := by
  obtain ⟨n, cs, is, hcode, rfl⟩ := emitExpr_code _ e s v s' hs rfl h
  constructor
  · refine goes_extend hs hcode.straight.adds fun Γ sc hf hc hr => ?_
    exact (hcode.judged hf.tables hc hr).typed
  · intro Γ sc hΓ hf
    obtain ⟨hc, hr⟩ := extend_known hs hΓ
    have hj := hcode.judged hf.tables hc hr
    exact ⟨hj.ty, hj.val⟩

variable {u : Unit}

variable {what : String}

theorem goes_append {i : Spirv.Inst} (hs : s.Open) (hi : i.result = none)
    (h : append what i s = .ok (u, s')) : Goes s s' true (fun Γ _ => i.WellTyped Γ) id := by
  rw [append_ok hs h]
  refine goes_extend hs (.noResult hi) fun Γ sc hf hc hr => ?_
  simp

variable {l : Spirv.Id}

theorem goes_label {o : Bool} (hs : s.OpenIs o) (h : builderId s = .ok (l, s')) :
    Goes s s' o (fun _ _ => True) id := by
  cases h
  refine ⟨⟨[], ?_, fun Γ sc _ hf => ⟨⟨hf.tables, hf.out⟩, iff_of_true allWellTyped_nil trivial⟩⟩,
    hs, rfl, rfl⟩
  refine Spirv.Builder.emitted_of_insts [] (List.append_nil _).symm rfl ?_
    (.nil (Nat.le_succ _))
  rw [List.append_nil]
  exact List.Perm.refl _

/-- A change of the function that adds the instructions `is` somewhere. -/
theorem goes_onFunction (is : List Spirv.Inst) {change : Spirv.Function → Option Spirv.Function}
    {o : Bool} (h : onFunction what change s = .ok (u, s'))
    (hi : ∀ f f', change f = some f' → f'.insts.Perm (f.insts ++ is) ∧ f'.selected.isSome = o)
    (ha : Spirv.Adds s.builder.nextId s.builder.nextId [] is) :
    Goes s s' o (fun Γ _ => AllWellTyped Γ is) id := by
  obtain ⟨f, f', hf, hc, rfl⟩ := onFunction_ok h
  obtain ⟨hperm, ho⟩ := hi f f' hc
  refine ⟨⟨is, ?_, fun Γ sc _ hf => ⟨⟨hf.tables, hf.out⟩, Iff.rfl⟩⟩, ⟨f', rfl, ho⟩, rfl, rfl⟩
  refine Spirv.Builder.emitted_of_insts [] (List.append_nil _).symm rfl ?_ ha
  rw [insts_of_func hf]
  exact hperm

theorem goes_begin (h : beginBlock l s = .ok (u, s')) : Goes s s' true (fun _ _ => True) id := by
  refine (goes_onFunction [] h (fun f f' hf => ?_) (.nil (Nat.le_refl _))).congr fun _ _ =>
    iff_of_true allWellTyped_nil trivial
  obtain ⟨-, rfl⟩ := Spirv.Function.begin_eq_some hf
  refine ⟨?_, rfl⟩
  rw [Spirv.Function.insts, Spirv.Function.insts, Spirv.Function.blocks_begin hf]
  simp

theorem goes_terminate {i : Spirv.Inst} (hi : i.result = none)
    (h : terminate what i s = .ok (u, s')) : Goes s s' false (fun Γ _ => i.WellTyped Γ) id := by
  refine (goes_onFunction [i] h (fun f f' hf => ?_) (.noResult hi)).congr fun _ _ => by simp
  obtain ⟨b, hb, rfl⟩ := Spirv.Function.terminate_eq_some hf
  refine ⟨?_, rfl⟩
  rw [Spirv.Function.insts, Spirv.Function.blocks_terminate hf]
  exact List.Perm.of_eq (insts_appendAll hb [i])

theorem isTerminated_ok {o b : Bool} (hs : s.OpenIs o) (h : isTerminated s = .ok (b, s')) :
    b = !o ∧ s' = s := by
  obtain ⟨s0, s1, h0, h⟩ := bind_eq_ok h
  cases h0
  obtain ⟨f, hf, ho⟩ := hs
  simp only [hf] at h
  cases h
  exact ⟨ho ▸ (Option.not_isSome f.selected).symm, rfl⟩

theorem goes_branch {o : Bool} (hs : s.OpenIs o) (h : branchUnlessTerminated l s = .ok (u, s')) :
    Goes s s' false (fun _ _ => True) id := by
  obtain ⟨b, s1, h1, h⟩ := bind_eq_ok h
  obtain ⟨rfl, rfl⟩ := isTerminated_ok hs h1
  cases o with
  | false =>
    cases h
    exact .refl hs
  | true => exact (goes_terminate rfl h).congr fun _ _ => Iff.rfl

/-! ### Locals -/

theorem typeOf_addLocal (sc : Scope) (name : String) (ty ty' : Ty) :
    (sc.addLocal name ty).typeOf ty' = sc.typeOf ty' := by
  cases ty' <;> rfl

variable {ty : Ty}

theorem Describes.addLocal {Γ : Spirv.Env} {t : Tables} {sc : Scope} {l : Local}
    (hd : Describes Γ t sc) (name : String) (hl : LocalIn Γ sc l ty) :
    Describes Γ { t with locals := (name, l) :: t.locals } (sc.addLocal name ty) := by
  have hmono : ∀ l' ty', LocalIn Γ sc l' ty' → LocalIn Γ (sc.addLocal name ty) l' ty' := by
    rintro l' ty' ⟨hty, st, hst, hptr⟩
    exact ⟨hty, st, (typeOf_addLocal _ _ _ _).trans hst, hptr⟩
  exact ⟨hd.structs, hd.structsOk, hd.globals, hd.members,
    (hd.locals.mono hmono).cons name (hmono _ _ hl)⟩

variable {ptr : Spirv.Id}

theorem Goes.addLocal {o : Bool} {T : Spirv.Env → Scope → Prop} {after : Scope → Scope} {s₁ : Ctx}
    {name : String} (hg : Goes s s₁ o T after)
    (hptr : ∀ Γ sc, Γ.Agrees s₁.builder → Fits Γ s sc → LocalIn Γ (after sc) ⟨ptr, ty⟩ ty)
    (h : WinCompat.Hlsl.addLocal name ⟨ptr, ty⟩ s₁ = .ok (u, s')) :
    Goes s s' o T fun sc => (after sc).addLocal name ty := by
  cases h
  obtain ⟨is, hem, hj⟩ := hg.emits
  refine ⟨⟨is, hem, fun Γ sc hΓ hf => ?_⟩, hg.isOpen, hg.globals⟩
  obtain ⟨hf₁, htyped⟩ := hj Γ sc hΓ hf
  exact ⟨⟨hf₁.tables.addLocal name (hptr Γ sc hΓ hf), hf₁.out⟩, htyped⟩

/-- The variable is put in front of the instructions, and nothing else changes. -/
theorem allocLocal_ok {o : Bool} (hs : s.OpenIs o) (h : allocLocal ty s = .ok (ptr, s')) :
    ∃ st f', s.typeId ty = .ok st ∧ ptr = s.builder.nextId ∧
      s' = { s with builder := { s.builder with
        nextId := s.builder.nextId + 1
        func := some f' } } ∧
      f'.insts = .variable (.pointer .function st) s.builder.nextId .function :: s.builder.insts ∧
      f'.selected.isSome = o := by
  obtain ⟨st, s1, h1, h⟩ := bind_eq_ok h
  obtain ⟨hty, rfl⟩ := typeId_ok h1
  obtain ⟨id, s2, h2, h⟩ := bind_eq_ok h
  cases h2
  obtain ⟨s0, s3, h3, h⟩ := bind_eq_ok h
  cases h3
  obtain ⟨f, hf, ho⟩ := hs
  have hf₂ : s.builder.fresh.2.func = some f := hf
  simp only [hf₂] at h
  obtain ⟨u, s4, h4, h⟩ := bind_eq_ok h
  cases h
  unfold insertFront Spirv.Builder.onFunction at h4
  cases hc : f.insertFront
      (.variable (.pointer .function st) s.builder.fresh.1 .function) with
  | none =>
    simp only [hf₂, hc] at h4
    cases h4
  | some f' =>
    simp only [hf₂, hc] at h4
    cases h4
    refine ⟨st, f', hty, rfl, rfl, ?_, ?_⟩
    · obtain ⟨b, bs, hb, hb'⟩ := Spirv.Function.blocks_insertFront hc
      rw [insts_of_func hf, Spirv.Function.insts, Spirv.Function.insts, hb, hb']
      rfl
    · rcases Spirv.Function.insertFront_eq_some hc with ⟨b, bs, -, rfl⟩ | ⟨b, -, hsel, rfl⟩
      · exact ho
      · rw [hsel] at ho
        exact ho

theorem goes_allocLocal {o : Bool} (hs : s.OpenIs o) (h : allocLocal ty s = .ok (ptr, s')) :
    Goes s s' o (fun _ _ => True) id ∧ LocalPtr s s' ptr ty ∧ s'.toTables = s.toTables := by
  obtain ⟨st, f', hty, rfl, rfl, hinsts, ho⟩ := allocLocal_ok hs h
  refine ⟨?_, ?_, rfl⟩
  · refine ⟨⟨[.variable (.pointer .function st) s.builder.nextId .function], ?_,
      fun Γ sc _ hfit => ⟨⟨hfit.tables, hfit.out⟩, ?_⟩⟩, ⟨f', rfl, ho⟩, rfl, rfl⟩
    · refine Spirv.Builder.emitted_of_insts [] (List.append_nil _).symm rfl ?_ (.result rfl)
      rw [insts_of_func (f := f') rfl, hinsts]
      exact (List.perm_append_singleton _ _).symm
    · refine iff_of_true ?_ trivial
      simp [Spirv.Inst.WellTyped]
  · intro Γ sc hΓ hfit
    refine ⟨rfl, st, hfit.tables.typeOf hty, ?_⟩
    apply hΓ.ty (s.builder.nextId, .pointer .function st)
    refine List.mem_append_right _ (List.mem_filterMap.mpr
      ⟨.variable (.pointer .function st) s.builder.nextId .function, ?_, rfl⟩)
    rw [insts_of_func (f := f') rfl, hinsts]
    exact List.mem_cons_self

theorem goes_store {object : Spirv.Id} (hs : s.Open) (h : store ptr object s = .ok (u, s')) :
    Goes s s' true (fun Γ _ => (Spirv.Inst.store ptr object).WellTyped Γ) id :=
  goes_append hs rfl h

end

/-! ## Statements -/

/-- Whatever `x` emits is well typed exactly when `typed` holds of the scope it begins in; it leaves
    the scope `after`, and it ends the block as `ends` says. -/
def Checked (x : Cg Unit) (typed : Scope → Prop) (after : Scope → Scope) (ends : Bool) : Prop :=
  ∀ {s s' : Ctx} {u : Unit}, s.Open → x s = .ok (u, s') →
    Goes s s' (!ends) (fun _ sc => typed sc) after

theorem checked_nothing : Checked (pure ()) (fun _ => True) id false := by
  intro s s' u hs h
  cases h
  exact .refl hs.openIs

theorem checked_expr (e : Expr) :
    Checked (do let _ ← emitExpr e; pure ()) (fun sc => sc.Typed e) id false := by
  intro s s' u hs h
  obtain ⟨v, s1, h1, h⟩ := bind_eq_ok h
  cases h
  exact (goes_expr hs h1).1

theorem checked_return (e : Option Expr) : Checked (emitReturn e) (fun sc => sc.ReturnTyped e) id true := by
  intro s s' u hs h
  cases e with
  | none => exact (goes_terminate rfl h).congr fun _ _ => Iff.rfl
  | some e =>
    obtain ⟨v, s1, h1, h⟩ := bind_eq_ok h
    obtain ⟨he, hv⟩ := goes_expr hs h1
    obtain ⟨s0, s2, h2, h⟩ := bind_eq_ok h
    cases h2
    cases hout : s1.outVar with
    | none =>
      simp only [hout] at h
      refine he.trans_of (goes_terminate rfl h) fun Γ sc hΓ hf => ?_
      obtain ⟨w, hw, -⟩ := (he.fits hΓ hf).out
      rw [hout] at hw
      cases hw
    | some out =>
      simp only [hout] at h
      obtain ⟨u, s3, h3, h⟩ := bind_eq_ok h
      have hstore := goes_store he.isOpen.isOpen h3
      have hret := (goes_terminate rfl h).free fun _ _ => trivial
      refine he.trans_of (hstore.skip_right hret) fun Γ sc hΓ hf => ?_
      obtain ⟨w, hw, hptr⟩ := (he.fits hΓ hf).out
      rw [hout] at hw
      cases hw
      obtain ⟨hty, st, hst, hid⟩ := hv Γ sc hΓ hf
      rw [store_wellTyped hptr hid]
      simp [Scope.ReturnTyped, hty, hst]

theorem checked_varDecl (vd : VarDecl) :
    Checked (emitVarDecl vd) (fun sc => sc.VarDeclTyped vd) (fun sc => sc.addLocal vd.name vd.ty)
      false := by
  intro s s' u hs h
  obtain ⟨ptr, s1, h1, h⟩ := bind_eq_ok h
  obtain ⟨halloc, hptr, -⟩ := goes_allocLocal hs.openIs h1
  cases hinit : vd.init with
  | none =>
    simp only [hinit] at h
    refine (halloc.addLocal hptr h).congr fun _ sc => ?_
    simp [Scope.VarDeclTyped, hinit]
  | some e =>
    simp only [hinit] at h
    obtain ⟨v, s2, h2, h⟩ := bind_eq_ok h
    obtain ⟨he, hv⟩ := goes_expr halloc.isOpen.isOpen h2
    obtain ⟨u', s3, h3, h⟩ := bind_eq_ok h
    have hstore := goes_store he.isOpen.isOpen h3
    have hbody : Goes s s3 true (fun _ sc => sc.VarDeclTyped vd) id := by
      refine (halloc.skip he).trans_of hstore fun Γ sc hΓ hf => ?_
      have hΓ₁ := he.agrees hΓ
      obtain ⟨-, st, hst, hp⟩ := hptr Γ sc hΓ₁ hf
      obtain ⟨hty, sv, hsv, hid⟩ := hv Γ sc hΓ (halloc.fits hΓ₁ hf)
      rw [store_wellTyped hp hid]
      simp [Scope.VarDeclTyped, hinit, hty, hsv, hst]
    refine hbody.addLocal (fun Γ sc hΓ hf => ?_) h
    exact hptr Γ sc (he.agrees (hstore.agrees hΓ)) hf

/-! ### Control flow -/

theorem coerceToBoolOut_wellTyped {Γ : Spirv.Env} {sc : Scope} {id cid : Spirv.Id}
    (hv : HasTy Γ sc v) (h : coerceToBoolOut v id = some (cid, is)) : AllWellTyped Γ is := by
  obtain ⟨st, hst, hid⟩ := hv
  unfold coerceToBoolOut at h
  split at h
  · cases h
    exact allWellTyped_nil
  · next n hty =>
    cases h
    rw [hty] at hst
    cases hst
    simp [unary_wellTyped _ _ _ hid, Spirv.UnaryOp.Accepts, vectorTypeId, scalarTypeId]
  · cases h

theorem coerceToBoolOut_bool {Γ : Spirv.Env} {sc : Scope} {id cid : Spirv.Id} (hv : HasTy Γ sc v)
    (h : coerceToBoolOut v id = some (cid, is)) (hr : ResultsIn Γ is) : Γ.ty cid = some .bool := by
  obtain ⟨st, hst, hid⟩ := hv
  unfold coerceToBoolOut at h
  split at h
  · next hty =>
    cases h
    rw [hty] at hst
    cases hst
    exact hid
  · cases h
    exact hr _ List.mem_cons_self (id, .bool) rfl
  · cases h

/-- The code of a condition leaves a boolean. -/
theorem goes_condId {cond : Expr} {s s₁ s₂ : Ctx} {cid : Spirv.Id} (hs : s.Open)
    (h : emitExpr cond s = .ok (v, s₁)) (h' : coerceToBool v s₁ = .ok (cid, s₂)) :
    Goes s s₂ true (fun _ sc => sc.Typed cond) id ∧
      ∀ Γ sc, Γ.Agrees s₂.builder → Fits Γ s sc → Γ.ty cid = some .bool := by
  obtain ⟨he, hv⟩ := goes_expr hs h
  have ho := he.isOpen.isOpen
  obtain ⟨is, hb, rfl⟩ := coerceToBool_ok ho h'
  have hany := goes_extend (T := fun Γ _ => AllWellTyped Γ is) ho (coerceToBoolOut_straight hb).adds
    fun _ _ _ _ _ => Iff.rfl
  constructor
  · refine he.trans_of hany fun Γ sc hΓ hf => ?_
    exact and_iff_left (coerceToBoolOut_wellTyped (hv Γ sc hΓ hf).2 hb)
  · intro Γ sc hΓ hf
    exact coerceToBoolOut_bool (hv Γ sc (hany.agrees hΓ) hf).2 hb (extend_known ho hΓ).2

/-- A block that runs to `target`. -/
theorem goes_arm {x : Cg Unit} {typed : Scope → Prop} {after : Scope → Scope} {ends : Bool}
    (hx : Checked x typed after ends) {s s₁ s₂ s₃ : Ctx} {label target : Spirv.Id} {u u' u'' : Unit}
    (h₁ : beginBlock label s = .ok (u, s₁)) (h₂ : x s₁ = .ok (u', s₂))
    (h₃ : branchUnlessTerminated target s₂ = .ok (u'', s₃)) :
    Goes s s₃ false (fun _ sc => typed sc) after := by
  have hbegin := goes_begin h₁
  have hbody := hx hbegin.isOpen.isOpen h₂
  exact hbegin.skip (hbody.skip_right (goes_branch hbody.isOpen h₃))

/-- The merge and the branch of an `if`. -/
theorem goes_select {s s₁ s₂ : Ctx} {merge cid then_ else_ : Spirv.Id} {u u' : Unit} (hs : s.Open)
    (h₁ : append "selection_merge" (.selectionMerge merge) s = .ok (u, s₁))
    (h₂ : terminate "branch_conditional" (.branchConditional cid then_ else_) s₁ = .ok (u', s₂)) :
    Goes s s₂ false (fun Γ _ => Γ.ty cid = some .bool) id :=
  ((goes_append hs rfl h₁).free fun _ _ => trivial).skip
    ((goes_terminate rfl h₂).congr fun _ _ => Iff.rfl)

variable {typed typed' : Scope → Prop}

variable {ends ends' : Bool} {x y : Cg Unit}

theorem checked_if_else (cond : Expr) {after after' : Scope → Scope}
    (hx : Checked x typed after ends) (hy : Checked y typed' after' ends') :
    Checked (emitIf cond x (some y)) (fun sc => sc.Typed cond ∧ typed sc ∧ typed' (after sc))
      (fun sc => after' (after sc)) false := by
  intro s s' u hs h
  obtain ⟨v, s1, h1, h⟩ := bind_eq_ok h
  obtain ⟨cid, s2, h2, h⟩ := bind_eq_ok h
  obtain ⟨hcond, hbool⟩ := goes_condId hs h1 h2
  obtain ⟨thenLabel, s3, h3, h⟩ := bind_eq_ok h
  have hthen := goes_label hcond.isOpen h3
  obtain ⟨mergeLabel, s4, h4, h⟩ := bind_eq_ok h
  have hmerge := goes_label hthen.isOpen h4
  obtain ⟨elseLabel, s5, h5, h⟩ := bind_eq_ok h
  have helse := goes_label hmerge.isOpen h5
  obtain ⟨_, s6, h6, h⟩ := bind_eq_ok h
  obtain ⟨_, s7, h7, h⟩ := bind_eq_ok h
  have hselect := hthen.skip (hmerge.skip (helse.skip (goes_select helse.isOpen.isOpen h6 h7)))
  obtain ⟨_, s8, h8, h⟩ := bind_eq_ok h
  obtain ⟨_, s9, h9, h⟩ := bind_eq_ok h
  obtain ⟨_, s10, h10, h⟩ := bind_eq_ok h
  have harm := goes_arm hx h8 h9 h10
  obtain ⟨_, s11, h11, h⟩ := bind_eq_ok h
  obtain ⟨_, s12, h12, h⟩ := bind_eq_ok h
  obtain ⟨_, s13, h13, h⟩ := bind_eq_ok h
  have harm' := goes_arm hy h11 h12 h13
  have hhead : Goes s _ false (fun _ sc => sc.Typed cond) id :=
    hcond.trans_of hselect fun Γ sc hΓ hf => and_iff_left (hbool Γ sc hΓ hf)
  exact hhead.trans (harm.trans (harm'.skip_right (goes_begin h)))

theorem checked_if (cond : Expr) {x : Cg Unit} {typed : Scope → Prop} {after : Scope → Scope}
    {ends : Bool} (hx : Checked x typed after ends) :
    Checked (emitIf cond x none) (fun sc => sc.Typed cond ∧ typed sc) after false := by
  intro s s' u hs h
  obtain ⟨v, s1, h1, h⟩ := bind_eq_ok h
  obtain ⟨cid, s2, h2, h⟩ := bind_eq_ok h
  obtain ⟨hcond, hbool⟩ := goes_condId hs h1 h2
  obtain ⟨thenLabel, s3, h3, h⟩ := bind_eq_ok h
  have hthen := goes_label hcond.isOpen h3
  obtain ⟨mergeLabel, s4, h4, h⟩ := bind_eq_ok h
  have hmerge := goes_label hthen.isOpen h4
  obtain ⟨_, s5, h5, h⟩ := bind_eq_ok h
  obtain ⟨_, s6, h6, h⟩ := bind_eq_ok h
  have hselect := hthen.skip (hmerge.skip (goes_select hmerge.isOpen.isOpen h5 h6))
  obtain ⟨_, s7, h7, h⟩ := bind_eq_ok h
  obtain ⟨_, s8, h8, h⟩ := bind_eq_ok h
  obtain ⟨_, s9, h9, h⟩ := bind_eq_ok h
  have harm := goes_arm hx h7 h8 h9
  have hhead : Goes s _ false (fun _ sc => sc.Typed cond) id :=
    hcond.trans_of hselect fun Γ sc hΓ hf => and_iff_left (hbool Γ sc hΓ hf)
  exact hhead.trans (harm.skip_right (goes_begin h))

theorem goes_update {update : Option Expr} {s s' : Ctx} {u : Unit} (hs : s.Open)
    (h : emitUpdate update s = .ok (u, s')) :
    Goes s s' true (fun _ sc => sc.OptTyped update) id := by
  cases update with
  | none =>
    cases h
    exact .refl hs.openIs
  | some e => exact checked_expr e hs h

theorem goes_forCond {cond : Option Expr} {s s' : Ctx} {body merge : Spirv.Id} {u : Unit}
    (hs : s.Open) (h : emitForCond cond body merge s = .ok (u, s')) :
    Goes s s' false (fun _ sc => sc.OptTyped cond) id := by
  cases cond with
  | none => exact (goes_terminate rfl h).congr fun _ _ => Iff.rfl
  | some c =>
    obtain ⟨v, s1, h1, h⟩ := bind_eq_ok h
    obtain ⟨cid, s2, h2, h⟩ := bind_eq_ok h
    obtain ⟨hcond, hbool⟩ := goes_condId hs h1 h2
    exact hcond.trans_of (goes_terminate rfl h) fun Γ sc hΓ hf =>
      and_iff_left (hbool Γ sc hΓ hf)

theorem checked_for (cond update : Option Expr) {after after' : Scope → Scope}
    (hx : Checked x typed after ends) (hy : Checked y typed' after' ends') :
    Checked (emitFor x cond update y)
      (fun sc => typed sc ∧ (ends = true ∨ (after sc).OptTyped cond ∧ typed' (after sc) ∧
        (after' (after sc)).OptTyped update))
      (fun sc => if ends then after sc else after' (after sc)) ends := by
  intro s s' u hs h
  obtain ⟨_, s1, h1, h⟩ := bind_eq_ok h
  have hinit := hx hs h1
  obtain ⟨b, s2, h2, h⟩ := bind_eq_ok h
  obtain ⟨rfl, rfl⟩ := isTerminated_ok hinit.isOpen h2
  cases ends with
  | true =>
    cases h
    exact hinit.congr fun _ _ => by simp
  | false =>
    obtain ⟨header, s3, h3, h⟩ := bind_eq_ok h
    have hheader := goes_label hinit.isOpen h3
    obtain ⟨body, s4, h4, h⟩ := bind_eq_ok h
    have hbody := goes_label hheader.isOpen h4
    obtain ⟨continue_, s5, h5, h⟩ := bind_eq_ok h
    have hcontinue := goes_label hbody.isOpen h5
    obtain ⟨merge, s6, h6, h⟩ := bind_eq_ok h
    have hmerge := goes_label hcontinue.isOpen h6
    obtain ⟨_, s7, h7, h⟩ := bind_eq_ok h
    have hbranch := (goes_terminate rfl h7).free fun _ _ => trivial
    obtain ⟨_, s8, h8, h⟩ := bind_eq_ok h
    have hbegin := goes_begin h8
    obtain ⟨_, s9, h9, h⟩ := bind_eq_ok h
    have hloop := (goes_append hbegin.isOpen.isOpen rfl h9).free fun _ _ => trivial
    obtain ⟨_, s10, h10, h⟩ := bind_eq_ok h
    have hcond := goes_forCond hloop.isOpen.isOpen h10
    obtain ⟨_, s11, h11, h⟩ := bind_eq_ok h
    obtain ⟨_, s12, h12, h⟩ := bind_eq_ok h
    obtain ⟨_, s13, h13, h⟩ := bind_eq_ok h
    have harm := goes_arm hy h11 h12 h13
    obtain ⟨_, s14, h14, h⟩ := bind_eq_ok h
    have hagain := goes_begin h14
    obtain ⟨_, s15, h15, h⟩ := bind_eq_ok h
    have hupdate := goes_update hagain.isOpen.isOpen h15
    obtain ⟨_, s16, h16, h⟩ := bind_eq_ok h
    have hback := (goes_terminate rfl h16).free fun _ _ => trivial
    have hhead := hheader.skip (hbody.skip (hcontinue.skip (hmerge.skip
      (hbranch.skip (hbegin.skip (hloop.skip hcond))))))
    have htail := hagain.skip (hupdate.skip_right (hback.skip (goes_begin h)))
    exact (hinit.trans (hhead.trans (harm.trans htail))).congr fun _ _ => by simp

theorem checked_cons {after after' : Scope → Scope} (hx : Checked x typed after ends)
    (hy : Checked y typed' after' ends') :
    Checked (do x; if ← isTerminated then pure () else y)
      (fun sc => typed sc ∧ (ends = true ∨ typed' (after sc)))
      (fun sc => if ends then after sc else after' (after sc)) (ends || ends') := by
  intro s s' u hs h
  obtain ⟨_, s1, h1, h⟩ := bind_eq_ok h
  have hfirst := hx hs h1
  obtain ⟨b, s2, h2, h⟩ := bind_eq_ok h
  obtain ⟨rfl, rfl⟩ := isTerminated_ok hfirst.isOpen h2
  cases ends with
  | true =>
    cases h
    exact hfirst.congr fun _ _ => by simp
  | false => exact (hfirst.trans (hy hfirst.isOpen.isOpen h)).congr fun _ _ => by simp

mutual

theorem checked_stmt : ∀ st : Stmt,
    Checked (emitStmt st) (fun sc => sc.StmtTyped st) (fun sc => sc.afterStmt st) st.ends
  | .return_ e => by
      simp only [emitStmt, Scope.StmtTyped, Scope.afterStmt, Stmt.ends]
      exact checked_return e
  | .varDecl vd => by
      simp only [emitStmt, Scope.StmtTyped, Scope.afterStmt, Stmt.ends]
      exact checked_varDecl vd
  | .expr e => by
      simp only [emitStmt, Scope.StmtTyped, Scope.afterStmt, Stmt.ends]
      exact checked_expr e
  | .if_ cond then_ none => by
      simp only [emitStmt, emitElse, Scope.StmtTyped, Scope.ElseTyped, Scope.afterStmt,
        Scope.afterElse, Stmt.ends, and_true]
      exact checked_if cond (checked_block then_)
  | .if_ cond then_ (some else_) => by
      simp only [emitStmt, emitElse, Scope.StmtTyped, Scope.ElseTyped, Scope.afterStmt,
        Scope.afterElse, Stmt.ends]
      exact checked_if_else cond (checked_block then_) (checked_block else_)
  | .for_ init cond update body => by
      simp only [emitStmt, Scope.StmtTyped, Scope.afterStmt, Stmt.ends]
      exact checked_for cond update (checked_init init) (checked_block body)
  | .block b => by
      simp only [emitStmt, Scope.StmtTyped, Scope.afterStmt, Stmt.ends]
      exact checked_block b

theorem checked_block : ∀ b : List Stmt,
    Checked (emitBlock b) (fun sc => sc.BlockTyped b) (fun sc => sc.afterBlock b) (blockEnds b)
  | [] => by
      simp only [emitBlock, Scope.BlockTyped, Scope.afterBlock, blockEnds]
      exact checked_nothing
  | s :: rest => by
      simp only [emitBlock, Scope.BlockTyped, Scope.afterBlock, blockEnds]
      exact checked_cons (checked_stmt s) (checked_block rest)

theorem checked_init : ∀ init : Option Stmt,
    Checked (emitInit init) (fun sc => sc.InitTyped init) (fun sc => sc.afterInit init) (initEnds init)
  | none => by
      simp only [emitInit, Scope.InitTyped, Scope.afterInit, initEnds]
      exact checked_nothing
  | some s => by
      simp only [emitInit, Scope.InitTyped, Scope.afterInit, initEnds]
      exact checked_stmt s

end

end WinCompat.Hlsl
