import WinCompat.Hlsl.StmtTyping

/-!
# The function of a well-typed shader is well typed

The declarations of a translation unit build the scope of its entry point (`Declares`), and the entry
point copies its parameters and runs its body there. The function that comes out is well typed exactly
when the entry point is (`codegen_wellTyped_iff`).
-/

namespace WinCompat.Hlsl

open Lib Lib.Comp

/-! ## Declarations -/

/-- Nothing is defined or emitted, and no name changes. -/
structure Quiet (s s' : Ctx) : Prop where
  tables : s'.toTables = s.toTables
  outVar : s'.outVar = s.outVar
  emitted : s.builder.Emitted s'.builder []

theorem Quiet.refl (s : Ctx) : Quiet s s := ⟨rfl, rfl, .refl _⟩

theorem Quiet.trans {s s₁ s₂ : Ctx} (h : Quiet s s₁) (h' : Quiet s₁ s₂) : Quiet s s₂ :=
  ⟨h'.tables.trans h.tables, h'.outVar.trans h.outVar, h.emitted.trans h'.emitted⟩

/-- A module with the same ids. -/
theorem emitted_of_same {b b' : Spirv.Builder} (hn : b'.nextId = b.nextId)
    (hc : b'.constants = b.constants) (hg : b'.globalVars = b.globalVars)
    (hi : b'.insts = b.insts) : b.Emitted b' [] := by
  refine Spirv.Builder.emitted_of_insts [] ?_ hg ?_ (.nil (Nat.le_of_eq hn.symm))
  · rw [hc, List.append_nil]
  · rw [hi, List.append_nil]

def IsQuiet {α : Type} (x : Cg α) : Prop := ∀ s, Partial x s fun _ s' => Quiet s s'

namespace IsQuiet

variable {α β : Type}

theorem pure (a : α) : IsQuiet (Pure.pure a : Cg α) := fun s => .pure (.refl s)

theorem get : IsQuiet (Comp.get : Cg Ctx) := by
  intro s a s' h
  cases h
  exact .refl s

theorem bind {x : Cg α} {k : α → Cg β} (hx : IsQuiet x) (hk : ∀ a, IsQuiet (k a)) :
    IsQuiet (x >>= k) := by
  intro s
  refine (hx s).bind fun a s1 h1 => ?_
  exact (hk a s1).mono fun _ _ h2 => h1.trans h2

theorem checkedU32 (n : Nat) : IsQuiet (checkedU32 n) := by
  intro s a s' h
  unfold WinCompat.Hlsl.checkedU32 at h
  split_ifs at h
  · cases h
    exact .refl s
  · cases h

theorem decorate (t : Spirv.Target) (d : Spirv.Decoration) : IsQuiet (decorate t d) := by
  intro s u s' h
  cases h
  exact ⟨rfl, rfl, emitted_of_same rfl rfl rfl rfl⟩

theorem addInterface (v : Spirv.Id) : IsQuiet (addInterface v) := by
  intro s u s' h
  cases h
  exact ⟨rfl, rfl, .refl _⟩

end IsQuiet

theorem memberAlignSize_quiet (ty : Ty) : IsQuiet (memberAlignSize ty) := by
  unfold memberAlignSize
  split
  · exact .pure _
  · exact .pure _
  · exact .pure _
  · exact .pure _
  · exact (IsQuiet.checkedU32 _).bind fun _ => .pure _
  · exact .pure _

theorem alignUp_quiet (offset align : Nat) : IsQuiet (alignUp offset align) := by
  unfold alignUp
  split_ifs
  · exact .pure _
  · exact .checkedU32 _

theorem decorateOffsets_quiet (ty : Spirv.Ty) (ms : List StructMember) :
    ∀ i offset, IsQuiet (decorateOffsets ty ms i offset) := by
  induction ms with
  | nil => exact fun _ _ => .pure _
  | cons m rest ih =>
    intro i offset
    refine (memberAlignSize_quiet m.ty).bind fun _ => ?_
    refine (alignUp_quiet _ _).bind fun _ => ?_
    refine (IsQuiet.decorate _ _).bind fun _ => ?_
    exact (IsQuiet.checkedU32 _).bind fun _ => ih _ _

theorem decorateBinding_quiet (v : Spirv.Id) (register : Option String) :
    IsQuiet (decorateBinding v register) :=
  (IsQuiet.decorate _ _).bind fun _ => .decorate _ _

theorem decorateMembers_quiet (ty : Spirv.Ty) (isOutput : Bool) (ms : List StructMember) :
    ∀ i loc, IsQuiet (decorateMembers ty isOutput ms i loc) := by
  induction ms with
  | nil => exact fun _ _ => .pure _
  | cons m rest ih =>
    intro i loc
    refine IsQuiet.get.bind fun s => ?_
    split_ifs
    · exact (IsQuiet.decorate _ _).bind fun _ => ih _ _
    · exact (IsQuiet.decorate _ _).bind fun _ => ih _ _
    · refine (IsQuiet.decorate _ _).bind fun _ => ?_
      exact (IsQuiet.checkedU32 _).bind fun _ => ih _ _

theorem decorateStructIo_quiet (ms : List StructMember) (ty : Spirv.Ty) (isOutput : Bool) :
    IsQuiet (decorateStructIo ms ty isOutput) :=
  (IsQuiet.decorate _ _).bind fun _ => decorateMembers_quiet ty isOutput ms 0 0

theorem decorateIoVar_quiet (v : Spirv.Id) (semantic : Option String) (isOutput : Bool) :
    IsQuiet (decorateIoVar v semantic isOutput) := by
  refine IsQuiet.get.bind fun s => ?_
  split_ifs
  · exact .decorate _ _
  · exact .decorate _ _

/-- From `s` to `s'`, before there are locals, a scope that describes the tables has become `next` of
    it, and nothing has been emitted. -/
structure Declares (s s' : Ctx) (next : Scope → Option Scope) : Prop where
  emitted : s.builder.Emitted s'.builder []
  locals : s'.locals = s.locals
  scope : ∀ Γ sc, Γ.Agrees s'.builder → s.locals = [] → Describes Γ s.toTables sc →
    ∃ sc', next sc = some sc' ∧ Describes Γ s'.toTables sc'

section

variable {s s₁ s₂ s' : Ctx} {next next' : Scope → Option Scope}

namespace Declares

theorem trans (h : Declares s s₁ next) (h' : Declares s₁ s₂ next') :
    Declares s s₂ fun sc => next sc >>= next' := by
  refine ⟨h.emitted.trans h'.emitted, h'.locals.trans h.locals, fun Γ sc hΓ hl hd => ?_⟩
  obtain ⟨sc₁, hsc₁, hd₁⟩ := h.scope Γ sc (h'.emitted.agrees Γ hΓ) hl hd
  obtain ⟨sc₂, hsc₂, hd₂⟩ := h'.scope Γ sc₁ hΓ (h.locals.trans hl) hd₁
  exact ⟨sc₂, by rw [hsc₁]; exact hsc₂, hd₂⟩

theorem congr (h : Declares s s' next)
    (heq : ∀ Γ sc, Describes Γ s.toTables sc → next sc = next' sc) : Declares s s' next' := by
  refine ⟨h.emitted, h.locals, fun Γ sc hΓ hl hd => ?_⟩
  rw [← heq Γ sc hd]
  exact h.scope Γ sc hΓ hl hd

end Declares

theorem Quiet.declares (h : Quiet s s') : Declares s s' some := by
  refine ⟨h.emitted, congrArg Tables.locals h.tables, fun Γ sc _ _ hd => ⟨sc, rfl, ?_⟩⟩
  rw [h.tables]
  exact hd

/-- A quiet step first. -/
theorem Quiet.then (h : Quiet s s₁) (h' : Declares s₁ s₂ next) : Declares s s₂ next :=
  h.declares.trans h'

variable {v : Spirv.Id}

variable {ty : Spirv.Ty}

theorem globalVariable_ok {cls : Spirv.StorageClass} (h : globalVariable ty cls s = .ok (v, s')) :
    Quiet s s' ∧ ∀ Γ : Spirv.Env, Γ.Agrees s'.builder → Γ.ty v = some ty := by
  cases h
  constructor
  · refine ⟨rfl, rfl, ?_⟩
    refine Spirv.Builder.emitted_of_defs [(s.builder.nextId, ty)] ?_ (fun _ h => h)
      (.single (Nat.le_refl _) (Nat.lt_succ_self _)) ?_
    · unfold Spirv.Builder.defs
      show (_ ++ List.map _ (s.builder.globalVars ++ [_]) ++ _ : List _).Perm _
      rw [List.map_append]
      simp only [List.append_assoc]
      exact (List.perm_append_comm.append_left _).append_left _
    · rw [List.append_nil]
      exact List.Perm.refl _
  · intro Γ hΓ
    apply hΓ.ty (s.builder.nextId, ty)
    refine List.mem_append_left _ (List.mem_append_right _ (List.mem_map.mpr
      ⟨⟨ty, s.builder.nextId, cls⟩, ?_, rfl⟩))
    exact List.mem_append_right _ List.mem_cons_self

theorem constOp_declared {bits : BitVec 32} {c : Spirv.Id} (h : constOp ty bits s = .ok (c, s')) :
    Quiet s s' ∧ ∀ Γ : Spirv.Env, Γ.Agrees s'.builder → Γ.bits c = some bits := by
  cases h
  constructor
  · refine ⟨rfl, rfl, ?_⟩
    refine Spirv.Builder.emitted_of_insts [⟨ty, s.builder.nextId, bits⟩] rfl rfl ?_
      (.constant _ _)
    rw [List.append_nil]
    exact List.Perm.refl _
  · intro Γ hΓ
    exact hΓ.bits ⟨ty, s.builder.nextId, bits⟩ (List.mem_append_right _ List.mem_cons_self)

/-! ### Names -/

theorem typeOf_addGlobal (sc : Scope) (name : String) (g : GlobalTy) (ty : Ty) :
    (sc.addGlobal name g).typeOf ty = sc.typeOf ty := by
  cases ty <;> rfl

theorem Describes.addGlobal {Γ : Spirv.Env} {t : Tables} {sc : Scope} {g : Global} {g' : GlobalTy}
    (hd : Describes Γ t sc) (name : String) (hg : GlobalIn Γ g g') :
    Describes Γ { t with globals := (name, g) :: t.globals } (sc.addGlobal name g') := by
  refine ⟨hd.structs, hd.structsOk, hd.globals.cons name hg, hd.members, hd.locals.mono ?_⟩
  rintro l ty ⟨hty, st, hst, hptr⟩
  exact ⟨hty, st, (typeOf_addGlobal _ _ _ _).trans hst, hptr⟩

theorem Describes.addStruct {Γ : Spirv.Env} {t : Tables} {sc : Scope} (hd : Describes Γ t sc)
    (hl : t.locals = []) (name : String) (ts : List Spirv.Ty) (ms : List StructMember) :
    Describes Γ { t with structs := (name, ⟨.struct ts, ms⟩) :: t.structs }
      (sc.addStruct name ⟨.struct ts, ms⟩) := by
  refine ⟨congrArg _ hd.structs, ?_, hd.globals, hd.members, ?_⟩
  · intro name' info hinfo
    have hinfo : ((name, (⟨.struct ts, ms⟩ : StructInfo)) :: sc.structs).lookup name' = some info :=
      hinfo
    rw [List.lookup_cons] at hinfo
    split at hinfo
    · cases hinfo
      exact ⟨ts, rfl⟩
    · exact hd.structsOk name' info hinfo
  · have hlocals := hd.locals
    rw [hl] at hlocals
    have hnil : sc.locals = [] := by
      cases hsc : sc.locals with
      | nil => rfl
      | cons p l =>
        rw [hsc] at hlocals
        cases hlocals
    show Assoc.Matched _ t.locals sc.locals
    rw [hl, hnil]
    exact .nil

variable {u : Unit}

variable {name : String}

theorem addGlobal_declares (g' : GlobalTy) {g : Global}
    (hg : ∀ Γ, Γ.Agrees s.builder → GlobalIn Γ g g') (h : addGlobal name g s = .ok (u, s')) :
    Declares s s' fun sc => some (sc.addGlobal name g') := by
  cases h
  exact ⟨.refl _, rfl, fun Γ sc hΓ _ hd => ⟨_, rfl, hd.addGlobal name (hg Γ hΓ)⟩⟩

theorem typeIds_ok {ms : List StructMember} {ts : List Spirv.Ty}
    (h : typeIds ms s = .ok (ts, s')) :
    s = s' ∧ ∀ Γ sc, Describes Γ s.toTables sc → sc.memberTypes ms = some ts := by
  induction ms generalizing ts s' with
  | nil =>
    cases h
    exact ⟨rfl, fun _ _ _ => rfl⟩
  | cons m rest ih =>
    obtain ⟨t, s1, h1, h⟩ := bind_eq_ok h
    obtain ⟨hty, rfl⟩ := typeId_ok h1
    obtain ⟨us, s2, h2, h⟩ := bind_eq_ok h
    obtain ⟨rfl, hus⟩ := ih h2
    cases h
    refine ⟨rfl, fun Γ sc hd => ?_⟩
    simp [Scope.memberTypes, hd.typeOf hty, hus Γ sc hd]

theorem registerStruct_declares {d : StructDecl} (h : registerStruct d s = .ok (u, s')) :
    Declares s s' fun sc => sc.afterDecl (.struct d) := by
  obtain ⟨s0, s1, h1, h⟩ := bind_eq_ok h
  cases h1
  cases hd : (s.structs.lookup d.name).isSome with
  | true =>
    rw [if_pos hd] at h
    cases h
    refine (Quiet.refl s).declares.congr fun Γ sc hdesc => ?_
    rw [← hdesc.structs] at hd
    simp [Scope.afterDecl, hd]
  | false =>
    rw [if_neg (by simp [hd])] at h
    obtain ⟨ts, s2, h2, h⟩ := bind_eq_ok h
    obtain ⟨rfl, hts⟩ := typeIds_ok h2
    cases h
    refine ⟨.refl _, rfl, fun Γ sc _ hl hdesc => ?_⟩
    refine ⟨_, ?_, hdesc.addStruct hl d.name ts d.members⟩
    have hd : (sc.structs.lookup d.name).isSome = false := hdesc.structs ▸ hd
    simp only [Scope.afterDecl, hd, Bool.false_eq_true, if_false, hts Γ sc hdesc]
    rfl

theorem registerMembers_declares {cbuffer : Spirv.Ty} {ms : List StructMember} {i : Nat}
    (hv : ∀ Γ : Spirv.Env, Γ.Agrees s.builder →
      Γ.ty v = some (.pointer .uniform cbuffer)) (h : registerMembers v ms i s = .ok (u, s')) :
    Declares s s' fun sc => some (sc.addMembers cbuffer ms i) := by
  induction ms generalizing i s with
  | nil =>
    cases h
    exact (Quiet.refl _).declares
  | cons m rest ih =>
    obtain ⟨st, s1, h1, h⟩ := bind_eq_ok h
    obtain ⟨hty, rfl⟩ := typeId_ok h1
    obtain ⟨c, s2, h2, h⟩ := bind_eq_ok h
    obtain ⟨hquiet, hbits⟩ := constOp_declared h2
    have hv₂ : ∀ Γ : Spirv.Env, Γ.Agrees s2.builder → Γ.ty v = some (.pointer .uniform cbuffer) :=
      fun Γ hΓ => hv Γ (hquiet.emitted.agrees Γ hΓ)
    obtain ⟨_, s3, h3, h⟩ := bind_eq_ok h
    have hglobal := addGlobal_declares ⟨m.ty, .uniform, cbuffer⟩
      (fun Γ hΓ => ⟨rfl, hv₂ Γ hΓ⟩) h3
    obtain ⟨_, s4, h4, h⟩ := bind_eq_ok h
    cases h3
    cases h4
    have hmember : Declares
        { s2 with globals := (m.name, ⟨v, m.ty⟩) :: s2.globals }
        { s2 with
          globals := (m.name, ⟨v, m.ty⟩) :: s2.globals
          cbufferMembers := (m.name, (v, c)) :: s2.cbufferMembers }
        fun sc => some { sc with members := (m.name, (cbuffer, i)) :: sc.members } := by
      refine ⟨.refl _, rfl, fun Γ sc hΓ hl hd => ⟨_, rfl, ?_⟩⟩
      refine ⟨hd.structs, hd.structsOk, hd.globals,
        hd.members.cons m.name ⟨hv₂ Γ hΓ, hbits Γ hΓ⟩, hd.locals.mono ?_⟩
      rintro l ty ⟨hty, st, hst, hptr⟩
      exact ⟨hty, st, hst, hptr⟩
    exact hquiet.then (hglobal.trans (hmember.trans (ih hv₂ h)))

theorem emitCBuffer_declares {c : CBufferDecl} (h : emitCBuffer c s = .ok (u, s')) :
    Declares s s' fun sc => sc.afterDecl (.cbuffer c) := by
  obtain ⟨ts, s1, h1, h⟩ := bind_eq_ok h
  obtain ⟨rfl, hts⟩ := typeIds_ok h1
  obtain ⟨_, s2, h2, h⟩ := bind_eq_ok h
  obtain ⟨_, s3, h3, h⟩ := bind_eq_ok h
  have hquiet := (IsQuiet.decorate _ _ _ _ _ h2).trans (decorateOffsets_quiet _ _ _ _ _ _ _ h3)
  obtain ⟨_, s4, h4, h⟩ := bind_eq_ok h
  have hstruct : Declares s3 s4 fun sc => some (sc.addStruct c.name ⟨.struct ts, c.members⟩) := by
    cases h4
    exact ⟨.refl _, rfl, fun Γ sc _ hl hd => ⟨_, rfl, hd.addStruct hl _ _ _⟩⟩
  obtain ⟨v, s5, h5, h⟩ := bind_eq_ok h
  obtain ⟨hvar, hv⟩ := globalVariable_ok h5
  obtain ⟨_, s6, h6, h⟩ := bind_eq_ok h
  have hbinding := decorateBinding_quiet _ _ _ _ _ h6
  have hv₆ : ∀ Γ : Spirv.Env, Γ.Agrees s6.builder → Γ.ty v = some (.pointer .uniform (.struct ts)) :=
    fun Γ hΓ => hv Γ (hbinding.emitted.agrees Γ hΓ)
  obtain ⟨_, s7, h7, h⟩ := bind_eq_ok h
  have hglobal := addGlobal_declares ⟨.struct c.name, .uniform, .struct ts⟩
    (fun Γ hΓ => ⟨rfl, hv₆ Γ hΓ⟩) h7
  have hmembers := registerMembers_declares
    (fun Γ hΓ => hv₆ Γ (hglobal.emitted.agrees Γ hΓ)) h
  have hall := hquiet.then (hstruct.trans (hvar.then (hbinding.then (hglobal.trans hmembers))))
  refine hall.congr fun Γ sc hd => ?_
  simp only [Scope.afterDecl, hts Γ sc hd]
  rfl

theorem emitOpaque_declares {g : GlobalVarDecl} (h : emitOpaque g ty s = .ok (u, s')) :
    Declares s s' fun sc => some (sc.addGlobal g.name ⟨g.ty, .uniformConstant, ty⟩) := by
  obtain ⟨v, s1, h1, h⟩ := bind_eq_ok h
  obtain ⟨hvar, hv⟩ := globalVariable_ok h1
  obtain ⟨_, s2, h2, h⟩ := bind_eq_ok h
  have hbinding := decorateBinding_quiet _ _ _ _ _ h2
  refine hvar.then (hbinding.then (addGlobal_declares _ (fun Γ hΓ => ⟨rfl, ?_⟩) h))
  exact hv Γ (hbinding.emitted.agrees Γ hΓ)

theorem emitDecl_declares {d : Decl} (h : emitDecl d s = .ok (u, s')) :
    Declares s s' fun sc => sc.afterDecl d := by
  cases d with
  | struct d => exact registerStruct_declares h
  | cbuffer c => exact emitCBuffer_declares h
  | globalVar g =>
    have h : emitGlobalVar g s = .ok (u, s') := h
    unfold emitGlobalVar at h
    cases hg : g.ty with
    | texture2D | samplerState =>
      simp only [hg] at h
      refine (emitOpaque_declares h).congr fun Γ sc _ => ?_
      simp only [Scope.afterDecl, hg]
      rfl
    | _ =>
      simp only [hg] at h
      cases h
  | function f =>
    cases h
    exact (Quiet.refl _).declares

theorem emitGlobals_declares {ds : List Decl} (h : emitGlobals ds s = .ok (u, s')) :
    Declares s s' fun sc => sc.afterDecls ds := by
  induction ds generalizing s with
  | nil =>
    cases h
    exact (Quiet.refl _).declares
  | cons d rest ih =>
    obtain ⟨_, s1, h1, h⟩ := bind_eq_ok h
    exact (emitDecl_declares h1).trans (ih h)

/-! ## The entry point -/

theorem structInfo_ok {info : StructInfo} (h : structInfo name s = .ok (info, s')) :
    s = s' ∧ s.typeId (.struct name) = .ok info.typeId := by
  obtain ⟨s0, s1, h1, h⟩ := bind_eq_ok h
  cases h1
  cases hinfo : s.structs.lookup name with
  | none =>
    simp only [hinfo] at h
    cases h
  | some info' =>
    simp only [hinfo] at h
    cases h
    exact ⟨rfl, by simp only [Tables.typeId, hinfo]; rfl⟩

variable {st : Spirv.Ty} {p : Param}

theorem input_declares {s₃ : Ctx} (hty : s.typeId p.ty = .ok st) (hbefore : Quiet s s₁)
    (hvar : globalVariable (.pointer .input st) .input s₁ = .ok (v, s₂)) (hafter : Quiet s₂ s₃)
    (hglobal : addGlobal p.name ⟨v, p.ty⟩ s₃ = .ok (u, s')) :
    Declares s s' fun sc => sc.addInputs [p] := by
  obtain ⟨hquiet, hv⟩ := globalVariable_ok hvar
  have hadd := addGlobal_declares ⟨p.ty, .input, st⟩
    (fun Γ hΓ => ⟨rfl, hv Γ (hafter.emitted.agrees Γ hΓ)⟩) hglobal
  refine (hbefore.then (hquiet.then (hafter.then hadd))).congr fun Γ sc hd => ?_
  simp [Scope.addInputs, hd.typeOf hty]

theorem emitPlainInput_declares (h : emitPlainInput p s = .ok (u, s')) :
    Declares s s' fun sc => sc.addInputs [p] := by
  obtain ⟨st, s1, h1, h⟩ := bind_eq_ok h
  obtain ⟨hty, rfl⟩ := typeId_ok h1
  obtain ⟨v, s2, h2, h⟩ := bind_eq_ok h
  obtain ⟨_, s3, h3, h⟩ := bind_eq_ok h
  obtain ⟨_, s4, h4, h⟩ := bind_eq_ok h
  exact input_declares hty (.refl s) h2
    ((decorateIoVar_quiet _ _ _ _ _ _ h3).trans (IsQuiet.addInterface _ _ _ _ h4)) h

theorem emitInput_declares (h : emitInput p s = .ok (u, s')) :
    Declares s s' fun sc => sc.addInputs [p] := by
  unfold emitInput at h
  cases hp : p.ty with
  | struct name =>
    simp only [hp] at h
    obtain ⟨info, s1, h1, h⟩ := bind_eq_ok h
    obtain ⟨rfl, hty⟩ := structInfo_ok h1
    obtain ⟨_, s2, h2, h⟩ := bind_eq_ok h
    obtain ⟨v, s3, h3, h⟩ := bind_eq_ok h
    obtain ⟨_, s4, h4, h⟩ := bind_eq_ok h
    rw [← hp] at hty h
    exact input_declares hty (decorateStructIo_quiet _ _ _ _ _ _ h2) h3
      (IsQuiet.addInterface _ _ _ _ h4) h
  | scalar k | vector k n =>
    simp only [hp] at h
    exact emitPlainInput_declares h
  | _ =>
    simp only [hp] at h
    cases h

variable {ps : List Param}

theorem emitInputs_declares (h : emitInputs ps s = .ok (u, s')) :
    Declares s s' fun sc => sc.addInputs ps := by
  induction ps generalizing s with
  | nil =>
    cases h
    exact (Quiet.refl _).declares
  | cons p rest ih =>
    obtain ⟨_, s1, h1, h⟩ := bind_eq_ok h
    refine ((emitInput_declares h1).trans (ih h)).congr fun Γ sc hd => ?_
    cases hp : sc.typeOf p.ty <;> simp [Scope.addInputs, hp]

/-- The output is a variable of the type `ty`. -/
structure OutputIn (s s' : Ctx) (ty : Ty) : Prop where
  tables : s'.toTables = s.toTables
  emitted : s.builder.Emitted s'.builder []
  out : ∃ v st, s'.outVar = some v ∧ s.typeId ty = .ok st ∧
    ∀ Γ : Spirv.Env, Γ.Agrees s'.builder → Γ.ty v = some (.pointer .output st)

theorem setOutput_ok {ty ty' : Ty} {s₃ : Ctx} (hty : s.typeId ty = .ok st) (hbefore : Quiet s s₁)
    (hvar : globalVariable (.pointer .output st) .output s₁ = .ok (v, s₂)) (hafter : Quiet s₂ s₃)
    (hset : setOutput v ty' s₃ = .ok (u, s')) : OutputIn s s' ty := by
  obtain ⟨hquiet, hv⟩ := globalVariable_ok hvar
  have hall := hbefore.trans (hquiet.trans hafter)
  cases hset
  exact ⟨hall.tables, hall.emitted, v, st, rfl, hty, fun Γ hΓ => hv Γ (hafter.emitted.agrees Γ hΓ)⟩

variable {main : FunctionDecl}

theorem emitOutput_ok (h : emitOutput main s = .ok (u, s')) : OutputIn s s' main.returnType := by
  unfold emitOutput at h
  obtain ⟨ty, hret⟩ : ∃ ty, main.returnType = ty := ⟨_, rfl⟩
  simp only [hret] at h
  split at h
  · next name =>
    obtain ⟨info, s1, h1, h⟩ := bind_eq_ok h
    obtain ⟨rfl, hty⟩ := structInfo_ok h1
    obtain ⟨_, s2, h2, h⟩ := bind_eq_ok h
    obtain ⟨v, s3, h3, h⟩ := bind_eq_ok h
    obtain ⟨_, s4, h4, h⟩ := bind_eq_ok h
    rw [hret]
    exact setOutput_ok hty (decorateStructIo_quiet _ _ _ _ _ _ h2) h3
      (IsQuiet.addInterface _ _ _ _ h4) h
  · obtain ⟨st, s1, h1, h⟩ := bind_eq_ok h
    obtain ⟨hty, rfl⟩ := typeId_ok h1
    obtain ⟨v, s2, h2, h⟩ := bind_eq_ok h
    obtain ⟨_, s3, h3, h⟩ := bind_eq_ok h
    obtain ⟨_, s4, h4, h⟩ := bind_eq_ok h
    rw [hret]
    exact setOutput_ok hty (.refl s) h2
      ((decorateIoVar_quiet _ _ _ _ _ _ h3).trans (IsQuiet.addInterface _ _ _ _ h4)) h
  · cases h

/-- An empty function begins. -/
theorem beginEntryFunction_ok (hs : s.builder.insts = []) (h : beginEntryFunction s = .ok (u, s')) :
    s'.toTables = s.toTables ∧ s'.outVar = s.outVar ∧ s.builder.Emitted s'.builder [] ∧ s'.Open ∧
      s.builder.SameGlobals s'.builder := by
  obtain ⟨fn, s1, h1, h⟩ := bind_eq_ok h
  cases h1
  obtain ⟨_, s2, h2, h⟩ := bind_eq_ok h
  cases h2
  obtain ⟨label, s3, h3, h⟩ := bind_eq_ok h
  cases h3
  obtain ⟨f, f', hf, hc, rfl⟩ := onFunction_ok h
  cases hf
  cases hc
  refine ⟨rfl, rfl, ?_, ⟨_, _, rfl, rfl⟩, rfl, rfl⟩
  refine Spirv.Builder.emitted_of_insts [] (List.append_nil _).symm rfl ?_ (.nil ?_)
  · rw [hs]
    exact List.Perm.refl _
  · exact Nat.le_add_right _ 2

/-! ### Parameters -/

/-- The pointers of the parameters are those of the globals of their names. -/
def ParamPtrs (globals : List (String × Global)) (qs : List (String × Spirv.Id × Ty))
    (ps : List Param) : Prop :=
  List.Forall₂ (fun q p => ∃ g, globals.lookup p.name = some g ∧ q = (p.name, g.ptr, p.ty)) qs ps

theorem paramGlobals_ok {qs : List (String × Spirv.Id × Ty)} (h : paramGlobals ps s = .ok (qs, s')) :
    s = s' ∧ ParamPtrs s.globals qs ps := by
  induction ps generalizing qs s' with
  | nil =>
    cases h
    exact ⟨rfl, .nil⟩
  | cons p rest ih =>
    obtain ⟨s0, s1, h1, h⟩ := bind_eq_ok h
    cases h1
    cases hg : s.globals.lookup p.name with
    | none =>
      simp only [hg] at h
      cases h
    | some g =>
      simp only [hg] at h
      obtain ⟨qs', s2, h2, h⟩ := bind_eq_ok h
      obtain ⟨rfl, hqs⟩ := ih h2
      cases h
      exact ⟨rfl, .cons ⟨g, hg, rfl⟩ hqs⟩

theorem paramsTyped_addLocal {sc : Scope} {ty : Ty} :
    (sc.addLocal name ty).ParamsTyped ps ↔ sc.ParamsTyped ps := by
  unfold Scope.ParamsTyped
  simp only [typeOf_addLocal]
  exact Iff.rfl

/-- A parameter is copied to a local. -/
theorem goes_copyParam {g : Global} {ptr loaded : Spirv.Id} {s₃ s₄ s₅ : Ctx} {u u' : Unit}
    (hs : s.Open) (hg : s.globals.lookup p.name = some g) (h₁ : allocLocal p.ty s = .ok (ptr, s₁))
    (h₂ : typeId p.ty s₁ = .ok (st, s₂)) (h₃ : load st g.ptr s₂ = .ok (loaded, s₃))
    (h₄ : store ptr loaded s₃ = .ok (u, s₄)) (h₅ : addLocal p.name ⟨ptr, p.ty⟩ s₄ = .ok (u', s₅)) :
    Goes s s₅ true (fun _ sc => sc.ParamsTyped [p]) (fun sc => sc.addLocal p.name p.ty) ∧
      s₅.globals = s.globals := by
  obtain ⟨halloc, hptr, htables⟩ := goes_allocLocal hs.openIs h₁
  obtain ⟨hty, rfl⟩ := typeId_ok h₂
  have ho := halloc.isOpen.isOpen
  obtain ⟨rfl, hs₃⟩ := appendResult_ok ho h₃
  have hadds : Spirv.Adds s₁.builder.nextId (s₁.builder.nextId + 1) []
      [.load st s₁.builder.nextId g.ptr] := .result rfl
  have hload : Goes s₁ s₃ true
      (fun Γ _ => (Spirv.Inst.load st s₁.builder.nextId g.ptr).WellTyped Γ) id := by
    rw [hs₃]
    exact goes_extend ho hadds fun _ _ _ _ _ => by simp
  have hloaded : Goes s s₃ true (fun _ sc => sc.ParamsTyped [p]) id := by
    refine halloc.trans_of hload fun Γ sc hΓ hf => ?_
    obtain ⟨g', hg', hgty, hgptr⟩ := hf.tables.globals.lookup_some hg
    have hst : sc.typeOf p.ty = some st := (halloc.fits hΓ hf).tables.typeOf hty
    rw [load_wellTyped _ _ hgptr]
    simp [Scope.ParamsTyped, hg', hst]
  have hstore := goes_store hload.isOpen.isOpen h₄
  have hbody : Goes s s₄ true (fun _ sc => sc.ParamsTyped [p]) id := by
    refine hloaded.trans_of hstore fun Γ sc hΓ hf => ?_
    have hΓ₁ := hload.agrees hΓ
    obtain ⟨-, st', hst', hp⟩ := hptr Γ sc hΓ₁ hf
    have hst : sc.typeOf p.ty = some st := (halloc.fits hΓ₁ hf).tables.typeOf hty
    rw [hst] at hst'
    cases hst'
    rw [hs₃] at hΓ
    have hid := (extend_known ho hΓ).2 _ List.mem_cons_self (s₁.builder.nextId, st) rfl
    rw [store_wellTyped hp hid]
    exact and_iff_left rfl
  refine ⟨hbody.addLocal
    (fun Γ sc hΓ hf => hptr Γ sc (hload.agrees (hstore.agrees hΓ)) hf) h₅, ?_⟩
  cases h₅
  have hs₄ := append_ok hload.isOpen.isOpen h₄
  rw [hs₄, hs₃]
  show s₁.globals = s.globals
  exact congrArg Tables.globals htables

theorem goes_copyParams {qs : List (String × Spirv.Id × Ty)} (hs : s.Open)
    (hq : ParamPtrs s.globals qs ps) (h : copyParams qs s = .ok (u, s')) :
    Goes s s' true (fun _ sc => sc.ParamsTyped ps) fun sc => sc.addParams ps := by
  induction ps generalizing qs s with
  | nil =>
    cases hq
    cases h
    refine (Goes.refl hs.openIs).congr fun _ _ => iff_of_true trivial ?_
    nofun
  | cons p rest ih =>
    cases hq with
    | @cons _ _ qs _ hhead hrest =>
      obtain ⟨g, hg, rfl⟩ := hhead
      obtain ⟨ptr, s1, h1, h⟩ := bind_eq_ok h
      obtain ⟨st, s2, h2, h⟩ := bind_eq_ok h
      obtain ⟨loaded, s3, h3, h⟩ := bind_eq_ok h
      obtain ⟨_, s4, h4, h⟩ := bind_eq_ok h
      obtain ⟨_, s5, h5, h⟩ := bind_eq_ok h
      obtain ⟨hcopy, hglobals⟩ := goes_copyParam hs hg h1 h2 h3 h4 h5
      have hrest : ParamPtrs s5.globals qs rest := by
        rw [hglobals]
        exact hrest
      refine (hcopy.trans (ih hcopy.isOpen.isOpen hrest h)).congr fun _ sc => ?_
      rw [paramsTyped_addLocal]
      simp [Scope.ParamsTyped]

theorem goes_body (hs : s.Open) (h : emitFunctionBody main s = .ok (u, s')) :
    ∃ body after, main.body = some body ∧ Goes s s' false (fun _ sc =>
      sc.ParamsTyped main.params ∧ (sc.addParams main.params).BlockTyped body) after := by
  obtain ⟨qs, s1, h1, h⟩ := bind_eq_ok h
  obtain ⟨rfl, hqs⟩ := paramGlobals_ok h1
  obtain ⟨_, s2, h2, h⟩ := bind_eq_ok h
  have hparams := goes_copyParams hs hqs h2
  cases hbody : main.body with
  | none =>
    simp only [hbody] at h
    cases h
  | some body =>
    simp only [hbody] at h
    obtain ⟨_, s3, h3, h⟩ := bind_eq_ok h
    have hblock := checked_block body hparams.isOpen.isOpen h3
    obtain ⟨b, s4, h4, h5⟩ := bind_eq_ok h
    obtain ⟨rfl, rfl⟩ := isTerminated_ok hblock.isOpen h4
    have hall := hparams.trans hblock
    refine ⟨body, fun sc => (sc.addParams main.params).afterBlock body, rfl, ?_⟩
    cases hends : blockEnds body with
    | true =>
      rw [hends] at h5 hall
      cases h5
      exact hall
    | false =>
      rw [hends] at h5
      exact hall.skip_right ((goes_terminate rfl h5).congr fun _ _ => Iff.rfl)

theorem finishEntryPoint_ok (h : finishEntryPoint s = .ok (u, s')) :
    s.builder.Emitted s'.builder [] ∧ s.builder.SameGlobals s'.builder := by
  obtain ⟨s0, s1, h1, h⟩ := bind_eq_ok h
  cases h1
  cases hf : s.builder.func with
  | none =>
    simp only [hf] at h
    cases h
  | some f =>
    simp only [hf] at h
    cases h
    exact ⟨emitted_of_same rfl rfl rfl rfl, rfl, rfl⟩

theorem fits_entry {s₁ s₂ s₃ : Ctx} {u u' u'' : Unit} (hs : s.builder.insts = [])
    (hl : s.locals = []) (h₁ : emitInputs main.params s = .ok (u, s₁))
    (h₂ : emitOutput main s₁ = .ok (u', s₂)) (h₃ : beginEntryFunction s₂ = .ok (u'', s₃)) :
    s.builder.Emitted s₃.builder [] ∧ s₃.Open ∧ s₂.builder.SameGlobals s₃.builder ∧
      ∀ Γ sc, Γ.Agrees s₃.builder → Describes Γ s.toTables sc →
        ∃ sc' out, sc.addInputs main.params = some sc' ∧ sc'.typeOf main.returnType = some out ∧
          Fits Γ s₃ { sc' with out := out } := by
  have hinputs := emitInputs_declares h₁
  have houtput := emitOutput_ok h₂
  have hem := hinputs.emitted.trans houtput.emitted
  have hinsts : s₂.builder.insts = [] := by
    have hperm := hem.insts
    rw [hs] at hperm
    exact hperm.eq_nil
  obtain ⟨htables, hout, hbegin, hopen, hglobals⟩ := beginEntryFunction_ok hinsts h₃
  refine ⟨hem.trans hbegin, hopen, hglobals, fun Γ sc hΓ hd => ?_⟩
  have hΓ₂ := hbegin.agrees Γ hΓ
  obtain ⟨sc', hsc', hd'⟩ := hinputs.scope Γ sc (houtput.emitted.agrees Γ hΓ₂) hl hd
  obtain ⟨v, st, hv, hty, hptr⟩ := houtput.out
  refine ⟨sc', st, hsc', hd'.typeOf hty, ?_, v, ?_, ?_⟩
  · rw [htables, houtput.tables]
    refine ⟨hd'.structs, hd'.structsOk, hd'.globals, hd'.members, hd'.locals.mono ?_⟩
    rintro l ty ⟨hty, st, hst, hptr⟩
    exact ⟨hty, st, hst, hptr⟩
  · rw [hout]
    exact hv
  · exact hptr Γ hΓ₂

/-- What the entry point emits, in the scope that its parameters and its return type make. -/
theorem emitMain_emits (hs : s.builder.insts = []) (hl : s.locals = [])
    (h : emitMain main s = .ok (u, s')) :
    ∃ body is, main.body = some body ∧ s.builder.Emitted s'.builder is ∧
      ∀ Γ sc, Γ.Agrees s'.builder → Describes Γ s.toTables sc →
        ∃ sc' out, sc.addInputs main.params = some sc' ∧ sc'.typeOf main.returnType = some out ∧
          (AllWellTyped Γ is ↔ { sc' with out := out }.ParamsTyped main.params ∧
            ({ sc' with out := out }.addParams main.params).BlockTyped body) := by
  obtain ⟨_, s1, h1, h⟩ := bind_eq_ok h
  obtain ⟨_, s2, h2, h⟩ := bind_eq_ok h
  obtain ⟨_, s3, h3, h⟩ := bind_eq_ok h
  obtain ⟨hentry, hopen, -, hfits⟩ := fits_entry hs hl h1 h2 h3
  obtain ⟨_, s4, h4, h⟩ := bind_eq_ok h
  obtain ⟨body, after, hbody, hgoes⟩ := goes_body hopen h4
  have hfinish := (finishEntryPoint_ok h).1
  obtain ⟨is, hem, hj⟩ := hgoes.emits
  refine ⟨body, is, hbody, ?_, fun Γ sc hΓ hd => ?_⟩
  · have hall := hentry.trans (hem.trans hfinish)
    simpa only [List.append_nil, List.nil_append] using hall
  · have hΓ₄ := hfinish.agrees Γ hΓ
    obtain ⟨sc', out, hsc', hout, hfit⟩ := hfits Γ sc (hem.agrees Γ hΓ₄) hd
    exact ⟨sc', out, hsc', hout, (hj Γ _ hΓ₄ hfit).2⟩

end

theorem describes_new (Γ : Spirv.Env) (stage : ShaderStage) :
    Describes Γ (Ctx.new stage).toTables Scope.empty :=
  ⟨rfl, nofun, .nil, .nil, .nil⟩

theorem fresh_new (stage : ShaderStage) : (Ctx.new stage).builder.Fresh :=
  Spirv.Once.nil (Nat.zero_le _)

/-- The function of a module that `codegen` returns is well typed exactly when the entry point of the
    translation unit is. -/
theorem codegen_wellTyped_iff {unit : TranslationUnit} {stage : ShaderStage} {b : Spirv.Builder}
    (h : codegen unit stage = .ok b) : b.WellTyped ↔ UnitTyped unit := by
  obtain ⟨main, s, s', hmain, hglobals, hrun, rfl⟩ := codegen_ok h
  have hdecls := emitGlobals_declares hglobals
  have hinsts : s.builder.insts = [] := hdecls.emitted.insts.eq_nil
  obtain ⟨body, is, hbody, hem, hj⟩ := emitMain_emits hinsts hdecls.locals hrun
  have hall := hdecls.emitted.trans hem
  have hΓ : s'.builder.env.Agrees s'.builder := (hall.fresh (fresh_new stage)).agrees
  obtain ⟨sc₁, hsc₁, hd₁⟩ := hdecls.scope _ _ (hem.agrees _ hΓ) rfl (describes_new _ stage)
  obtain ⟨sc₂, out, hsc₂, hout, htyped⟩ := hj _ sc₁ hΓ hd₁
  have hentry : Scope.entry unit main = some { sc₂ with out := out } := by
    simp [Scope.entry, hsc₁, hsc₂, hout]
  rw [hall.wellTyped_iff rfl]
  refine Iff.trans htyped ?_
  constructor
  · rintro ⟨hparams, hblock⟩
    exact ⟨main, body, _, hmain, hbody, hentry, hparams, hblock⟩
  · rintro ⟨main', body', sc, hmain', hbody', hentry', hparams, hblock⟩
    rw [hmain] at hmain'
    cases hmain'
    rw [hbody] at hbody'
    cases hbody'
    rw [hentry] at hentry'
    cases hentry'
    exact ⟨hparams, hblock⟩

/-- `float4 main(float a : TEXCOORD0) : SV_Target { float x = a; return float4(x, x, x, 1.0); }` -/
def grey : TranslationUnit where
  decls := [.function {
    returnType := .vector .float 4
    name := "main"
    params := [⟨.scalar .float, "a", some "TEXCOORD0"⟩]
    semantic := some "SV_Target"
    body := some [
      .varDecl ⟨.scalar .float, "x", some (.ident "a"), none⟩,
      .return_ (some (.construct (.vector .float 4)
        [.ident "x", .ident "x", .ident "x", .literal (.float 0x3FF0000000000000)]))] }]

/-- `float4 main() : SV_Target { float x = 1; return float4(x, x, x, x); }` -/
def intInitialiser : TranslationUnit where
  decls := [.function {
    returnType := .vector .float 4
    name := "main"
    params := []
    semantic := some "SV_Target"
    body := some [
      .varDecl ⟨.scalar .float, "x", some (.literal (.int 1)), none⟩,
      .return_ (some (.construct (.vector .float 4)
        [.ident "x", .ident "x", .ident "x", .ident "x"]))] }]

theorem codegen_wellTyped_iff_grey : ∃ b, codegen grey .pixel = .ok b ∧ b.WellTyped := by
  have hok : (codegen grey .pixel).okWith (fun _ => true) = true := by decide +kernel
  obtain ⟨b, hb, -⟩ := Outcome.exists_of_okWith hok
  refine ⟨b, hb, (codegen_wellTyped_iff hb).mpr ⟨_, _, _, rfl, rfl, rfl, ?_, ?_⟩⟩
  · intro p hp
    obtain rfl := List.mem_singleton.mp hp
    exact ⟨_, rfl, rfl⟩
  · have ha : ∀ sc : Scope, sc.locals.lookup "a" = some (.scalar .float) →
        sc.Typed (.ident "a") ∧ sc.valTy (.ident "a") = some (.scalar .float) :=
      fun sc h => Scope.typed_local h rfl
    have hx : ∀ sc : Scope, sc.locals.lookup "x" = some (.scalar .float) →
        sc.Typed (.ident "x") ∧ sc.valTy (.ident "x") = some (.scalar .float) :=
      fun sc h => Scope.typed_local h rfl
    simp only [Scope.BlockTyped, Scope.StmtTyped, Scope.VarDeclTyped, Scope.ReturnTyped]
    refine ⟨⟨(ha _ rfl).1, _, (ha _ rfl).2, rfl⟩,
      Or.inr ⟨⟨?_, .vector .float 4, ?_, rfl⟩, Or.inl rfl⟩⟩
    · refine ⟨⟨(hx _ rfl).1, (hx _ rfl).1, (hx _ rfl).1, trivial, trivial⟩,
        List.replicate 4 (.scalar .float), rfl, ?_, rfl⟩
      intro ty hty
      rw [List.eq_of_mem_replicate hty]
      exact ⟨none, rfl⟩
    · rfl

/-- A store of an integer through a pointer to a float. -/
def storesIntAsFloat (Γ : Spirv.Env) : Spirv.Inst → Bool
  | .store ptr object =>
      match Γ.ty ptr, Γ.ty object with
      | some (.pointer _ .float), some (.int _) => true
      | _, _ => false
  | _ => false

/-- The integer is stored in a variable of type `float`. -/
theorem intInitialiser_not_wellTyped :
    ∃ b, codegen intInitialiser .pixel = .ok b ∧ ¬ b.WellTyped := by
  have hrun : (codegen intInitialiser .pixel).okWith
      (fun b => b.insts.any (storesIntAsFloat b.env)) = true := by
    decide +kernel
  obtain ⟨b, hb, hany⟩ := Outcome.exists_of_okWith hrun
  obtain ⟨i, hi, hbad⟩ := List.any_eq_true.mp hany
  refine ⟨b, hb, fun hall => ?_⟩
  have hi := hall i hi
  cases i with
  | store ptr object =>
    obtain ⟨cls, t, hptr, hobject⟩ := hi
    simp only [storesIntAsFloat, hptr, hobject] at hbad
    cases t <;> cases hbad
  | _ => cases hbad

end WinCompat.Hlsl
