import WinCompat.Hlsl.UnitTyping

/-!
# The bindings of a shader's resources

`emit_cbuffer` and `emit_global_var` decorate the variable of a resource with what `parse_register`
makes of its clause: the set is 0 and the binding is the number, and the letter is stripped. Which
resource is bound where is therefore a function of the numbers alone (`emitGlobals_bindings`), and
the three register classes share one namespace.
-/

namespace WinCompat.Hlsl

open Lib Lib.Comp

/-! ## Resources -/

inductive RegisterClass
  | b
  | t
  | s
  deriving DecidableEq

/-- What a declaration asks for: the class is that of its type, the register the text between the
    parentheses of its clause. -/
structure Resource where
  cls : RegisterClass
  register : Option String
  deriving DecidableEq

namespace Resource

def number (r : Resource) : Nat := (parseRegister r.register).2

/-- The decorations of its variable. -/
def decorations (r : Resource) : List Spirv.Decoration :=
  [.descriptorSet 0, .binding r.number]

/-- Both name a register, of one class and with one number. -/
def SameRegister (r r' : Resource) : Prop :=
  r.cls = r'.cls ∧ r.register ≠ none ∧ r'.register ≠ none ∧ r.number = r'.number

instance (r r' : Resource) : Decidable (SameRegister r r') := by
  unfold SameRegister
  infer_instance

end Resource

def resourceOf : Decl → Option Resource
  | .cbuffer c => some ⟨.b, c.register⟩
  | .globalVar g =>
      match g.ty with
      | .texture2D => some ⟨.t, g.register⟩
      | .samplerState => some ⟨.s, g.register⟩
      | _ => none
  | .struct _ => none
  | .function _ => none

/-- The resources, in the order of their variables. -/
def resources (ds : List Decl) : List Resource := ds.filterMap resourceOf

/-- No two resources of one class name the same register. -/
def SeparateRegisters (ds : List Decl) : Prop :=
  (resources ds).Pairwise fun r r' => ¬ r.SameRegister r'

/-! ## Bindings of a module -/

/-- What a decoration says of the id `v`. -/
def decorationOf (v : Spirv.Id) : Spirv.Target × Spirv.Decoration → Option Spirv.Decoration
  | (.id w, d) => if w = v then some d else none
  | (.type _, _) => none
  | (.member _ _, _) => none

/-- The decorations of the id `v`. -/
def decorationsOf (ds : List (Spirv.Target × Spirv.Decoration)) (v : Spirv.Id) :
    List Spirv.Decoration := ds.filterMap (decorationOf v)

/-- The pair of a variable that has one descriptor set and one binding. -/
def pairOf : List Spirv.Decoration → Option (Nat × Nat)
  | [.descriptorSet set, .binding n] => some (set, n)
  | _ => none

/-- The pairs of the variables of a module, in their order. -/
def bindings (b : Spirv.Builder) : List (Option (Nat × Nat)) :=
  b.globalVars.map fun v => pairOf (decorationsOf b.decorations v.id)

@[simp] theorem decorationsOf_nil (v : Spirv.Id) : decorationsOf [] v = [] := rfl

@[simp] theorem decorationsOf_append (ds es : List (Spirv.Target × Spirv.Decoration))
    (v : Spirv.Id) : decorationsOf (ds ++ es) v = decorationsOf ds v ++ decorationsOf es v :=
  List.filterMap_append

theorem parseRegister_set (register : Option String) : (parseRegister register).1 = 0 := by
  cases register <;> rfl

/-! ## What a step binds -/

/-- A variable of the shader's interface. -/
def IsInterface (v : Spirv.Variable) : Prop := v.cls = .input ∨ v.cls = .output

/-- From `b` to `b'` the variables of the resources `rs` are added with their decorations, and no
    other id is decorated. The interface has no part in it: no variable of it is added, and no
    location is assigned. -/
structure Binds (b b' : Spirv.Builder) (rs : List Resource) : Prop where
  next : b.nextId ≤ b'.nextId
  vars : ∀ v ∈ b'.globalVars, v ∈ b.globalVars ∨ ¬ IsInterface v
  located : ∀ t n, (t, Spirv.Decoration.location n) ∈ b'.decorations →
    (t, Spirv.Decoration.location n) ∈ b.decorations
  added : ∃ vs ds, b'.globalVars = b.globalVars ++ vs ∧ b'.decorations = b.decorations ++ ds ∧
    (∀ v ∈ vs, b.nextId ≤ v.id ∧ v.id < b'.nextId) ∧
    (∀ w, (w < b.nextId ∨ b'.nextId ≤ w) → decorationsOf ds w = []) ∧
    vs.map (fun v => decorationsOf ds v.id) = rs.map Resource.decorations

namespace Binds

variable {b b₁ b₂ : Spirv.Builder} {rs rs' : List Resource}

theorem refl (b : Spirv.Builder) : Binds b b [] where
  next := Nat.le_refl _
  vars _ := Or.inl
  located _ _ := id
  added := ⟨[], [], by simp, by simp, by simp, by simp, rfl⟩

theorem trans (h : Binds b b₁ rs) (h' : Binds b₁ b₂ rs') : Binds b b₂ (rs ++ rs') := by
  obtain ⟨vs, ds, hvs, hds, hin, hout, hmap⟩ := h.added
  obtain ⟨vs', ds', hvs', hds', hin', hout', hmap'⟩ := h'.added
  refine ⟨Nat.le_trans h.next h'.next, fun v hv => (h'.vars v hv).elim (h.vars v) Or.inr,
    fun t n hd => h.located t n (h'.located t n hd), vs ++ vs', ds ++ ds', ?_, ?_, ?_, ?_, ?_⟩
  · rw [hvs', hvs, List.append_assoc]
  · rw [hds', hds, List.append_assoc]
  · intro v hv
    rcases List.mem_append.mp hv with hv | hv
    · exact ⟨(hin v hv).1, Nat.lt_of_lt_of_le (hin v hv).2 h'.next⟩
    · exact ⟨Nat.le_trans h.next (hin' v hv).1, (hin' v hv).2⟩
  · intro w hw
    have hfirst : w < b.nextId ∨ b₁.nextId ≤ w := hw.imp_right (Nat.le_trans h'.next)
    have hsecond : w < b₁.nextId ∨ b₂.nextId ≤ w := 
      hw.imp_left fun hlt => Nat.lt_of_lt_of_le hlt h.next
    simp [hout w hfirst, hout' w hsecond]
  · rw [List.map_append, List.map_append, ← hmap, ← hmap']
    congr 1
    · refine List.map_congr_left fun v hv => ?_
      simp [hout' v.id (.inl (hin v hv).2)]
    · refine List.map_congr_left fun v hv => ?_
      simp [hout v.id (.inr (hin' v hv).1)]

theorem nil_trans (h : Binds b b₁ []) (h' : Binds b₁ b₂ rs) : Binds b b₂ rs := h.trans h'

theorem trans_nil (h : Binds b b₁ rs) (h' : Binds b₁ b₂ []) : Binds b b₂ rs := by
  simpa using h.trans h'

end Binds

section

variable {s s' : Ctx} {u : Unit} {ty : Spirv.Ty}

theorem checkedU32_ok {n m : Nat} (h : checkedU32 n s = .ok (m, s')) : s = s' ∧ m = n := by
  unfold checkedU32 at h
  split at h
  · cases h
    exact ⟨rfl, rfl⟩
  · cases h

theorem constOp_binds {bits : BitVec 32} {c : Spirv.Id} (h : constOp ty bits s = .ok (c, s')) :
    Binds s.builder s'.builder [] := by
  cases h
  exact ⟨Nat.le_succ _, fun _ => Or.inl, fun _ _ => id, [], [], by simp [Spirv.Builder.constant],
    by simp [Spirv.Builder.constant], by simp, by simp, rfl⟩

theorem decorate_binds {t : Spirv.Target} {d : Spirv.Decoration}
    (ht : ∀ w, decorationOf w (t, d) = none) (hd : ∀ n, d ≠ .location n)
    (h : decorate t d s = .ok (u, s')) : Binds s.builder s'.builder [] := by
  cases h
  refine ⟨Nat.le_refl _, fun _ => Or.inl, ?_, [], [(t, d)], by simp [Spirv.Builder.decorate], rfl,
    by simp, ?_, rfl⟩
  · intro t' n h
    rcases List.mem_append.mp h with h | h
    · exact h
    · exact absurd (Prod.mk.inj (List.mem_singleton.mp h)).2.symm (hd n)
  · intro w _
    simp [decorationsOf, ht w]

theorem memberAlignSize_ok {ty : Ty} {r : Nat × Nat} (h : memberAlignSize ty s = .ok (r, s')) :
    s = s' := by
  unfold memberAlignSize at h
  split at h
  · cases h; rfl
  · cases h; rfl
  · cases h; rfl
  · cases h; rfl
  · obtain ⟨size, s1, h1, h⟩ := bind_eq_ok h
    obtain ⟨rfl, -⟩ := checkedU32_ok h1
    cases h
    rfl
  · cases h; rfl

theorem alignUp_ok {offset align r : Nat} (h : alignUp offset align s = .ok (r, s')) : s = s' := by
  unfold alignUp at h
  split at h
  · cases h
    rfl
  · exact (checkedU32_ok h).1

theorem decorateOffsets_binds {ms : List StructMember} {i offset : Nat}
    (h : decorateOffsets ty ms i offset s = .ok (u, s')) : Binds s.builder s'.builder [] := by
  induction ms generalizing i offset s with
  | nil =>
    cases h
    exact .refl _
  | cons m rest ih =>
    obtain ⟨r, s1, h1, h⟩ := bind_eq_ok h
    obtain rfl := memberAlignSize_ok h1
    obtain ⟨at_, s2, h2, h⟩ := bind_eq_ok h
    obtain rfl := alignUp_ok h2
    obtain ⟨_, s3, h3, h⟩ := bind_eq_ok h
    obtain ⟨next, s4, h4, h⟩ := bind_eq_ok h
    obtain ⟨rfl, -⟩ := checkedU32_ok h4
    exact (decorate_binds (fun _ => rfl) (by nofun) h3).nil_trans (ih h)

theorem bound_binds {cls : Spirv.StorageClass} {v : Spirv.Id} {s₁ : Ctx} {r : Resource}
    (hcls : cls ≠ .input ∧ cls ≠ .output) (h : globalVariable ty cls s = .ok (v, s₁))
    (h' : decorateBinding v r.register s₁ = .ok (u, s')) : Binds s.builder s'.builder [r] := by
  cases h
  cases h'
  refine ⟨Nat.le_succ _, ?_, ?_, [⟨ty, s.builder.nextId, cls⟩],
    [(.id s.builder.nextId, .descriptorSet (parseRegister r.register).1),
      (.id s.builder.nextId, .binding r.number)], rfl, ?_, ?_, ?_, ?_⟩
  · intro v hv
    refine (List.mem_append.mp hv).imp_right fun hv => ?_
    rw [List.mem_singleton.mp hv]
    exact not_or.mpr hcls
  · intro t n hd
    simpa [Spirv.Builder.decorate, Spirv.Builder.globalVariable] using hd
  · exact List.append_assoc _ _ _
  · intro v hv
    obtain rfl := List.mem_singleton.mp hv
    exact ⟨Nat.le_refl _, Nat.lt_succ_self _⟩
  · intro w hw
    have hne : s.builder.nextId ≠ w := by
      rcases hw with hw | hw
      · exact Nat.ne_of_gt hw
      · exact Nat.ne_of_lt hw
    simp [decorationsOf, decorationOf, hne]
  · simp [decorationsOf, decorationOf, Resource.decorations, parseRegister_set]

theorem registerMembers_binds {v : Spirv.Id} {ms : List StructMember} {i : Nat}
    (h : registerMembers v ms i s = .ok (u, s')) : Binds s.builder s'.builder [] := by
  induction ms generalizing i s with
  | nil =>
    cases h
    exact .refl _
  | cons m rest ih =>
    obtain ⟨st, s1, h1, h⟩ := bind_eq_ok h
    obtain ⟨-, rfl⟩ := typeId_ok h1
    obtain ⟨c, s2, h2, h⟩ := bind_eq_ok h
    obtain ⟨_, s3, h3, h⟩ := bind_eq_ok h
    obtain ⟨_, s4, h4, h⟩ := bind_eq_ok h
    have hadded : s4.builder = s2.builder := by
      cases h3
      cases h4
      rfl
    have hrest := ih h
    rw [hadded] at hrest
    exact (constOp_binds h2).nil_trans hrest

theorem emitCBuffer_binds {c : CBufferDecl} (h : emitCBuffer c s = .ok (u, s')) :
    Binds s.builder s'.builder [⟨.b, c.register⟩] := by
  obtain ⟨ts, s1, h1, h⟩ := bind_eq_ok h
  obtain ⟨rfl, -⟩ := typeIds_ok h1
  obtain ⟨_, s2, h2, h⟩ := bind_eq_ok h
  obtain ⟨_, s3, h3, h⟩ := bind_eq_ok h
  obtain ⟨_, s4, h4, h⟩ := bind_eq_ok h
  obtain ⟨v, s5, h5, h⟩ := bind_eq_ok h
  obtain ⟨_, s6, h6, h⟩ := bind_eq_ok h
  obtain ⟨_, s7, h7, h⟩ := bind_eq_ok h
  have hbefore := (decorate_binds (fun _ => rfl) (by nofun) h2).nil_trans (decorateOffsets_binds h3)
  have hstruct : s4.builder = s3.builder := by
    cases h4
    rfl
  have hglobal : s7.builder = s6.builder := by
    cases h7
    rfl
  have hvar : Binds s4.builder s6.builder [⟨.b, c.register⟩] :=
    bound_binds (by decide) h5 h6
  rw [hstruct] at hvar
  have hmembers := registerMembers_binds h
  rw [hglobal] at hmembers
  exact (hbefore.nil_trans hvar).trans_nil hmembers

theorem emitOpaque_binds {g : GlobalVarDecl} {r : Resource} (hr : r.register = g.register)
    (h : emitOpaque g ty s = .ok (u, s')) : Binds s.builder s'.builder [r] := by
  obtain ⟨v, s1, h1, h⟩ := bind_eq_ok h
  obtain ⟨_, s2, h2, h⟩ := bind_eq_ok h
  rw [← hr] at h2
  have hglobal : s'.builder = s2.builder := by
    cases h
    rfl
  rw [hglobal]
  exact bound_binds (by decide) h1 h2

theorem registerStruct_binds {d : StructDecl} (h : registerStruct d s = .ok (u, s')) :
    Binds s.builder s'.builder [] := by
  obtain ⟨s0, s1, h1, h⟩ := bind_eq_ok h
  cases h1
  split at h
  · cases h
    exact .refl _
  · obtain ⟨ts, s2, h2, h⟩ := bind_eq_ok h
    obtain ⟨rfl, -⟩ := typeIds_ok h2
    cases h
    exact .refl _

theorem emitDecl_binds {d : Decl} (h : emitDecl d s = .ok (u, s')) :
    Binds s.builder s'.builder (resourceOf d).toList := by
  cases d with
  | struct d => exact registerStruct_binds h
  | cbuffer c => exact emitCBuffer_binds h
  | function f =>
    cases h
    exact .refl _
  | globalVar g =>
    have h : emitGlobalVar g s = .ok (u, s') := h
    unfold emitGlobalVar at h
    unfold resourceOf
    cases hg : g.ty with
    | texture2D | samplerState =>
      simp only [hg] at h ⊢
      exact emitOpaque_binds (r := ⟨_, g.register⟩) rfl h
    | _ =>
      simp only [hg] at h
      cases h

theorem emitGlobals_binds {ds : List Decl} (h : emitGlobals ds s = .ok (u, s')) :
    Binds s.builder s'.builder (resources ds) := by
  induction ds generalizing s with
  | nil =>
    cases h
    exact .refl _
  | cons d rest ih =>
    obtain ⟨_, s1, h1, h⟩ := bind_eq_ok h
    have hall := (emitDecl_binds h1).trans (ih h)
    cases hd : resourceOf d <;> simpa [resources, hd] using hall

theorem emitGlobals_bindings {ds : List Decl} {stage : ShaderStage}
    (h : emitGlobals ds (Ctx.new stage) = .ok (u, s')) :
    bindings s'.builder = (resources ds).map fun r => some (0, r.number) := by
  obtain ⟨vs, es, hvs, hes, -, -, hmap⟩ := (emitGlobals_binds h).added
  have hvs : s'.builder.globalVars = vs := hvs
  have hes : s'.builder.decorations = es := hes
  have hpairs := congrArg (List.map pairOf) hmap
  rw [List.map_map, List.map_map] at hpairs
  rw [bindings, hvs, hes]
  exact hpairs

end

/-! ## One namespace -/

/-- The set is 0 and the binding the number of the clause, or 0 without one. -/
structure SingleNamespace (ds : List Decl) (b : Spirv.Builder) : Prop where
  pairs : bindings b = (resources ds).map fun r => some (0, r.number)
  distinct : (bindings b).Nodup ↔ ((resources ds).map Resource.number).Nodup
  /-- A resource without a clause shares its pair with those of number 0. -/
  bare : ∀ (i j : Nat) (r r' : Resource),
    (resources ds)[i]? = some r → (resources ds)[j]? = some r' →
    r.register = none → ((bindings b)[i]? = (bindings b)[j]? ↔ r'.number = 0)
  /-- Another shader's resource of the same class and register has the same pair. -/
  shared : ∀ ds' stage s', emitGlobals ds' (Ctx.new stage) = .ok ((), s') →
    ∀ (i j : Nat) (r r' : Resource),
      (resources ds)[i]? = some r → (resources ds')[j]? = some r' → r.SameRegister r' →
      (bindings b)[i]? = (bindings s'.builder)[j]?

theorem number_of_bare {r : Resource} (h : r.register = none) : r.number = 0 := by
  simp [Resource.number, h, parseRegister]

/-- The bindings are numbered by the clauses alone, in one namespace for all classes, so `b0` and
    `t0` are one binding and a resource without a clause is number 0. -/
theorem bindings_singleNamespace {ds : List Decl} {stage : ShaderStage} {s : Ctx}
    (h : emitGlobals ds (Ctx.new stage) = .ok ((), s)) : SingleNamespace ds s.builder := by
  have hpairs := emitGlobals_bindings h
  refine ⟨hpairs, ?_, ?_, ?_⟩
  · have hinj : Function.Injective fun n : Nat => some ((0 : Nat), n) := by
      intro n m hnm
      simpa using hnm
    rw [hpairs, ← List.nodup_map_iff hinj, List.map_map]
    rfl
  · intro i j r r' hi hj hbare
    simp [hpairs, hi, hj, number_of_bare hbare, eq_comm]
  · intro ds' stage' s' h' i j r r' hi hj hsame
    simp [hpairs, emitGlobals_bindings h', hi, hj, hsame.2.2.2]

/-- `cbuffer c : register(b0) { float4 tint; }; Texture2D tex : register(t1);` -/
def tinted : List Decl :=
  [.cbuffer ⟨"c", some "b0", [⟨.vector .float 4, "tint", none⟩]⟩,
    .globalVar ⟨.texture2D, "tex", some "t1"⟩]

theorem bindings_singleNamespace_tinted :
    ∃ s, emitGlobals tinted (Ctx.new .pixel) = .ok ((), s) ∧ SingleNamespace tinted s.builder :=
  ⟨_, rfl, bindings_singleNamespace rfl⟩

/-- `Texture2D tex : register(t0); SamplerState samp : register(s0);
    float4 main(float2 uv : TEXCOORD0) : SV_Target { return tex.Sample(samp, uv); }` -/
def textured : TranslationUnit where
  decls := [
    .globalVar ⟨.texture2D, "tex", some "t0"⟩,
    .globalVar ⟨.samplerState, "samp", some "s0"⟩,
    .function {
      returnType := .vector .float 4
      name := "main"
      params := [⟨.vector .float 2, "uv", some "TEXCOORD0"⟩]
      semantic := some "SV_Target"
      body := some [.return_ (some (.methodCall (.ident "tex") "Sample"
        [.ident "samp", .ident "uv"]))] }]

/-- The texture and its sampler have one pair, though their registers are of different classes. -/
theorem textured_not_distinct : SeparateRegisters textured.decls ∧
    (∃ b, codegen textured .pixel = .ok b) ∧
    ∃ s, emitGlobals textured.decls (Ctx.new .pixel) = .ok ((), s) ∧
      ¬ (bindings s.builder).Nodup := by
  have hok : (codegen textured .pixel).okWith (fun _ => true) = true := by decide +kernel
  obtain ⟨b, hb, -⟩ := Outcome.exists_of_okWith hok
  refine ⟨?_, ⟨b, hb⟩, _, rfl, ?_⟩
  · unfold SeparateRegisters
    decide
  · have hpairs := @emitGlobals_bindings _ () textured.decls .pixel rfl
    rw [hpairs]
    decide

end WinCompat.Hlsl
