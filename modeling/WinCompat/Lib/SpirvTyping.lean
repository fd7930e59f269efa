import WinCompat.Lib.Assoc
import WinCompat.Lib.Structured

/-!
# Typed SPIR-V

What SPIR-V asks of the operands of an instruction, given the types of all ids of the module. Integer
operations ask for one shape and leave the signedness of the operands open, except where the opcode
fixes it.

The types are taken from the module itself (`Builder.env`). An environment that agrees with a module
agrees with every earlier state of its builder, so a proof can fix the environment at the end and
follow the builder from the start.
-/

namespace WinCompat.Lib.Spirv

/-! ## Shapes of types -/

namespace Ty

/-- The number of components of a vector; a scalar has none. -/
def size : Ty → Option Nat
  | .vector _ n => some n
  | _ => none

def IsFloat (t : Ty) : Prop := t = .float ∨ ∃ n, t = .vector .float n

def IsInt (t : Ty) : Prop := ∃ signed, t = .int signed ∨ ∃ n, t = .vector (.int signed) n

def IsUnsigned (t : Ty) : Prop := t = .int false ∨ ∃ n, t = .vector (.int false) n

def IsBool (t : Ty) : Prop := t = .bool ∨ ∃ n, t = .vector .bool n

/-- The type of a component. -/
def component : Ty → Nat → Option Ty
  | .vector elem n, i => if i < n then some elem else none
  | .matrix column n, i => if i < n then some column else none
  | .struct members, i => members[i]?
  | _, _ => none

/-- How many components a constituent of a vector supplies. -/
def width : Ty → Nat
  | .vector _ n => n
  | _ => 1

end Ty

/-! ## Typing rules -/

/-- The operand that an opcode takes for a result type. -/
def UnaryOp.Accepts : UnaryOp → Ty → Ty → Prop
  | fNegate, r, t => r.IsFloat ∧ t = r
  | sNegate, r, t | not, r, t => r.IsInt ∧ t.IsInt ∧ t.size = r.size
  | logicalNot, r, t => r.IsBool ∧ t = r
  | convertSToF, r, t | convertUToF, r, t => r.IsFloat ∧ t.IsInt ∧ t.size = r.size
  | convertFToS, r, t => r.IsInt ∧ t.IsFloat ∧ t.size = r.size
  | convertFToU, r, t => r.IsUnsigned ∧ t.IsFloat ∧ t.size = r.size
  | any, r, t => r = .bool ∧ ∃ n, t = .vector .bool n

/-- The operands that an opcode takes for a result type. -/
def BinaryOp.Accepts : BinaryOp → Ty → Ty → Ty → Prop
  | fAdd, r, a, b | fSub, r, a, b | fMul, r, a, b | fDiv, r, a, b => r.IsFloat ∧ a = r ∧ b = r
  | iAdd, r, a, b | iSub, r, a, b | iMul, r, a, b | sDiv, r, a, b =>
      r.IsInt ∧ a.IsInt ∧ b.IsInt ∧ a.size = r.size ∧ b.size = r.size
  | uDiv, r, a, b => r.IsUnsigned ∧ a = r ∧ b = r
  | fOrdEqual, r, a, b | fOrdNotEqual, r, a, b | fOrdLessThan, r, a, b
  | fOrdLessThanEqual, r, a, b | fOrdGreaterThan, r, a, b | fOrdGreaterThanEqual, r, a, b =>
      r.IsBool ∧ a.IsFloat ∧ b = a ∧ a.size = r.size
  | iEqual, r, a, b | iNotEqual, r, a, b | sLessThan, r, a, b | sLessThanEqual, r, a, b
  | sGreaterThan, r, a, b | sGreaterThanEqual, r, a, b =>
      r.IsBool ∧ a.IsInt ∧ b.IsInt ∧ a.size = r.size ∧ b.size = r.size
  | logicalAnd, r, a, b | logicalOr, r, a, b => r.IsBool ∧ a = r ∧ b = r
  | dot, r, a, b => r = .float ∧ (∃ n, a = .vector .float n) ∧ b = a
  | matrixTimesVector, r, a, b =>
      ∃ rows cols, r = .vector .float rows ∧ a = .matrix (.vector .float rows) cols ∧
        b = .vector .float cols
  | vectorTimesMatrix, r, a, b =>
      ∃ rows cols, r = .vector .float cols ∧ a = .vector .float rows ∧
        b = .matrix (.vector .float rows) cols
  | matrixTimesMatrix, r, a, b =>
      ∃ rows inner cols, r = .matrix (.vector .float rows) cols ∧
        a = .matrix (.vector .float rows) inner ∧ b = .matrix (.vector .float inner) cols

/-- `Length` of `GLSL.std.450`. -/
def extLength : Nat := 66

/-- `Cross` of `GLSL.std.450`. -/
def extCross : Nat := 68

/-- The operands that an instruction of `GLSL.std.450` on floating point takes: those of the result
    type, but for `Length`. -/
def ExtAccepts (instruction : Nat) (r : Ty) (ts : List Ty) : Prop :=
  if instruction = extLength then r = .float ∧ ∀ t ∈ ts, t.IsFloat
  else r.IsFloat ∧ (instruction = extCross → r.size = some 3) ∧ ∀ t ∈ ts, t = r

/-- The constituents that make up a vector. -/
def Supplies (r : Ty) (ts : List Ty) : Prop :=
  ∃ elem n, r = .vector elem n ∧ (∀ t ∈ ts, t = elem ∨ ∃ k, t = .vector elem k) ∧
    (ts.map Ty.width).sum = n

/-- The types of the ids of a module, and the literals of its constants. -/
structure Env where
  ty : Id → Option Ty
  bits : Id → Option (BitVec 32)

/-- The type that a chain of indexes leads to: a member is named by an integer constant. -/
def Env.walk (Γ : Env) (t : Ty) : List Id → Option Ty
  | [] => some t
  | i :: rest => do
      let bits ← Γ.bits i
      let member ← t.component bits.toNat
      Γ.walk member rest

/-- The components of a shuffle come from its first vector. -/
def Inst.WellTyped (Γ : Env) : Inst → Prop
  | .variable ty _ cls => ∃ t, ty = .pointer cls t
  | .load ty _ ptr => ∃ cls, Γ.ty ptr = some (.pointer cls ty)
  | .store ptr object => ∃ cls t, Γ.ty ptr = some (.pointer cls t) ∧ Γ.ty object = some t
  | .accessChain ty _ base indexes =>
      ∃ cls t member, Γ.ty base = some (.pointer cls t) ∧ Γ.walk t indexes = some member ∧
        ty = .pointer cls member
  | .compositeExtract ty _ composite indexes =>
      ∃ t, Γ.ty composite = some t ∧ indexes.foldlM Ty.component t = some ty
  | .compositeConstruct ty _ constituents =>
      ∃ ts : List Ty, constituents.map Γ.ty = ts.map some ∧ Supplies ty ts
  | .vectorShuffle ty _ vector1 vector2 components =>
      ∃ elem n m, Γ.ty vector1 = some (.vector elem n) ∧ Γ.ty vector2 = some (.vector elem m) ∧
        ty = .vector elem components.length ∧ ∀ c ∈ components, c < n
  | .unary op ty _ operand => ∃ t, Γ.ty operand = some t ∧ op.Accepts ty t
  | .binary op ty _ operand1 operand2 =>
      ∃ a b, Γ.ty operand1 = some a ∧ Γ.ty operand2 = some b ∧ op.Accepts ty a b
  | .extInst ty _ _ instruction operands =>
      ∃ ts : List Ty, operands.map Γ.ty = ts.map some ∧ ExtAccepts instruction ty ts
  | .sampledImage ty _ image sampler =>
      ty = .sampledImage ∧ Γ.ty image = some .image ∧ Γ.ty sampler = some .sampler
  | .imageSampleImplicitLod ty _ image coordinate =>
      ty = .vector .float 4 ∧ Γ.ty image = some .sampledImage ∧
        ∃ t, Γ.ty coordinate = some t ∧ t.IsFloat
  | .branchConditional condition _ _ => Γ.ty condition = some .bool
  | .selectionMerge _ | .loopMerge _ _ | .branch _ | .ret => True

/-! ## The ids of a module -/

namespace Builder

/-- The instructions of the function. -/
def insts (b : Builder) : List Inst :=
  match b.func with
  | some f => f.insts
  | none => []

/-- Every id with a type, where it is defined. -/
def defs (b : Builder) : List (Id × Ty) :=
  b.constants.map (fun c => (c.id, c.ty)) ++ b.globalVars.map (fun v => (v.id, v.ty)) ++
    b.insts.filterMap Inst.result

/-- The types and literals that a module gives its ids. -/
def env (b : Builder) : Env where
  ty id := b.defs.lookup id
  bits id := (b.constants.find? (·.id = id)).map Constant.bits

/-- Every instruction of the function is well typed. -/
def WellTyped (b : Builder) : Prop := ∀ i ∈ b.insts, i.WellTyped b.env

end Builder

/-- The environment knows what the module defines so far. -/
structure Env.Agrees (Γ : Env) (b : Builder) : Prop where
  ty : ∀ d ∈ b.defs, Γ.ty d.1 = some d.2
  bits : ∀ c ∈ b.constants, Γ.bits c.id = some c.bits

/-! ## Ids that are defined once -/

/-- The ids lie from `n` to `n'`, and each occurs at most once. -/
structure Once (n n' : Id) (ids : List Id) : Prop where
  le : n ≤ n'
  count : ∀ k, ids.count k ≤ if n ≤ k ∧ k < n' then 1 else 0

namespace Once

variable {n n₁ n₂ : Id} {ids ids' : List Id}

theorem nil (h : n ≤ n₁) : Once n n₁ [] := ⟨h, fun _ => by simp⟩

theorem single {id : Id} (h : n ≤ id) (h' : id < n₁) : Once n n₁ [id] := by
  refine ⟨Nat.le_of_lt (Nat.lt_of_le_of_lt h h'), fun k => ?_⟩
  by_cases hk : id = k
  · subst hk
    simp [h, h']
  · simp [hk]

theorem append (h : Once n n₁ ids) (h' : Once n₁ n₂ ids') : Once n n₂ (ids ++ ids') := by
  refine ⟨Nat.le_trans h.le h'.le, fun k => ?_⟩
  have hk := h.count k
  have hk' := h'.count k
  have hle := h.le
  have hle' := h'.le
  rw [List.count_append]
  by_cases h1 : k < n₁
  · rw [if_neg fun h => Nat.not_lt_of_le h.1 h1] at hk'
    by_cases h0 : n ≤ k
    · rw [if_pos ⟨h0, h1⟩] at hk
      rw [if_pos ⟨h0, Nat.lt_of_lt_of_le h1 hle'⟩]
      exact Nat.add_le_add hk hk'
    · rw [if_neg fun h => h0 h.1] at hk
      exact Nat.le_trans (Nat.add_le_add hk hk') (Nat.zero_le _)
  · have h1 : n₁ ≤ k := Nat.le_of_not_lt h1
    rw [if_neg fun h => Nat.not_lt_of_le h1 h.2] at hk
    by_cases h2 : k < n₂
    · rw [if_pos ⟨h1, h2⟩] at hk'
      rw [if_pos ⟨Nat.le_trans hle h1, h2⟩]
      exact Nat.add_le_add hk hk'
    · rw [if_neg fun h => h2 h.2] at hk'
      exact Nat.le_trans (Nat.add_le_add hk hk') (Nat.zero_le _)

theorem perm (h : Once n n₁ ids) (hp : ids.Perm ids') : Once n n₁ ids' :=
  ⟨h.le, fun k => hp.count_eq k ▸ h.count k⟩

theorem nodup (h : Once n n₁ ids) : ids.Nodup := by
  apply List.nodup_iff_count_le_one.mpr
  intro k
  refine Nat.le_trans (h.count k) ?_
  split <;> decide

theorem lt (h : Once n n₁ ids) {id : Id} (hid : id ∈ ids) : id < n₁ := by
  have hcount := Nat.le_trans (List.count_pos_iff.2 hid) (h.count id)
  by_contra hlt
  rw [if_neg fun hin => hlt hin.2] at hcount
  exact Nat.not_lt_zero 0 hcount

end Once

namespace Builder

/-- Every id is defined once, and below the next one. -/
def Fresh (b : Builder) : Prop := Once 0 b.nextId (b.defs.map Prod.fst)

theorem Fresh.constants_nodup {b : Builder} (h : b.Fresh) : (b.constants.map Constant.id).Nodup := by
  have hnodup := Once.nodup h
  unfold defs at hnodup
  rw [List.map_append, List.map_append, List.append_assoc, List.map_map] at hnodup
  exact (List.nodup_append.mp hnodup).1

/-- What has a type is below the next id. -/
theorem Fresh.lt {b : Builder} (h : b.Fresh) {id : Id} {ty : Ty} (hty : b.env.ty id = some ty) :
    id < b.nextId :=
  Once.lt h (List.mem_map.2 ⟨(id, ty), Assoc.mem_of_lookup hty, rfl⟩)

theorem Fresh.agrees {b : Builder} (h : b.Fresh) : b.env.Agrees b where
  ty _ hd := Assoc.lookup_of_nodup (Once.nodup h) hd
  bits c hc := by
    have hnodup := h.constants_nodup
    show (b.constants.find? (·.id = c.id)).map Constant.bits = some c.bits
    generalize b.constants = cs at hc hnodup
    induction cs with
    | nil => cases hc
    | cons k cs ih =>
      obtain ⟨hk, hcs⟩ := List.nodup_cons.mp hnodup
      rcases List.mem_cons.mp hc with rfl | hc
      · simp
      · have hne : k.id ≠ c.id := by
          intro he
          exact hk (List.mem_map.mpr ⟨c, hc, he.symm⟩)
        simpa [List.find?_cons, hne] using ih hc hcs

end Builder

/-! ## Emission -/

/-- What constants and instructions define. -/
def defsOf (cs : List Constant) (is : List Inst) : List (Id × Ty) :=
  cs.map (fun c => (c.id, c.ty)) ++ is.filterMap Inst.result

/-- Constants and instructions that define the ids from `n` to `n'`, each at most once. -/
def Adds (n n' : Id) (cs : List Constant) (is : List Inst) : Prop :=
  Once n n' ((defsOf cs is).map Prod.fst)

namespace Adds

variable {n n₁ n₂ : Id} {cs cs' : List Constant} {is is' : List Inst} {i : Inst}

theorem nil (h : n ≤ n₁) : Adds n n₁ [] [] := Once.nil h

theorem constant (ty : Ty) (bits : BitVec 32) : Adds n (n + 1) [⟨ty, n, bits⟩] [] :=
  Once.single (Nat.le_refl n) (Nat.lt_succ_self n)

theorem result {ty : Ty} (h : i.result = some (n, ty)) : Adds n (n + 1) [] [i] := by
  have hdefs : defsOf [] [i] = [(n, ty)] := by simp [defsOf, h]
  rw [Adds, hdefs]
  exact Once.single (Nat.le_refl n) (Nat.lt_succ_self n)

theorem noResult (h : i.result = none) : Adds n n [] [i] := by
  have hdefs : defsOf [] [i] = [] := by simp [defsOf, h]
  rw [Adds, hdefs]
  exact Once.nil (Nat.le_refl n)

theorem append (h : Adds n n₁ cs is) (h' : Adds n₁ n₂ cs' is') :
    Adds n n₂ (cs ++ cs') (is ++ is') := by
  have hperm : (defsOf cs is ++ defsOf cs' is').Perm (defsOf (cs ++ cs') (is ++ is')) := by
    unfold defsOf
    rw [List.map_append, List.filterMap_append, List.append_assoc, List.append_assoc]
    apply List.Perm.append_left
    rw [← List.append_assoc, ← List.append_assoc]
    exact List.perm_append_comm.append_right _
  have hall := Once.append h h'
  rw [← List.map_append] at hall
  exact hall.perm (hperm.map _)

/-- An instruction that has the next id as its result. -/
theorem snoc (h : Adds n n₁ cs is) {ty : Ty} (hi : i.result = some (n₁, ty)) :
    Adds n (n₁ + 1) cs (is ++ [i]) := by
  have hall := h.append (result hi)
  rwa [List.append_nil] at hall

theorem snocNone (h : Adds n n₁ cs is) (hi : i.result = none) : Adds n n₁ cs (is ++ [i]) := by
  have hall := h.append (noResult hi)
  rwa [List.append_nil] at hall

end Adds

namespace Builder

/-- The module's variables and its decorations are the same. -/
def SameGlobals (b b' : Builder) : Prop :=
  b'.globalVars = b.globalVars ∧ b'.decorations = b.decorations

theorem SameGlobals.trans {b b' b'' : Builder} (h : b.SameGlobals b') (h' : b'.SameGlobals b'') :
    b.SameGlobals b'' := ⟨h'.1.trans h.1, h'.2.trans h.2⟩

/-- From `b` to `b'`, the instructions `is` have been emitted: an environment that agrees with `b'`
    agrees with `b`, and each id is still defined once. -/
structure Emitted (b b' : Builder) (is : List Inst) : Prop where
  insts : b'.insts.Perm (b.insts ++ is)
  agrees : ∀ Γ : Env, Γ.Agrees b' → Γ.Agrees b
  fresh : b.Fresh → b'.Fresh

namespace Emitted

variable {b b' b'' : Builder} {is is' : List Inst}

theorem refl (b : Builder) : b.Emitted b [] := by
  refine ⟨?_, fun _ h => h, id⟩
  rw [List.append_nil]

theorem trans (h : b.Emitted b' is) (h' : b'.Emitted b'' is') : b.Emitted b'' (is ++ is') := by
  refine ⟨?_, fun Γ hΓ => h.agrees Γ (h'.agrees Γ hΓ), fun hb => h'.fresh (h.fresh hb)⟩
  rw [← List.append_assoc]
  exact h'.insts.trans (h.insts.append_right is')

end Emitted

/-- Definitions are added, each with an id of its own. -/
theorem emitted_of_defs (new : List (Id × Ty)) {b b' : Builder} {is : List Inst}
    (hdefs : b'.defs.Perm (b.defs ++ new)) (hc : ∀ c ∈ b.constants, c ∈ b'.constants)
    (hnew : Once b.nextId b'.nextId (new.map Prod.fst)) (hi : b'.insts.Perm (b.insts ++ is)) :
    b.Emitted b' is := by
  refine ⟨hi, fun Γ hΓ => ⟨fun d hd => ?_, fun c hcb => hΓ.bits c (hc c hcb)⟩, fun hb => ?_⟩
  · exact hΓ.ty d (hdefs.mem_iff.mpr (List.mem_append_left _ hd))
  · have hall := Once.append hb hnew
    rw [← List.map_append] at hall
    exact hall.perm (hdefs.symm.map _)

theorem emitted_of_insts (cs : List Constant) {b b' : Builder} {is : List Inst}
    (hc : b'.constants = b.constants ++ cs) (hg : b'.globalVars = b.globalVars)
    (hi : b'.insts.Perm (b.insts ++ is)) (ha : Adds b.nextId b'.nextId cs is) :
    b.Emitted b' is := by
  have hdefs : b'.defs.Perm (b.defs ++ defsOf cs is) := by
    have hres : (b'.insts.filterMap Inst.result).Perm
        (b.insts.filterMap Inst.result ++ is.filterMap Inst.result) := by
      rw [← List.filterMap_append]
      exact hi.filterMap _
    unfold defs defsOf
    rw [hc, hg, List.map_append]
    refine (hres.append_left _).trans ?_
    simp only [List.append_assoc]
    apply List.Perm.append_left
    have hmove : ∀ l₁ l₂ l₃ l₄ : List (Id × Ty),
        (l₁ ++ (l₂ ++ (l₃ ++ l₄))).Perm (l₂ ++ (l₃ ++ (l₁ ++ l₄))) := by
      intro l₁ l₂ l₃ l₄
      have hswap : (l₁ ++ (l₂ ++ l₃)).Perm (l₂ ++ l₃ ++ l₁) := List.perm_append_comm
      simpa only [List.append_assoc] using hswap.append_right l₄
    exact hmove _ _ _ _
  refine emitted_of_defs _ hdefs (fun c h => ?_) ha hi
  rw [hc]
  exact List.mem_append_left _ h

theorem Emitted.wellTyped_iff {b b' : Builder} {is : List Inst} (h : b.Emitted b' is)
    (hb : b.insts = []) : b'.WellTyped ↔ ∀ i ∈ is, i.WellTyped b'.env := by
  have hperm := h.insts
  rw [hb, List.nil_append] at hperm
  unfold WellTyped
  constructor
  · exact fun hall i hi => hall i (hperm.mem_iff.mpr hi)
  · exact fun hall i hi => hall i (hperm.mem_iff.mp hi)

end Builder

end WinCompat.Lib.Spirv
