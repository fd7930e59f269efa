import WinCompat.Hlsl.Bindings
import WinCompat.Lib.Placement

/-!
# The layout of a constant buffer

`emit_cbuffer` places the members one after another, each at a multiple of its own alignment, as
std140 does. The packing rule of HLSL knows no alignment beyond 4: a member moves to the next
register when it would not fit in the one it starts in.
-/

namespace WinCompat.Hlsl

open Lib Lib.Comp Lib.Placement

/-! ## The rules -/

/-- `offset` to the next multiple of `align`. -/
def roundTo (align offset : Nat) : Nat := (offset + align - 1) / align * align

/-- The alignment and the size of `member_align_size`. -/
def alignSize : Ty → Nat × Nat
  | .scalar _ => (4, 4)
  | .vector _ 2 => (8, 8)
  | .vector _ 3 => (16, 12)
  | .vector _ 4 => (16, 16)
  | .matrix _ _ c => (16, 16 * c)
  | _ => (16, 16)

/-- Each member at a multiple of its alignment. -/
def std140 : Rule StructMember where
  place m e := roundTo (alignSize m.ty).1 e
  size m := (alignSize m.ty).2

def Ty.isMatrix : Ty → Bool
  | .matrix _ _ _ => true
  | _ => false

/-- The bytes HLSL gives a member. A matrix is stored by columns, each in a register of its own,
    and the last register ends with the last row. -/
def hlslSize : Ty → Nat
  | .scalar _ => 4
  | .vector _ n => 4 * n
  | .matrix _ r c => 16 * (c - 1) + 4 * r
  | _ => 0

/-- The scalars, vectors and matrices that HLSL has: its packing rule is about these. -/
def Ty.IsPacked : Ty → Prop
  | .scalar _ => True
  | .vector _ n => 2 ≤ n ∧ n ≤ 4
  | .matrix _ r c => (1 ≤ r ∧ r ≤ 4) ∧ 1 ≤ c ∧ c ≤ 4
  | _ => False

/-- A member that starts at the multiple of 4 `e` needs the next register: it is a matrix, or it
    would cross the boundary. -/
def Straddles (ty : Ty) (e : Nat) : Prop := ty.isMatrix = true ∨ 16 < e % 16 + hlslSize ty

instance (ty : Ty) (e : Nat) : Decidable (Straddles ty e) := by
  unfold Straddles
  infer_instance

/-- The HLSL packing rule. A member starts right where the one before it ends, in the middle of a
    register if there is room, so that it may share the last register of a matrix. -/
def hlslPacking : Rule StructMember where
  place m e :=
    if Straddles m.ty (roundTo 4 e) then roundTo 16 (roundTo 4 e) else roundTo 4 e
  size m := hlslSize m.ty

def IsShortVector : Ty → Prop
  | .vector _ n => n = 2 ∨ n = 3
  | _ => False

/-- What comes after a matrix of fewer than four rows and fits beside its last column. -/
def SharesRegister : Ty → Ty → Prop
  | .matrix _ r _, ty => ty.isMatrix = false ∧ 4 * r + hlslSize ty ≤ 16
  | _, _ => False

/-! ### Where they differ -/

theorem le_roundTo {align : Nat} (h : 0 < align) (e : Nat) : e ≤ roundTo align e := by
  have hdiv := Nat.div_add_mod (e + align - 1) align
  have hmod := Nat.mod_lt (e + align - 1) h
  rw [Nat.mul_comm] at hdiv
  unfold roundTo
  omega

theorem alignSize_pos (ty : Ty) : 0 < (alignSize ty).1 := by
  unfold alignSize
  split <;> simp

theorem std140_le (m : StructMember) (e : Nat) : e ≤ std140.place m e :=
  le_roundTo (alignSize_pos m.ty) e

/-- How far before the end of `std140` HLSL ends a member. -/
def endGap : Ty → Nat
  | .matrix _ r _ => 16 - 4 * r
  | _ => 0

theorem hlslSize_add_endGap {ty : Ty} (h : ty.IsPacked) :
    hlslSize ty + endGap ty = (alignSize ty).2 := by
  match ty, h with
  | .scalar _, _ | .vector _ 2, _ | .vector _ 3, _ | .vector _ 4, _ => rfl
  | .matrix _ r c, ⟨⟨_, hr⟩, hc, _⟩ =>
    simp only [hlslSize, endGap, alignSize]
    omega

/-- `e` is where `std140` may end a member of this type: after a matrix at a register. -/
def EndsAt : Ty → Nat → Prop
  | .matrix _ r _, e => e % 16 = 0 ∧ 16 ≤ e ∧ 1 ≤ r ∧ r ≤ 4
  | _, e => e % 4 = 0

variable {m : StructMember}

theorem std140_endsAt (h : m.ty.IsPacked) (e : Nat) :
    EndsAt m.ty (std140.place m e + std140.size m) := by
  simp only [std140]
  match m.ty, h with
  | .scalar _, _ | .vector _ 2, _ | .vector _ 3, _ | .vector _ 4, _ =>
    simp only [EndsAt, alignSize, roundTo]
    omega
  | .matrix _ r c, ⟨hr, hc, _⟩ =>
    simp only [EndsAt, alignSize, roundTo]
    omega

theorem place_eq_iff (hm : m.ty.IsPacked) {e : Nat} (he : e % 4 = 0) :
    std140.place m e = hlslPacking.place m e ↔ (IsShortVector m.ty → e % 16 ≠ 4) := by
  have hfour : roundTo 4 e = e := by
    unfold roundTo
    omega
  simp only [std140, hlslPacking, hfour, Straddles]
  match m.ty, hm with
  | .scalar k, _ =>
    have hfits : ¬ 16 < e % 16 + 4 := by omega
    simp [alignSize, hlslSize, Ty.isMatrix, IsShortVector, hfour, hfits]
  | .vector k 2, _ | .vector k 3, _ =>
    simp only [alignSize, hlslSize, Ty.isMatrix, IsShortVector, roundTo, Bool.false_eq_true,
      false_or, true_or, or_true, forall_true_left]
    split_ifs <;> omega
  | .vector k 4, _ =>
    simp only [alignSize, hlslSize, Ty.isMatrix, IsShortVector, roundTo, Bool.false_eq_true,
      false_or]
    split_ifs <;> omega
  | .matrix k r c, _ => simp [alignSize, Ty.isMatrix, IsShortVector]

theorem place_after_matrix_iff (hm : m.ty.IsPacked) {e r : Nat} (he : e % 16 = 0) (hle : 16 ≤ e)
    (hr : 1 ≤ r) (hr' : r ≤ 4) :
    std140.place m e = hlslPacking.place m (e - (16 - 4 * r)) ↔
      ¬ (m.ty.isMatrix = false ∧ 4 * r + hlslSize m.ty ≤ 16) := by
  have hfour : roundTo 4 (e - (16 - 4 * r)) = e - (16 - 4 * r) := by
    unfold roundTo
    omega
  simp only [std140, hlslPacking, hfour, Straddles]
  match m.ty, hm with
  | .scalar k, _ | .vector k 2, _ | .vector k 3, _ | .vector k 4, _ =>
    simp only [alignSize, hlslSize, Ty.isMatrix, roundTo, Bool.false_eq_true, false_or, true_and]
    split_ifs <;> omega
  | .matrix k _ _, _ =>
    simp only [alignSize, Ty.isMatrix, roundTo, true_or, if_true, Bool.true_eq_false, false_and,
      not_false_eq_true, iff_true]
    omega

theorem place_after_iff {prev : Ty} (hm : m.ty.IsPacked) {e : Nat} (he : EndsAt prev e) :
    std140.place m e = hlslPacking.place m (e - endGap prev) ↔
      (IsShortVector m.ty → e % 16 ≠ 4) ∧ ¬ SharesRegister prev m.ty := by
  match prev, he with
  | .matrix _ r _, ⟨hmod, hle, hr, hr'⟩ =>
    have hshort : e % 16 ≠ 4 := by omega
    refine (place_after_matrix_iff hm hmod hle hr hr').trans ?_
    simp [SharesRegister, hshort]
  | .scalar _, he | .vector _ _, he | .void, he | .struct _, he | .texture2D, he
  | .samplerState, he => simpa [SharesRegister, endGap] using place_eq_iff hm he

variable {ms : List StructMember}

theorem offsets_after_iff (hms : ∀ m ∈ ms, m.ty.IsPacked) :
    ∀ {prev : StructMember} {e : Nat}, EndsAt prev.ty e →
      (std140.offsets ms e = hlslPacking.offsets ms (e - endGap prev.ty) ↔
        (∀ p ∈ std140.ends ms e, IsShortVector p.1.ty → p.2 % 16 ≠ 4) ∧
          (prev :: ms).IsChain fun m m' => ¬ SharesRegister m.ty m'.ty) := by
  induction ms with
  | nil => simp [Rule.ends]
  | cons m rest ih =>
    intro prev e he
    obtain ⟨hm, hrest⟩ := List.forall_mem_cons.mp hms
    have hsize := hlslSize_add_endGap hm
    have hend : std140.place m e + hlslPacking.size m =
        std140.place m e + std140.size m - endGap m.ty := by
      simp only [hlslPacking, std140]
      omega
    rw [Rule.offsets_cons_eq_iff, hend, ih hrest (std140_endsAt hm e),
      place_after_iff hm he, Rule.ends, List.forall_mem_cons, List.isChain_cons_cons]
    exact and_and_and_comm

/-! ## What is decorated -/

/-- The offset of a member, with the member's index. -/
def offsetOf : Spirv.Target × Spirv.Decoration → Option (Nat × Nat)
  | (.member _ i, .offset n) => some (n, i)
  | _ => none

/-- The offsets that were decorated between two states. -/
def offsetsSince (s s' : Ctx) : List (Nat × Nat) :=
  (s'.builder.decorations.drop s.builder.decorations.length).filterMap offsetOf

section

variable {s s' s₁ : Ctx} {u : Unit}

/-- From `s` to `s'` the offsets `offs` are decorated. -/
def Places (s s' : Ctx) (offs : List (Nat × Nat)) : Prop :=
  ∃ ds, s'.builder.decorations = s.builder.decorations ++ ds ∧ ds.filterMap offsetOf = offs

namespace Places

variable {offs offs' : List (Nat × Nat)}

theorem none (h : s'.builder.decorations = s.builder.decorations) : Places s s' [] :=
  ⟨[], by rw [h, List.append_nil], rfl⟩

theorem trans (h : Places s s₁ offs) (h' : Places s₁ s' offs') : Places s s' (offs ++ offs') := by
  obtain ⟨ds, hds, rfl⟩ := h
  obtain ⟨es, hes, rfl⟩ := h'
  exact ⟨ds ++ es, by rw [hes, hds, List.append_assoc], List.filterMap_append⟩

theorem since (h : Places s s' offs) : offsetsSince s s' = offs := by
  obtain ⟨ds, hds, rfl⟩ := h
  rw [offsetsSince, hds, List.drop_left]

end Places

theorem decorate_places {t : Spirv.Target} {d : Spirv.Decoration}
    (h : decorate t d s = .ok (u, s')) : Places s s' (offsetOf (t, d)).toList := by
  cases h
  refine ⟨[(t, d)], rfl, ?_⟩
  cases hd : offsetOf (t, d) <;> simp [hd]

theorem constOp_places {ty : Spirv.Ty} {bits : BitVec 32} {c : Spirv.Id}
    (h : constOp ty bits s = .ok (c, s')) : Places s s' [] := by
  cases h
  exact .none rfl

theorem registerMembers_places {v : Spirv.Id} {i : Nat} (h : registerMembers v ms i s = .ok (u, s')) :
    Places s s' [] := by
  induction ms generalizing i s with
  | nil =>
    cases h
    exact .none rfl
  | cons m rest ih =>
    obtain ⟨st, s1, h1, h⟩ := bind_eq_ok h
    obtain ⟨-, rfl⟩ := typeId_ok h1
    obtain ⟨c, s2, h2, h⟩ := bind_eq_ok h
    obtain ⟨_, s3, h3, h⟩ := bind_eq_ok h
    obtain ⟨_, s4, h4, h⟩ := bind_eq_ok h
    have hadded : Places s2 s4 [] := by
      cases h3
      cases h4
      exact .none rfl
    exact (constOp_places h2).trans (hadded.trans (ih h))

theorem decorateBinding_places {v : Spirv.Id} {register : Option String}
    (h : decorateBinding v register s = .ok (u, s')) : Places s s' [] := by
  obtain ⟨_, s1, h1, h⟩ := bind_eq_ok h
  exact (decorate_places h1).trans (decorate_places h)

theorem memberAlignSize_eq {ty : Ty} {r : Nat × Nat} (h : memberAlignSize ty s = .ok (r, s')) :
    r = alignSize ty := by
  unfold memberAlignSize at h
  split at h
  · cases h; rfl
  · cases h; rfl
  · cases h; rfl
  · cases h; rfl
  · obtain ⟨size, s1, h1, h⟩ := bind_eq_ok h
    obtain ⟨-, rfl⟩ := checkedU32_ok h1
    cases h
    rfl
  · next hs h2 h3 h4 hm =>
    cases h
    unfold alignSize
    split <;> simp_all

theorem alignUp_eq {offset align r : Nat} (hpos : 0 < align)
    (h : alignUp offset align s = .ok (r, s')) : r = roundTo align offset := by
  unfold alignUp at h
  rw [if_neg (Nat.ne_of_gt hpos)] at h
  exact (checkedU32_ok h).2

theorem checkedU32_lt {n m : Nat} (h : checkedU32 n s = .ok (m, s')) : n < 2 ^ 32 := by
  unfold checkedU32 at h
  split at h
  · assumption
  · cases h

theorem decorateOffsets_places {ty : Spirv.Ty} :
    ∀ {i offset : Nat} {s : Ctx}, decorateOffsets ty ms i offset s = .ok (u, s') →
      Places s s' ((std140.offsets ms offset).zipIdx i) ∧
        ∀ r ∈ std140.ranges ms offset, r.2 < 2 ^ 32 := by
  induction ms with
  | nil =>
    intro i offset s h
    cases h
    exact ⟨.none rfl, by simp⟩
  | cons m rest ih =>
    intro i offset s h
    obtain ⟨r, s1, h1, h⟩ := bind_eq_ok h
    obtain rfl := memberAlignSize_eq h1
    obtain rfl := memberAlignSize_ok h1
    obtain ⟨start, s2, h2, h⟩ := bind_eq_ok h
    obtain rfl := alignUp_eq (alignSize_pos m.ty) h2
    obtain rfl := alignUp_ok h2
    obtain ⟨_, s3, h3, h⟩ := bind_eq_ok h
    obtain ⟨next, s4, h4, h⟩ := bind_eq_ok h
    have hlt := checkedU32_lt h4
    obtain ⟨rfl, rfl⟩ := checkedU32_ok h4
    obtain ⟨hplaces, hfits⟩ := ih h
    refine ⟨(decorate_places h3).trans hplaces, ?_⟩
    rw [Rule.ranges_cons, List.forall_mem_cons]
    exact ⟨hlt, hfits⟩

theorem emitCBuffer_places {c : CBufferDecl} (h : emitCBuffer c s = .ok (u, s')) :
    Places s s' (std140.offsets c.members 0).zipIdx ∧
      ∀ r ∈ std140.ranges c.members 0, r.2 < 2 ^ 32 := by
  obtain ⟨ts, s1, h1, h⟩ := bind_eq_ok h
  obtain ⟨rfl, -⟩ := typeIds_ok h1
  obtain ⟨_, s2, h2, h⟩ := bind_eq_ok h
  obtain ⟨_, s3, h3, h⟩ := bind_eq_ok h
  obtain ⟨_, s4, h4, h⟩ := bind_eq_ok h
  obtain ⟨v, s5, h5, h⟩ := bind_eq_ok h
  obtain ⟨_, s6, h6, h⟩ := bind_eq_ok h
  obtain ⟨_, s7, h7, h⟩ := bind_eq_ok h
  obtain ⟨hplaces, hfits⟩ := decorateOffsets_places h3
  have hvar : Places s3 s5 [] := by
    cases h4
    cases h5
    exact .none rfl
  have hglobal : Places s6 s7 [] := by
    cases h7
    exact .none rfl
  have hafter := hvar.trans ((decorateBinding_places h6).trans
    (hglobal.trans (registerMembers_places h)))
  have hblock : Places s s2 [] := decorate_places h2
  refine ⟨?_, hfits⟩
  simpa using hblock.trans (hplaces.trans hafter)

end

/-! ## The layout -/

/-- What is decorated, as a layout of the members: the offsets are those of `std140`, their ranges
    do not overlap, and for members that HLSL packs it is said when HLSL has the same offsets. -/
structure Std140Layout (ms : List StructMember) (offs : List (Nat × Nat)) : Prop where
  offsets : offs = (std140.offsets ms 0).zipIdx
  ordered : (std140.ranges ms 0).Pairwise fun r r' => r.2 ≤ r'.1
  fits : ∀ r ∈ std140.ranges ms 0, r.2 < 2 ^ 32
  /-- No short vector comes right after the first 4 bytes of a register, and nothing after a matrix
      fits beside its last column. -/
  hlsl : (∀ m ∈ ms, m.ty.IsPacked) →
    (offs = (hlslPacking.offsets ms 0).zipIdx ↔
      (∀ p ∈ std140.ends ms 0, IsShortVector p.1.ty → p.2 % 16 ≠ 4) ∧
        ms.IsChain fun m m' => ¬ SharesRegister m.ty m'.ty)

theorem zipIdx_inj {l l' : List Nat} : l.zipIdx = l'.zipIdx ↔ l = l' := by
  refine ⟨fun h => ?_, fun h => by rw [h]⟩
  simpa using congrArg (List.map Prod.fst) h

theorem std140_eq_hlslPacking_iff (hms : ∀ m ∈ ms, m.ty.IsPacked) :
    std140.offsets ms 0 = hlslPacking.offsets ms 0 ↔
      (∀ p ∈ std140.ends ms 0, IsShortVector p.1.ty → p.2 % 16 ≠ 4) ∧
        ms.IsChain fun m m' => ¬ SharesRegister m.ty m'.ty := by
  -- the buffer starts as it does after a scalar, which leaves no gap
  have hstart : EndsAt (Ty.scalar .float) 0 := rfl
  have hfirst := @offsets_after_iff ms hms ⟨.scalar .float, "", none⟩ 0 hstart
  refine hfirst.trans (and_congr_right fun _ => ?_)
  cases ms with
  | nil => simp
  | cons m rest =>
    rw [List.isChain_cons_cons]
    exact and_iff_right fun hshares => hshares

/-- Every accepted cbuffer has the layout of `std140`. The rule of HLSL gives the same offsets until
    a member fits in a register that `std140` has left. -/
theorem cbuffer_layout {c : CBufferDecl} {s s' : Ctx} (h : emitCBuffer c s = .ok ((), s')) :
    Std140Layout c.members (offsetsSince s s') := by
  obtain ⟨hplaces, hfits⟩ := emitCBuffer_places h
  refine ⟨hplaces.since, Rule.ranges_ordered std140_le c.members 0, hfits, ?_⟩
  intro hms
  rw [hplaces.since, zipIdx_inj, std140_eq_hlslPacking_iff hms]

/-- `cbuffer Constants : register(b0) { float4x4 world; float3 light; float gain; };` -/
def lit : CBufferDecl where
  name := "Constants"
  register := some "b0"
  members := [⟨.matrix .float 4 4, "world", none⟩, ⟨.vector .float 3, "light", none⟩,
    ⟨.scalar .float, "gain", none⟩]

theorem cbuffer_layout_lit : ∃ s', emitCBuffer lit (Ctx.new .pixel) = .ok ((), s') ∧
    Std140Layout lit.members (offsetsSince (Ctx.new .pixel) s') :=
  ⟨_, rfl, cbuffer_layout rfl⟩

/-- `cbuffer Constants : register(b0) { float a; float2 b; };` -/
def scalarThenVector : CBufferDecl where
  name := "Constants"
  register := some "b0"
  members := [⟨.scalar .float, "a", none⟩, ⟨.vector .float 2, "b", none⟩]

/-- The cbuffer with `float4 main() : SV_Target { return float4(b.x, b.y, a, a); }`. -/
def scalarThenVectorUnit : TranslationUnit where
  decls := [.cbuffer scalarThenVector, .function {
    returnType := .vector .float 4
    name := "main"
    params := []
    semantic := some "SV_Target"
    body := some [.return_ (some (.construct (.vector .float 4)
      [.member (.ident "b") "x", .member (.ident "b") "y", .ident "a", .ident "a"]))] }]

/-- `b` is at 8, where HLSL has it at 4. -/
theorem scalarThenVector_not_hlslPacking : (∃ b, codegen scalarThenVectorUnit .pixel = .ok b) ∧
    ∃ s', emitCBuffer scalarThenVector (Ctx.new .pixel) = .ok ((), s') ∧
      offsetsSince (Ctx.new .pixel) s' = [(0, 0), (8, 1)] ∧
      (hlslPacking.offsets scalarThenVector.members 0).zipIdx = [(0, 0), (4, 1)] := by
  have hok : (codegen scalarThenVectorUnit .pixel).okWith (fun _ => true) = true := by
    decide +kernel
  obtain ⟨b, hb, -⟩ := Outcome.exists_of_okWith hok
  exact ⟨⟨b, hb⟩, _, rfl, rfl, by decide⟩

end WinCompat.Hlsl
