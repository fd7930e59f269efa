import WinCompat.Hlsl.Locations

/-!
# Linking two stages

A vertex shader that returns a struct and a pixel shader that takes one are compiled apart, and what
links them is the locations that the members of the two types are decorated with. A location is the
position of a member among those that are neither `SV_Position` nor `SV_Target` (`position`); the
semantic itself is not looked at. So the stages link by position, and they link by semantic exactly
when the semantics of the program's own stand at the same positions in both structs
(`links_by_position`). Both structs are the only ones of their type in their shader's signature: the
members of a type that stands for two are given the locations of both.
-/

namespace WinCompat.Hlsl

open Lib Lib.Comp

/-! ## Semantics and positions -/

abbrev IsSystemValue (semantic : String) : Prop := "SV_".toList <+: semantic.toList

/-- A member with a semantic that is not a system value. -/
def HasUserSemantic (m : StructMember) : Prop :=
  ∃ semantic, m.semantic = some semantic ∧ ¬ IsSystemValue semantic

/-- The members that `decorate_struct_io` counts. -/
def counted (ms : List StructMember) : List StructMember :=
  ms.filter fun m => ¬ IsBuiltIn m.semantic ∧ ¬ IsTarget m.semantic

/-- How many members before the member `i` are counted. -/
def position (ms : List StructMember) (i : Nat) : Nat := (counted (ms.take i)).length

/-- The semantics of the program's own stand at the same positions in both structs. -/
def SamePositions (O I : List StructMember) : Prop :=
  ∀ i m j m', O[i]? = some m → I[j]? = some m' → HasUserSemantic m → HasUserSemantic m' →
    (position O i = position I j ↔ m.semantic = m'.semantic)

/-! ## Two compiled stages -/

/-- The port is the struct `info`, and no other of the signature is a struct of its type. -/
def Sole (structs : List (String × StructInfo)) (ps : List Port) (p : Port) (info : StructInfo) :
    Prop :=
  p.info structs = some info ∧ ∃ before after, ps = before ++ p :: after ∧
    ∀ q ∈ before ++ after, ∀ info', q.info structs = some info' → info'.typeId ≠ info.typeId

/-- The shader returns the struct `O`, and takes none of its type. -/
def ReturnsStruct (unit : TranslationUnit) (O : StructInfo) : Prop :=
  ∃ main, findMain unit.decls = some main ∧
    Sole (structsOf unit.decls) (ports main) (outputPort main) O

/-- The shader takes the struct `I`, and no other of its type. -/
def TakesStruct (unit : TranslationUnit) (I : StructInfo) : Prop :=
  ∃ main, findMain unit.decls = some main ∧ ∃ p ∈ inputPorts main,
    Sole (structsOf unit.decls) (ports main) p I

/-- In the module the member `i` of the type `ty` is given the location `n`. -/
def LocatedAt (b : Spirv.Builder) (ty : Spirv.Ty) (i n : Nat) : Prop :=
  (.member ty i, .location n) ∈ b.decorations

/-- Each member with a semantic of the program's own has one location, and two of them, one of each
    stage, have the same one exactly when they are linked. -/
def LinksBy (linked : Nat × StructMember → Nat × StructMember → Prop) (bv bp : Spirv.Builder)
    (O I : StructInfo) : Prop :=
  ∀ i m j m', O.members[i]? = some m → I.members[j]? = some m' →
    HasUserSemantic m → HasUserSemantic m' →
      ∃ n n', (∀ k, LocatedAt bv O.typeId i k ↔ k = n) ∧
        (∀ k, LocatedAt bp I.typeId j k ↔ k = n') ∧ (n = n' ↔ linked (i, m) (j, m'))

/-- What HLSL asks for. -/
def LinksBySemantic : Spirv.Builder → Spirv.Builder → StructInfo → StructInfo → Prop :=
  LinksBy fun m m' => m.2.semantic = m'.2.semantic

/-- What the numbering of `decorate_struct_io` gives. -/
def LinksByPosition (bv bp : Spirv.Builder) (O I : StructInfo) : Prop :=
  LinksBy (fun m m' => position O.members m.1 = position I.members m'.1) bv bp O I

/-! ## The location of a member -/

theorem HasUserSemantic.isCounted {m : StructMember} (h : HasUserSemantic m) :
    ¬ IsBuiltIn m.semantic ∧ ¬ IsTarget m.semantic := by
  obtain ⟨semantic, hsemantic, hsystem⟩ := h
  rw [hsemantic]
  constructor
  · intro hb
    rw [Option.some.inj hb] at hsystem
    exact hsystem (by decide)
  · intro ht
    rw [Option.some.inj ht] at hsystem
    exact hsystem (by decide)

theorem getElem?_position {ms : List StructMember} {i : Nat} {m : StructMember}
    (hi : ms[i]? = some m) (hb : ¬ IsBuiltIn m.semantic) (ht : ¬ IsTarget m.semantic) :
    (counted ms)[position ms i]? = some m := by
  obtain ⟨hlt, hget⟩ := List.getElem?_eq_some_iff.mp hi
  have hsplit : counted ms = counted (ms.take i) ++ m :: counted (ms.drop (i + 1)) := by
    conv_lhs => rw [← List.take_append_drop i ms, List.drop_eq_getElem_cons hlt, hget]
    simp [counted, hb, ht]
  rw [hsplit, position, List.getElem?_append_right (Nat.le_refl _), Nat.sub_self]
  rfl

theorem SamePositions.of_prefix {O I : List StructMember} (h : counted O <+: counted I)
    (hnodup : ((counted I).map fun m => m.semantic).Nodup) : SamePositions O I := by
  intro i m j m' hi hj hm hm'
  obtain ⟨rest, hrest⟩ := h
  have hO := getElem?_position hi hm.isCounted.1 hm.isCounted.2
  have hI := getElem?_position hj hm'.isCounted.1 hm'.isCounted.2
  have hO' : (counted I)[position O i]? = some m := by
    rw [← hrest, List.getElem?_append_left (List.getElem?_eq_some_iff.mp hO).1]
    exact hO
  constructor
  · intro heq
    rw [heq, hI] at hO'
    rw [Option.some.inj hO']
  · intro heq
    have hlt : position O i < ((counted I).map fun m => m.semantic).length := by
      rw [List.length_map]
      exact (List.getElem?_eq_some_iff.mp hO').1
    refine (List.getElem?_inj hlt hnodup).mp ?_
    rw [List.getElem?_map, List.getElem?_map, hO', hI, Option.map_some, Option.map_some, heq]

section

variable {ty ty' : Spirv.Ty} {b : Spirv.BuiltIn} {ms : List StructMember}

theorem position_succ_of_counted {m : StructMember} {k : Nat} (hb : ¬ IsBuiltIn m.semantic)
    (ht : ¬ IsTarget m.semantic) : position (m :: ms) (k + 1) = position ms k + 1 := by
  simp [position, counted, hb, ht]

theorem position_succ_of_builtIn {m : StructMember} {k : Nat} (hb : IsBuiltIn m.semantic) :
    position (m :: ms) (k + 1) = position ms k := by
  simp [position, counted, hb]

theorem position_succ_of_target {m : StructMember} {k : Nat} (ht : IsTarget m.semantic) :
    position (m :: ms) (k + 1) = position ms k := by
  simp [position, counted, ht]

theorem le_of_mem_memberDecorations {i loc j n : Nat}
    (h : (Spirv.Target.member ty' j, Spirv.Decoration.location n) ∈
      memberDecorations ty b ms i loc) : i ≤ j := by
  induction ms generalizing i loc with
  | nil => cases h
  | cons m rest ih =>
    unfold memberDecorations at h
    split at h
    · rcases List.mem_cons.mp h with heq | h
      · cases heq
      · exact Nat.le_of_succ_le (ih h)
    · split at h
      · rcases List.mem_cons.mp h with heq | h
        · cases heq
          exact Nat.le_refl _
        · exact Nat.le_of_succ_le (ih h)
      · rcases List.mem_cons.mp h with heq | h
        · cases heq
          exact Nat.le_refl _
        · exact Nat.le_of_succ_le (ih h)

theorem mem_memberDecorations {k : Nat} {m : StructMember} (hk : ms[k]? = some m)
    (hm : ¬ IsBuiltIn m.semantic ∧ ¬ IsTarget m.semantic) (i loc n : Nat) :
    (Spirv.Target.member ty' (i + k), Spirv.Decoration.location n) ∈
        memberDecorations ty b ms i loc ↔ ty' = ty ∧ n = loc + position ms k := by
  induction ms generalizing k i loc with
  | nil => cases hk
  | cons m' rest ih =>
    cases k with
    | zero =>
      obtain rfl : m' = m := Option.some.inj hk
      have hrest : ∀ loc', (Spirv.Target.member ty' i, Spirv.Decoration.location n) ∉
          memberDecorations ty b rest (i + 1) loc' := fun loc' h =>
        Nat.not_succ_le_self i (le_of_mem_memberDecorations h)
      rw [memberDecorations, if_neg hm.1, if_neg hm.2]
      simp [hrest, position, counted]
    | succ k =>
      have hshift : i + (k + 1) = i + 1 + k := by omega
      have hne : i + 1 + k ≠ i := by omega
      by_cases hb : IsBuiltIn m'.semantic
      · rw [memberDecorations, if_pos hb, position_succ_of_builtIn hb, hshift]
        simp [ih hk]
      · by_cases ht : IsTarget m'.semantic
        · rw [memberDecorations, if_neg hb, if_pos ht, position_succ_of_target ht, hshift]
          simp [ih hk, hne]
        · rw [memberDecorations, if_neg hb, if_neg ht, position_succ_of_counted hb ht, hshift]
          simp only [List.mem_cons, Prod.mk.injEq, Spirv.Target.member.injEq, hne, and_false,
            false_and, false_or, ih hk]
          rw [show loc + 1 + position rest k = loc + (position rest k + 1) by omega]

end

/-! ## What a stage emits -/

theorem locates_iff {structs : List (String × StructInfo)} {p : Port} {info : StructInfo}
    {m : StructMember} {i n : Nat} (hinfo : p.info structs = some info)
    (hi : info.members[i]? = some m) (hm : HasUserSemantic m) :
    p.Locates structs info.typeId i n ↔ n = position info.members i := by
  have hmem := @mem_memberDecorations info.typeId info.typeId .position info.members i m hi
    hm.isCounted 0 0 n
  simp only [Nat.zero_add, true_and] at hmem
  simp [Port.Locates, hinfo, hmem]

theorem locatedAt_iff {unit : TranslationUnit} {stage : ShaderStage} {b : Spirv.Builder}
    {main : FunctionDecl} {p : Port} {info : StructInfo} {m : StructMember} {i n : Nat}
    (hcodegen : codegen unit stage = .ok b) (hmain : findMain unit.decls = some main)
    (hsole : Sole (structsOf unit.decls) (ports main) p info) (hi : info.members[i]? = some m)
    (hm : HasUserSemantic m) :
    LocatedAt b info.typeId i n ↔ n = position info.members i := by
  obtain ⟨hinfo, before, after, hports, hothers⟩ := hsole
  obtain ⟨main', ins, o, hmain', hinterface⟩ := interface_of_codegen hcodegen
  cases hmain.symm.trans hmain'
  obtain ⟨s₀, s, hnone, hemits, hsame⟩ := hinterface.emitted
  have hlocates : (∃ e ∈ ins ++ [o], e.1.Locates (structsOf unit.decls) info.typeId i n) ↔
      ∃ q ∈ ports main, q.Locates (structsOf unit.decls) info.typeId i n := by
    rw [hinterface.ports_eq]
    simp only [List.mem_map, exists_exists_and_eq_and]
  rw [LocatedAt, hsame, hemits.members, hlocates, or_iff_right (hnone _ n), hports]
  constructor
  · rintro ⟨q, hq, hlocates⟩
    have hother : q ∉ before ++ after := by
      intro hq
      obtain ⟨info', hinfo', hmem⟩ := hlocates
      obtain ⟨j, hj⟩ := target_of_mem_memberDecorations hmem
      exact hothers q hq info' hinfo' (Spirv.Target.member.inj hj).1.symm
    have hp : q = p := by
      simp only [List.mem_append, List.mem_cons, not_or] at hq hother
      exact (hq.resolve_left hother.1).resolve_right hother.2
    rw [hp] at hlocates
    exact (locates_iff hinfo hi hm).mp hlocates
  · intro hn
    exact ⟨p, List.mem_append_right _ List.mem_cons_self, (locates_iff hinfo hi hm).mpr hn⟩

/-! ## Linking -/

section

variable {vs ps : TranslationUnit} {bv bp : Spirv.Builder} {O I : StructInfo}

theorem linksBy_iff (hvs : codegen vs .vertex = .ok bv) (hps : codegen ps .pixel = .ok bp)
    (hO : ReturnsStruct vs O) (hI : TakesStruct ps I)
    (linked : Nat × StructMember → Nat × StructMember → Prop) : LinksBy linked bv bp O I ↔
      ∀ i m j m', O.members[i]? = some m → I.members[j]? = some m' →
        HasUserSemantic m → HasUserSemantic m' →
          (position O.members i = position I.members j ↔ linked (i, m) (j, m')) := by
  obtain ⟨main, hmain, hout⟩ := hO
  obtain ⟨main', hmain', p, -, hin⟩ := hI
  constructor
  · intro h i m j m' hi hj hm hm'
    obtain ⟨n, n', hn, hn', hiff⟩ := h i m j m' hi hj hm hm'
    have hposition := (hn _).mp ((locatedAt_iff hvs hmain hout hi hm).mpr rfl)
    have hposition' := (hn' _).mp ((locatedAt_iff hps hmain' hin hj hm').mpr rfl)
    rw [hposition, hposition']
    exact hiff
  · intro h i m j m' hi hj hm hm'
    exact ⟨position O.members i, position I.members j,
      fun _ => locatedAt_iff hvs hmain hout hi hm,
      fun _ => locatedAt_iff hps hmain' hin hj hm', h i m j m' hi hj hm hm'⟩

/-- Two stages link by position, whatever the semantics are, and they link by semantic if and only
    if the semantics stand at the same positions. -/
theorem links_by_position (hvs : codegen vs .vertex = .ok bv) (hps : codegen ps .pixel = .ok bp)
    (hO : ReturnsStruct vs O) (hI : TakesStruct ps I) :
    LinksByPosition bv bp O I ∧
      (LinksBySemantic bv bp O I ↔ SamePositions O.members I.members) := by
  constructor
  · exact (linksBy_iff hvs hps hO hI _).mpr fun _ _ _ _ _ _ _ _ => Iff.rfl
  · exact linksBy_iff hvs hps hO hI _

end

/-- `float2 a : TEXCOORD0; float2 b : TEXCOORD1;` -/
def texCoords : List StructMember :=
  [⟨.vector .float 2, "a", some "TEXCOORD0"⟩, ⟨.vector .float 2, "b", some "TEXCOORD1"⟩]

/-- `float4 pos : SV_Position;` -/
def screenPosition : StructMember := ⟨.vector .float 4, "pos", some "SV_Position"⟩

/-- `struct VSOut { float2 a : TEXCOORD0; float2 b : TEXCOORD1; };
    VSOut main(float4 p : POSITION) { VSOut o; return o; }` -/
def texturedVertex : TranslationUnit where
  decls := [
    .struct ⟨"VSOut", texCoords⟩,
    .function {
      returnType := .struct "VSOut"
      name := "main"
      params := [⟨.vector .float 4, "p", some "POSITION"⟩]
      semantic := none
      body := some [.varDecl ⟨.struct "VSOut", "o", none, none⟩, .return_ (some (.ident "o"))] }]

/-- A struct `PSIn` and
    `float4 main(PSIn i) : SV_Target { return float4(i.a.x, i.a.y, i.b.x, i.b.y); }` -/
def texturedPixel (members : List StructMember) : TranslationUnit where
  decls := [
    .struct ⟨"PSIn", members⟩,
    .function {
      returnType := .vector .float 4
      name := "main"
      params := [⟨.struct "PSIn", "i", none⟩]
      semantic := some "SV_Target"
      body := some [
        .return_ (some (.construct (.vector .float 4)
          [.member (.member (.ident "i") "a") "x", .member (.member (.ident "i") "a") "y",
            .member (.member (.ident "i") "b") "x", .member (.member (.ident "i") "b") "y"]))] }]

/-- `VSOut` and `PSIn`, with the type that they are compiled to. -/
def texturedOut : StructInfo := ⟨.struct [.vector .float 2, .vector .float 2], texCoords⟩

def texturedIn (members : List StructMember) (ts : List Spirv.Ty) : StructInfo :=
  ⟨.struct ts, members⟩

theorem texturedVertex_returns : ReturnsStruct texturedVertex texturedOut := by
  refine ⟨_, rfl, rfl, [⟨.vector .float 4, some "POSITION"⟩], [], rfl, ?_⟩
  intro q hq info' hinfo'
  cases List.mem_singleton.mp hq
  cases hinfo'

theorem texturedPixel_takes {members : List StructMember} {ts : List Spirv.Ty}
    (hmembers : Scope.empty.memberTypes members = some ts) :
    TakesStruct (texturedPixel members) (texturedIn members ts) := by
  have hstructs : structsOf (texturedPixel members).decls = [("PSIn", texturedIn members ts)] := by
    have hempty : Scope.empty.structs = [] := rfl
    simp [structsOf, texturedPixel, Scope.afterDecls, Scope.afterDecl, hempty, hmembers,
      Scope.addStruct, texturedIn]
  refine ⟨_, rfl, ⟨.struct "PSIn", none⟩, List.mem_singleton_self _, ?_, [],
    [⟨.vector .float 4, some "SV_Target"⟩], rfl, ?_⟩
  · rw [hstructs]
    rfl
  · intro q hq info' hinfo'
    cases List.mem_singleton.mp hq
    cases hinfo'

theorem textured_ok : (∃ b, codegen texturedVertex .vertex = .ok b) ∧
    ∀ ms ∈ [screenPosition :: texCoords, texCoords.reverse],
      ∃ b, codegen (texturedPixel ms) .pixel = .ok b := by
  have hok : (codegen texturedVertex .vertex).okWith (fun _ => true) = true ∧
      ∀ ms ∈ [screenPosition :: texCoords, texCoords.reverse],
        (codegen (texturedPixel ms) .pixel).okWith (fun _ => true) = true := by decide +kernel
  exact ⟨(Outcome.exists_of_okWith hok.1).imp fun _ => And.left,
    fun ms hms => (Outcome.exists_of_okWith (hok.2 ms hms)).imp fun _ => And.left⟩

/-- The system value is not counted. -/
theorem links_by_position_textured : ∃ bv bp, codegen texturedVertex .vertex = .ok bv ∧
    codegen (texturedPixel (screenPosition :: texCoords)) .pixel = .ok bp ∧
    LinksBySemantic bv bp texturedOut (texturedIn (screenPosition :: texCoords)
      [.vector .float 4, .vector .float 2, .vector .float 2]) := by
  obtain ⟨bv, hvertex⟩ := textured_ok.1
  obtain ⟨bp, hpixel⟩ := textured_ok.2 (screenPosition :: texCoords) (.head _)
  refine ⟨bv, bp, hvertex, hpixel, (links_by_position hvertex hpixel texturedVertex_returns
    (texturedPixel_takes rfl)).2.mpr ?_⟩
  exact SamePositions.of_prefix (by decide) (by decide)

/-- With the members of the pixel shader the other way round, each is given the location of the
    other. -/
theorem textured_swapped : ∃ bv bp, codegen texturedVertex .vertex = .ok bv ∧
    codegen (texturedPixel texCoords.reverse) .pixel = .ok bp ∧
    ReturnsStruct texturedVertex texturedOut ∧
    TakesStruct (texturedPixel texCoords.reverse)
      (texturedIn texCoords.reverse [.vector .float 2, .vector .float 2]) ∧
    ¬ LinksBySemantic bv bp texturedOut (texturedIn texCoords.reverse [.vector .float 2, .vector .float 2]) := by
  obtain ⟨bv, hvertex⟩ := textured_ok.1
  obtain ⟨bp, hpixel⟩ := textured_ok.2 texCoords.reverse (.tail _ (.head _))
  have htakes : TakesStruct (texturedPixel texCoords.reverse)
      (texturedIn texCoords.reverse [.vector .float 2, .vector .float 2]) := texturedPixel_takes rfl
  refine ⟨bv, bp, hvertex, hpixel, texturedVertex_returns, htakes, fun hlinks => ?_⟩
  have hpositions := (linksBy_iff hvertex hpixel texturedVertex_returns htakes _).mp hlinks
  have hfirst := (hpositions 0 _ 0 _ rfl rfl ⟨"TEXCOORD0", rfl, by decide⟩
    ⟨"TEXCOORD1", rfl, by decide⟩).mp rfl
  exact absurd hfirst (by decide)

end WinCompat.Hlsl
