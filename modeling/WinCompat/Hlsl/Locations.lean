import WinCompat.Hlsl.Bindings

/-!
# The locations of a shader's interface

`emit_inputs` and `emit_output` number the interface: `decorate_io_var` gives a scalar or a vector
the location 0, and `decorate_struct_io` counts a struct's members from 0, except that `SV_Target`
is 0 and `SV_Position` is a builtin. Nothing is carried from one parameter to the next. A struct's
locations decorate its type, of which SPIR-V has one for all structs with the same members, so that
each of these has the locations of all.

Which locations come out is a function of the signature, and they are distinct exactly when no two
parameters have any, no parameter shares them with the output, and no struct of the signature mixes
`SV_Target` with another located member (`locations_distinct_iff`).
-/

namespace WinCompat.Hlsl

open Lib Lib.Comp

/-! ## Locations assigned -/

def locationOf : Spirv.Decoration → Option Nat
  | .location n => some n
  | _ => none

/-- The target is the variable, or a member of the struct that it points to. -/
def IsOn (v : Spirv.Variable) : Spirv.Target → Prop
  | .id w => w = v.id
  | .type _ => False
  | .member ty _ => v.ty = .pointer v.cls ty

open Classical in
/-- The locations on a variable and on the members of what it points to, in the order in which they
    were assigned. -/
noncomputable def locationsOn (v : Spirv.Variable)
    (ds : List (Spirv.Target × Spirv.Decoration)) : List Nat :=
  ds.filterMap fun d => if IsOn v d.1 then locationOf d.2 else none

/-- The locations in a storage class of a module, variable by variable. -/
noncomputable def locationsIn (b : Spirv.Builder) (cls : Spirv.StorageClass) : List Nat :=
  (b.globalVars.filter fun v => v.cls = cls).flatMap fun v => locationsOn v b.decorations

/-- The locations in each of the two storage classes of the module's interface are distinct. -/
def DistinctLocations (b : Spirv.Builder) : Prop :=
  (locationsIn b .input).Nodup ∧ (locationsIn b .output).Nodup

/-! ## Locations of a signature -/

/-- The structs by name: the first declaration of a struct, unless a cbuffer of that name comes
    later. -/
def structsOf (ds : List Decl) : List (String × StructInfo) :=
  (Scope.empty.afterDecls ds).elim [] Scope.structs

abbrev IsBuiltIn (semantic : Option String) : Prop := semantic = some "SV_Position"

abbrev IsTarget (semantic : Option String) : Prop := semantic = some "SV_Target"

/-- The members that have a location. -/
def located (ms : List StructMember) : List StructMember :=
  ms.filter fun m => ¬ IsBuiltIn m.semantic

/-- The locations of a struct's members, the next one being `loc`. -/
def memberLocations : List StructMember → Nat → List Nat
  | [], _ => []
  | m :: rest, loc =>
      if IsBuiltIn m.semantic then memberLocations rest loc
      else if IsTarget m.semantic then 0 :: memberLocations rest loc
      else loc :: memberLocations rest (loc + 1)

/-- A parameter of `main`, or what it returns. -/
structure Port where
  ty : Ty
  semantic : Option String

def inputPorts (main : FunctionDecl) : List Port := main.params.map fun p => ⟨p.ty, p.semantic⟩

def outputPort (main : FunctionDecl) : Port := ⟨main.returnType, main.semantic⟩

def ports (main : FunctionDecl) : List Port := inputPorts main ++ [outputPort main]

namespace Port

variable (structs : List (String × StructInfo))

/-- Its struct, if it is one. -/
def info (p : Port) : Option StructInfo :=
  match p.ty with
  | .struct name => structs.lookup name
  | _ => none

/-- The locations that are assigned for it. -/
def locations (p : Port) : List Nat :=
  match p.info structs with
  | some info => memberLocations info.members 0
  | none => if IsBuiltIn p.semantic then [] else [0]

def IsLocated (p : Port) : Prop :=
  match p.info structs with
  | some info => located info.members ≠ []
  | none => ¬ IsBuiltIn p.semantic

instance (p : Port) : Decidable (p.IsLocated structs) := by
  unfold IsLocated
  split <;> infer_instance

/-- Both are structs, of one type. -/
def SharesType (p q : Port) : Prop :=
  ∃ i j, p.info structs = some i ∧ q.info structs = some j ∧ i.typeId = j.typeId

end Port

/-! ## When they are distinct -/

/-- No member is an `SV_Target`, or it is the only one with a location. -/
def MembersDistinct (ms : List StructMember) : Prop :=
  (∀ m ∈ ms, ¬ IsTarget m.semantic) ∨ (located ms).length ≤ 1

/-- The port has a location, its own or that of a struct with the same type. -/
def ShowsLocation (structs : List (String × StructInfo)) (main : FunctionDecl) (p : Port) : Prop :=
  p.IsLocated structs ∨ ∃ q ∈ ports main, q.SharesType structs p ∧ q.IsLocated structs

/-- At most one parameter shows locations, none has them on one type with the output, and each struct
    of the signature has distinct ones. -/
structure SignatureDistinct (structs : List (String × StructInfo)) (main : FunctionDecl) :
    Prop where
  params : (inputPorts main).Pairwise fun p q =>
    ¬ (ShowsLocation structs main p ∧ ShowsLocation structs main q)
  shared : ∀ p ∈ inputPorts main, p.SharesType structs (outputPort main) →
    ¬ (p.IsLocated structs ∧ (outputPort main).IsLocated structs)
  members : ∀ p ∈ ports main, ∀ info, p.info structs = some info → MembersDistinct info.members

/-! ### Members -/

theorem not_isBuiltIn_of_target {semantic : Option String} (h : IsTarget semantic) :
    ¬ IsBuiltIn semantic := by
  intro hb
  exact absurd (hb.symm.trans h) (by decide)

variable {m : StructMember} {rest : List StructMember}

theorem memberLocations_of_builtIn {loc : Nat} (h : IsBuiltIn m.semantic) :
    memberLocations (m :: rest) loc = memberLocations rest loc :=
  if_pos h

theorem memberLocations_of_target {loc : Nat} (h : IsTarget m.semantic) :
    memberLocations (m :: rest) loc = 0 :: memberLocations rest loc := by
  simp [memberLocations, h]

theorem memberLocations_of_other {loc : Nat} (hb : ¬ IsBuiltIn m.semantic)
    (ht : ¬ IsTarget m.semantic) :
    memberLocations (m :: rest) loc = loc :: memberLocations rest (loc + 1) := by
  simp [memberLocations, hb, ht]

theorem memberLocations_length (ms : List StructMember) :
    ∀ loc, (memberLocations ms loc).length = (located ms).length := by
  induction ms with
  | nil => simp [memberLocations, located]
  | cons m rest ih =>
    intro loc
    by_cases hb : IsBuiltIn m.semantic
    · rw [memberLocations_of_builtIn hb, ih]
      simp [located, hb]
    · by_cases ht : IsTarget m.semantic
      · rw [memberLocations_of_target ht, List.length_cons, ih]
        simp [located, hb]
      · rw [memberLocations_of_other hb ht, List.length_cons, ih]
        simp [located, hb]

variable {ms : List StructMember}

theorem memberLocations_of_noTarget (h : ∀ m ∈ ms, ¬ IsTarget m.semantic) :
    ∀ loc, memberLocations ms loc = List.range' loc (located ms).length := by
  induction ms with
  | nil => simp [memberLocations, located]
  | cons m rest ih =>
    intro loc
    have hrest := ih fun m' hm' => h m' (List.mem_cons_of_mem _ hm')
    by_cases hb : IsBuiltIn m.semantic
    · rw [memberLocations_of_builtIn hb, hrest]
      simp [located, hb]
    · rw [memberLocations_of_other hb (h m List.mem_cons_self), hrest]
      simp [located, hb, List.range'_succ]

theorem mem_memberLocations {loc : Nat} (h : located ms ≠ []) :
    loc ∈ memberLocations ms loc ∨ 0 ∈ memberLocations ms loc := by
  induction ms with
  | nil => exact absurd rfl h
  | cons m rest ih =>
    by_cases hb : IsBuiltIn m.semantic
    · rw [memberLocations_of_builtIn hb]
      apply ih
      simpa [located, hb] using h
    · by_cases ht : IsTarget m.semantic
      · rw [memberLocations_of_target ht]
        exact Or.inr List.mem_cons_self
      · rw [memberLocations_of_other hb ht]
        exact Or.inl List.mem_cons_self

theorem zero_mem_memberLocations (h : located ms ≠ []) :
    0 ∈ memberLocations ms 0 := (mem_memberLocations h).elim id id

theorem zero_mem_of_target (hm : m ∈ ms) (ht : IsTarget m.semantic) :
    ∀ loc, 0 ∈ memberLocations ms loc := by
  induction ms with
  | nil => cases hm
  | cons m' rest ih =>
    intro loc
    by_cases ht' : IsTarget m'.semantic
    · rw [memberLocations_of_target ht']
      exact List.mem_cons_self
    · have hrest : m ∈ rest := by
        rcases List.mem_cons.mp hm with rfl | hm
        · exact absurd ht ht'
        · exact hm
      by_cases hb : IsBuiltIn m'.semantic
      · rw [memberLocations_of_builtIn hb]
        exact ih hrest loc
      · rw [memberLocations_of_other hb ht']
        exact List.mem_cons_of_mem _ (ih hrest _)

theorem memberLocations_nodup_iff (ms : List StructMember) :
    (memberLocations ms 0).Nodup ↔ MembersDistinct ms := by
  constructor
  · intro hnodup
    by_contra hnot
    obtain ⟨hsome, hmany⟩ := not_or.mp hnot
    obtain ⟨m, hm, ht⟩ := not_forall₂.mp hsome |>.imp fun _ h => h.imp fun _ h => not_not.mp h
    induction ms with
    | nil => cases hm
    | cons m' rest ih =>
      by_cases hb : IsBuiltIn m'.semantic
      · rw [memberLocations_of_builtIn hb] at hnodup
        have hrest : m ∈ rest := by
          rcases List.mem_cons.mp hm with rfl | hm
          · exact absurd hb (not_isBuiltIn_of_target ht)
          · exact hm
        have hlocated : located (m' :: rest) = located rest := by simp [located, hb]
        rw [hlocated] at hmany
        exact ih hnodup (not_or.mpr ⟨fun h => h m hrest ht, hmany⟩)
          (fun h => h m hrest ht) hmany hrest
      · have hrest : located rest ≠ [] := by
          intro hnil
          apply hmany
          simp [located, hb] at hnil ⊢
          exact hnil
        by_cases ht' : IsTarget m'.semantic
        · rw [memberLocations_of_target ht'] at hnodup
          exact (List.nodup_cons.mp hnodup).1 (zero_mem_memberLocations hrest)
        · rw [memberLocations_of_other hb ht'] at hnodup
          have hm : m ∈ rest := by
            rcases List.mem_cons.mp hm with rfl | hm
            · exact absurd ht ht'
            · exact hm
          exact (List.nodup_cons.mp hnodup).1 (zero_mem_of_target hm ht _)
  · rintro (hnone | hone)
    · rw [memberLocations_of_noTarget hnone]
      exact List.nodup_range'
    · rw [← memberLocations_length ms 0] at hone
      match hlocs : memberLocations ms 0, hone with
      | [], _ => exact List.nodup_nil
      | [_], _ => exact List.nodup_singleton _

/-! ### Ports -/

section

variable {structs : List (String × StructInfo)} {main : FunctionDecl} {p q r : Port}

theorem Port.SharesType.symm (h : p.SharesType structs q) : q.SharesType structs p := by
  obtain ⟨i, j, hi, hj, heq⟩ := h
  exact ⟨j, i, hj, hi, heq.symm⟩

theorem Port.SharesType.trans (h : p.SharesType structs q) (h' : q.SharesType structs r) :
    p.SharesType structs r := by
  obtain ⟨i, j, hi, hj, heq⟩ := h
  obtain ⟨j', k, hj', hk, heq'⟩ := h'
  cases hj.symm.trans hj'
  exact ⟨i, k, hi, hk, heq.trans heq'⟩

theorem Port.locations_ne_nil_iff : p.locations structs ≠ [] ↔ p.IsLocated structs := by
  unfold Port.locations Port.IsLocated
  cases p.info structs with
  | some info => simp only [ne_eq, ← List.length_eq_zero_iff, memberLocations_length]
  | none => by_cases hb : IsBuiltIn p.semantic <;> simp [hb]

theorem Port.zero_mem_locations (h : p.locations structs ≠ []) : 0 ∈ p.locations structs := by
  rw [Port.locations_ne_nil_iff] at h
  unfold Port.IsLocated at h
  unfold Port.locations
  cases hinfo : p.info structs with
  | some info =>
    rw [hinfo] at h
    exact zero_mem_memberLocations h
  | none =>
    rw [hinfo] at h
    simp [h]

theorem Port.locations_nodup_iff : (p.locations structs).Nodup ↔
    ∀ info, p.info structs = some info → MembersDistinct info.members := by
  unfold Port.locations
  cases p.info structs with
  | some info => simp [memberLocations_nodup_iff]
  | none => by_cases hb : IsBuiltIn p.semantic <;> simp [hb]

end

theorem nodup_flatMap_iff {α : Type} {f : α → List Nat} (hf : ∀ x, f x ≠ [] → 0 ∈ f x)
    (l : List α) : (l.flatMap f).Nodup ↔
      (∀ x ∈ l, (f x).Nodup) ∧ l.Pairwise fun x y => f x = [] ∨ f y = [] := by
  rw [List.nodup_flatMap]
  refine and_congr_right' (List.Pairwise.iff fun x y => ?_)
  constructor
  · intro hdisjoint
    by_contra hnot
    obtain ⟨hx, hy⟩ := not_or.mp hnot
    exact hdisjoint (hf x hx) (hf y hy)
  · intro hnil
    change List.Disjoint (f x) (f y)
    rcases hnil with hx | hy
    · rw [hx]
      exact List.disjoint_nil_left _
    · rw [hy]
      exact List.disjoint_nil_right _

/-! ## What the emission assigns -/

theorem locationsOn_cons_of_isOn {v : Spirv.Variable} {t : Spirv.Target} (h : IsOn v t)
    (d : Spirv.Decoration) (ds : List (Spirv.Target × Spirv.Decoration)) :
    locationsOn v ((t, d) :: ds) = (locationOf d).toList ++ locationsOn v ds := by
  rw [locationsOn, List.filterMap_cons, if_pos h]
  cases locationOf d <;> rfl

theorem locationsOn_cons_of_not {v : Spirv.Variable} {t : Spirv.Target} (h : ¬ IsOn v t)
    (d : Spirv.Decoration) (ds : List (Spirv.Target × Spirv.Decoration)) :
    locationsOn v ((t, d) :: ds) = locationsOn v ds := by
  rw [locationsOn, List.filterMap_cons, if_neg h]
  rfl

theorem locationsOn_append (v : Spirv.Variable) (ds es : List (Spirv.Target × Spirv.Decoration)) :
    locationsOn v (ds ++ es) = locationsOn v ds ++ locationsOn v es := List.filterMap_append

section

variable {s s' s'' : Ctx} {structs : List (String × StructInfo)}

/-! ### A struct's decorations -/

/-- The decorations of a struct's members, from member `i` with the next location `loc` on. -/
def memberDecorations (ty : Spirv.Ty) (which : Spirv.BuiltIn) :
    List StructMember → Nat → Nat → List (Spirv.Target × Spirv.Decoration)
  | [], _, _ => []
  | m :: rest, i, loc =>
      if IsBuiltIn m.semantic then
        (.member ty i, .builtIn which) :: memberDecorations ty which rest (i + 1) loc
      else if IsTarget m.semantic then
        (.member ty i, .location 0) :: memberDecorations ty which rest (i + 1) loc
      else (.member ty i, .location loc) :: memberDecorations ty which rest (i + 1) (loc + 1)

def structDecorations (ty : Spirv.Ty) (which : Spirv.BuiltIn) (ms : List StructMember) :
    List (Spirv.Target × Spirv.Decoration) :=
  (.type ty, .block) :: memberDecorations ty which ms 0 0

variable {ty : Spirv.Ty} {which : Spirv.BuiltIn} {ms : List StructMember} {v : Spirv.Variable}

theorem target_of_mem_memberDecorations {i loc : Nat} {d : Spirv.Target × Spirv.Decoration}
    (h : d ∈ memberDecorations ty which ms i loc) : ∃ j, d.1 = .member ty j := by
  induction ms generalizing i loc with
  | nil => cases h
  | cons m rest ih =>
    unfold memberDecorations at h
    split_ifs at h
    all_goals
      rcases List.mem_cons.mp h with rfl | h
      · exact ⟨i, rfl⟩
      · exact ih h

theorem location_mem_iff (which which' : Spirv.BuiltIn) (t : Spirv.Target) (n : Nat) :
    ∀ i loc, (t, Spirv.Decoration.location n) ∈ memberDecorations ty which ms i loc ↔
      (t, Spirv.Decoration.location n) ∈ memberDecorations ty which' ms i loc := by
  induction ms with
  | nil => exact fun _ _ => Iff.rfl
  | cons m rest ih =>
    intro i loc
    unfold memberDecorations
    split_ifs
    all_goals simp [ih]

theorem location_mem_cons {t t' : Spirv.Target} {n : Nat}
    {ds : List (Spirv.Target × Spirv.Decoration)} :
    (t, Spirv.Decoration.location n) ∈ (t', Spirv.Decoration.block) :: ds ↔
      (t, Spirv.Decoration.location n) ∈ ds := by
  simp

theorem locationsOn_of_not_isOn {ds : List (Spirv.Target × Spirv.Decoration)}
    (h : ∀ d ∈ ds, ¬ IsOn v d.1) : locationsOn v ds = [] :=
  List.filterMap_eq_nil_iff.mpr fun d hd => if_neg (h d hd)

theorem locationsOn_memberDecorations (hv : v.ty = .pointer v.cls ty) :
    ∀ i loc, locationsOn v (memberDecorations ty which ms i loc) = memberLocations ms loc := by
  induction ms with
  | nil => exact fun _ _ => rfl
  | cons m rest ih =>
    intro i loc
    have hcons := @locationsOn_cons_of_isOn v (.member ty i) hv
    by_cases hb : IsBuiltIn m.semantic
    · rw [memberLocations_of_builtIn hb, memberDecorations, if_pos hb, hcons, ih]
      rfl
    · by_cases ht : IsTarget m.semantic
      · rw [memberLocations_of_target ht, memberDecorations, if_neg hb, if_pos ht, hcons, ih]
        rfl
      · rw [memberLocations_of_other hb ht, memberDecorations, if_neg hb, if_neg ht, hcons, ih]
        rfl

/-- From `s` to `s'` no struct and no variable is declared, and `ds` are the decorations added. -/
structure Adds (s s' : Ctx) (ds : List (Spirv.Target × Spirv.Decoration)) : Prop where
  structs : s'.structs = s.structs
  stage : s'.stage = s.stage
  next : s'.builder.nextId = s.builder.nextId
  vars : s'.builder.globalVars = s.builder.globalVars
  decorations : s'.builder.decorations = s.builder.decorations ++ ds

variable {ds es : List (Spirv.Target × Spirv.Decoration)}

theorem Adds.refl (s : Ctx) : Adds s s [] := ⟨rfl, rfl, rfl, rfl, (List.append_nil _).symm⟩

theorem Adds.trans (h : Adds s s' ds) (h' : Adds s' s'' es) : Adds s s'' (ds ++ es) where
  structs := h'.structs.trans h.structs
  stage := h'.stage.trans h.stage
  next := h'.next.trans h.next
  vars := h'.vars.trans h.vars
  decorations := by rw [h'.decorations, h.decorations, List.append_assoc]

variable {u : Unit}

theorem decorate_adds {t : Spirv.Target} {d : Spirv.Decoration} (h : decorate t d s = .ok (u, s')) :
    Adds s s' [(t, d)] := by
  cases h
  exact ⟨rfl, rfl, rfl, rfl, rfl⟩

theorem decorateMembers_adds {isOutput : Bool} {i loc : Nat}
    (h : decorateMembers ty isOutput ms i loc s = .ok (u, s')) :
    Adds s s' (memberDecorations ty (positionBuiltIn s.stage isOutput) ms i loc) := by
  induction ms generalizing i loc s with
  | nil =>
    cases h
    exact .refl _
  | cons m rest ih =>
    obtain ⟨s0, s1, h1, h⟩ := bind_eq_ok h
    cases h1
    by_cases hb : IsBuiltIn m.semantic
    · rw [if_pos hb] at h
      obtain ⟨_, s2, h2, h⟩ := bind_eq_ok h
      have hfirst := decorate_adds h2
      have hrest := ih h
      rw [hfirst.stage] at hrest
      rw [memberDecorations, if_pos hb]
      exact hfirst.trans hrest
    · rw [if_neg hb] at h
      by_cases ht : IsTarget m.semantic
      · rw [if_pos ht] at h
        obtain ⟨_, s2, h2, h⟩ := bind_eq_ok h
        have hfirst := decorate_adds h2
        have hrest := ih h
        rw [hfirst.stage] at hrest
        rw [memberDecorations, if_neg hb, if_pos ht]
        exact hfirst.trans hrest
      · rw [if_neg ht] at h
        obtain ⟨_, s2, h2, h⟩ := bind_eq_ok h
        obtain ⟨n, s3, h3, h⟩ := bind_eq_ok h
        obtain ⟨rfl, rfl⟩ := checkedU32_ok h3
        have hfirst := decorate_adds h2
        have hrest := ih h
        rw [hfirst.stage] at hrest
        rw [memberDecorations, if_neg hb, if_neg ht]
        exact hfirst.trans hrest

theorem decorateStructIo_adds {isOutput : Bool}
    (h : decorateStructIo ms ty isOutput s = .ok (u, s')) :
    Adds s s' (structDecorations ty (positionBuiltIn s.stage isOutput) ms) := by
  obtain ⟨_, s1, h1, h⟩ := bind_eq_ok h
  have hblock := decorate_adds h1
  have hmembers := decorateMembers_adds h
  rw [hblock.stage] at hmembers
  exact hblock.trans hmembers

theorem decorateIoVar_adds {id : Spirv.Id} {semantic : Option String} {isOutput : Bool}
    (h : decorateIoVar id semantic isOutput s = .ok (u, s')) :
    ∃ d, Adds s s' [(.id id, d)] ∧
      (locationOf d).toList = if IsBuiltIn semantic then [] else [0] := by
  obtain ⟨s0, s1, h1, h⟩ := bind_eq_ok h
  cases h1
  by_cases hb : IsBuiltIn semantic
  · rw [if_pos hb] at h ⊢
    exact ⟨_, decorate_adds h, rfl⟩
  · rw [if_neg hb] at h ⊢
    exact ⟨_, decorate_adds h, rfl⟩

/-! ### Ports -/

/-- What is assigned for the port of `e` is on the variable `v`. -/
def Reaches (structs : List (String × StructInfo)) (e : Port × Spirv.Variable)
    (v : Spirv.Variable) : Prop :=
  match e.1.info structs with
  | some info => v.ty = .pointer v.cls info.typeId
  | none => e.2.id = v.id

open Classical in
/-- The locations of the port of `e` that show on the variable `v`. -/
noncomputable def shownOf (structs : List (String × StructInfo)) (v : Spirv.Variable)
    (e : Port × Spirv.Variable) : List Nat :=
  if Reaches structs e v then e.1.locations structs else []

/-- All that show on it. -/
noncomputable def shown (structs : List (String × StructInfo))
    (es : List (Port × Spirv.Variable)) (v : Spirv.Variable) : List Nat :=
  es.flatMap (shownOf structs v)

/-- The location `n` is assigned to the member `i` of the type `ty` for the port. -/
def Port.Locates (structs : List (String × StructInfo)) (p : Port) (ty : Spirv.Ty) (i n : Nat) :
    Prop :=
  ∃ info, p.info structs = some info ∧
    (Spirv.Target.member ty i, Spirv.Decoration.location n) ∈
      memberDecorations info.typeId .position info.members 0 0

/-- From `s` to `s'` ports are emitted, each with a new variable of its type, and their locations are
    assigned. -/
structure Emits (structs : List (String × StructInfo)) (s s' : Ctx)
    (es : List (Port × Spirv.Variable)) : Prop where
  declared : s'.structs = s.structs
  next : s.builder.nextId ≤ s'.builder.nextId
  vars : s'.builder.globalVars = s.builder.globalVars ++ es.map Prod.snd
  ids : ∀ e ∈ es, s.builder.nextId ≤ e.2.id ∧ e.2.id < s'.builder.nextId
  distinct : es.Pairwise fun e e' => e.2.id ≠ e'.2.id
  types : ∀ e ∈ es, ∀ ts, e.2.ty = .pointer e.2.cls (.struct ts) ↔
    (e.1.info structs).map StructInfo.typeId = some (.struct ts)
  locations : ∀ v, locationsOn v s'.builder.decorations =
    locationsOn v s.builder.decorations ++ shown structs es v
  members : ∀ ty i n,
    (Spirv.Target.member ty i, Spirv.Decoration.location n) ∈ s'.builder.decorations ↔
      (Spirv.Target.member ty i, Spirv.Decoration.location n) ∈ s.builder.decorations ∨
        ∃ e ∈ es, e.1.Locates structs ty i n

namespace Emits

variable {xs ys : List (Port × Spirv.Variable)} {p : Port} {info : StructInfo}
  {cls : Spirv.StorageClass} {s₁ : Ctx}

theorem nil (s : Ctx) : Emits structs s s [] where
  declared := rfl
  next := Nat.le_refl _
  vars := (List.append_nil _).symm
  ids := nofun
  distinct := .nil
  types := nofun
  locations _ := (List.append_nil _).symm
  members _ _ _ := by simp

theorem trans (h : Emits structs s s' xs) (h' : Emits structs s' s'' ys) :
    Emits structs s s'' (xs ++ ys) where
  declared := h'.declared.trans h.declared
  next := h.next.trans h'.next
  vars := by rw [h'.vars, h.vars, List.map_append, List.append_assoc]
  ids e he := (List.mem_append.mp he).elim
    (fun he => (h.ids e he).imp_right fun hlt => hlt.trans_le h'.next)
    (fun he => (h'.ids e he).imp_left h.next.trans)
  distinct := by
    refine List.pairwise_append.mpr ⟨h.distinct, h'.distinct, fun e he e' he' => ?_⟩
    exact Nat.ne_of_lt ((h.ids e he).2.trans_le (h'.ids e' he').1)
  types e he := (List.mem_append.mp he).elim (h.types e) (h'.types e)
  locations v := by
    rw [h'.locations, h.locations, shown, shown, shown, List.flatMap_append, List.append_assoc]
  members ty i n := by
    rw [h'.members, h.members, or_assoc]
    simp only [List.mem_append, or_and_right, exists_or]

theorem struct (hinfo : p.info structs = some info)
    (hadds : Adds s s₁ (structDecorations info.typeId which info.members))
    (hstructs : s'.structs = s₁.structs)
    (hb : s'.builder = (s₁.builder.globalVariable (.pointer cls info.typeId) cls).2) :
    Emits structs s s' [(p, ⟨.pointer cls info.typeId, s.builder.nextId, cls⟩)] where
  declared := hstructs.trans hadds.structs
  next := by
    rw [hb, ← hadds.next]
    exact Nat.le_succ _
  vars := by
    rw [hb, ← hadds.vars, ← hadds.next]
    rfl
  ids e he := by
    cases List.mem_singleton.mp he
    rw [hb, ← hadds.next]
    exact ⟨Nat.le_refl _, Nat.lt_succ_self _⟩
  distinct := List.pairwise_singleton _ _
  types e he ts := by
    cases List.mem_singleton.mp he
    simp [hinfo]
  locations v := by
    have hdecorations : s'.builder.decorations = s.builder.decorations ++
        structDecorations info.typeId which info.members := by
      rw [hb, ← hadds.decorations]
      rfl
    rw [hdecorations, locationsOn_append, shown, List.flatMap_singleton, shownOf]
    congr 1
    have hblock : ¬ IsOn v (.type info.typeId) := fun h => h
    rw [structDecorations, locationsOn_cons_of_not hblock]
    have hreaches : Reaches structs (p, ⟨.pointer cls info.typeId, s.builder.nextId, cls⟩) v ↔
        v.ty = .pointer v.cls info.typeId := by
      simp only [Reaches, hinfo]
    by_cases hv : v.ty = .pointer v.cls info.typeId
    · rw [if_pos (hreaches.mpr hv), locationsOn_memberDecorations hv, Port.locations, hinfo]
    · rw [if_neg (mt hreaches.mp hv)]
      refine locationsOn_of_not_isOn fun d hd hon => hv ?_
      obtain ⟨j, hj⟩ := target_of_mem_memberDecorations hd
      rw [hj] at hon
      exact hon
  members ty i n := by
    have hdecorations : s'.builder.decorations = s.builder.decorations ++
        structDecorations info.typeId which info.members := by
      rw [hb, ← hadds.decorations]
      rfl
    have hlocates : p.Locates structs ty i n ↔
        (Spirv.Target.member ty i, Spirv.Decoration.location n) ∈
          memberDecorations info.typeId .position info.members 0 0 := by
      simp [Port.Locates, hinfo]
    rw [hdecorations, List.mem_append, structDecorations, location_mem_cons,
      location_mem_iff which .position, ← hlocates]
    simp

theorem plain {st : Spirv.Ty} {d : Spirv.Decoration} {s₂ : Ctx} (hinfo : p.info structs = none)
    (hst : ∀ ts, st ≠ .struct ts) (hadds : Adds s₁ s₂ [(.id s.builder.nextId, d)])
    (hd : (locationOf d).toList = if IsBuiltIn p.semantic then [] else [0])
    (hstructs : s₁.structs = s.structs)
    (hb : s₁.builder = (s.builder.globalVariable (.pointer cls st) cls).2)
    (hstructs' : s'.structs = s₂.structs) (hb' : s'.builder = s₂.builder) :
    Emits structs s s' [(p, ⟨.pointer cls st, s.builder.nextId, cls⟩)] where
  declared := hstructs'.trans (hadds.structs.trans hstructs)
  next := by
    rw [hb', hadds.next, hb]
    exact Nat.le_succ _
  vars := by
    rw [hb', hadds.vars, hb]
    rfl
  ids e he := by
    cases List.mem_singleton.mp he
    rw [hb', hadds.next, hb]
    exact ⟨Nat.le_refl _, Nat.lt_succ_self _⟩
  distinct := List.pairwise_singleton _ _
  types e he ts := by
    cases List.mem_singleton.mp he
    simp [hinfo, hst]
  locations v := by
    have hdecorations : s'.builder.decorations =
        s.builder.decorations ++ [(.id s.builder.nextId, d)] := by
      rw [hb', hadds.decorations, hb]
      rfl
    rw [hdecorations, locationsOn_append, shown, List.flatMap_singleton, shownOf]
    congr 1
    have hreaches : Reaches structs (p, ⟨.pointer cls st, s.builder.nextId, cls⟩) v ↔
        s.builder.nextId = v.id := by
      simp only [Reaches, hinfo]
    by_cases hv : IsOn v (.id s.builder.nextId)
    · rw [if_pos (hreaches.mpr hv), locationsOn_cons_of_isOn hv, Port.locations, hinfo, hd]
      exact List.append_nil _
    · rw [if_neg (mt hreaches.mp hv), locationsOn_cons_of_not hv]
      rfl
  members ty i n := by
    have hdecorations : s'.builder.decorations =
        s.builder.decorations ++ [(.id s.builder.nextId, d)] := by
      rw [hb', hadds.decorations, hb]
      rfl
    rw [hdecorations]
    simp [Port.Locates, hinfo]

end Emits

/-! ### The interface -/

variable {name : String} {info : StructInfo}

theorem structInfo_lookup (h : structInfo name s = .ok (info, s')) :
    s = s' ∧ s.structs.lookup name = some info := by
  obtain ⟨s0, s1, h1, h⟩ := bind_eq_ok h
  cases h1
  cases hinfo : s.structs.lookup name with
  | none =>
    simp only [hinfo] at h
    cases h
  | some info' =>
    simp only [hinfo] at h
    cases h
    exact ⟨rfl, rfl⟩

theorem typeId_ne_struct {t : Tables} {ty : Ty} {st : Spirv.Ty} (hty : ∀ name, ty ≠ .struct name)
    (h : t.typeId ty = .ok st) (ts : List Spirv.Ty) : st ≠ .struct ts := by
  rintro rfl
  cases ty with
  | struct name => exact hty name rfl
  | scalar k => cases k <;> cases h
  | _ => cases h

theorem emitPlainInput_emits {p : Param} (hinfo : Port.info structs ⟨p.ty, p.semantic⟩ = none)
    (hplain : ∀ name, p.ty ≠ .struct name) (h : emitPlainInput p s = .ok (u, s')) :
    ∃ v : Spirv.Variable, v.cls = .input ∧ Emits structs s s' [(⟨p.ty, p.semantic⟩, v)] := by
  obtain ⟨st, s1, h1, h⟩ := bind_eq_ok h
  obtain ⟨hty, rfl⟩ := typeId_ok h1
  obtain ⟨v, s2, h2, h⟩ := bind_eq_ok h
  obtain ⟨_, s3, h3, h⟩ := bind_eq_ok h
  obtain ⟨_, s4, h4, h⟩ := bind_eq_ok h
  obtain ⟨d, hadds, hd⟩ := decorateIoVar_adds h3
  cases h2
  cases h4
  cases h
  exact ⟨_, rfl, .plain hinfo (typeId_ne_struct hplain hty) hadds hd rfl rfl rfl rfl⟩

theorem emitInput_emits {p : Param} (hs : s.structs = structs)
    (h : emitInput p s = .ok (u, s')) :
    ∃ v : Spirv.Variable, v.cls = .input ∧ Emits structs s s' [(⟨p.ty, p.semantic⟩, v)] := by
  cases hp : p.ty with
  | struct name =>
    unfold emitInput at h
    simp only [hp] at h
    obtain ⟨info, s1, h1, h⟩ := bind_eq_ok h
    obtain ⟨rfl, hinfo⟩ := structInfo_lookup h1
    obtain ⟨_, s2, h2, h⟩ := bind_eq_ok h
    obtain ⟨v, s3, h3, h⟩ := bind_eq_ok h
    obtain ⟨_, s4, h4, h⟩ := bind_eq_ok h
    cases h3
    cases h4
    cases h
    rw [hs] at hinfo
    exact ⟨_, rfl, .struct hinfo (decorateStructIo_adds h2) rfl rfl⟩
  | scalar k | vector k n =>
    unfold emitInput at h
    simp only [hp] at h
    have hinfo : Port.info structs ⟨p.ty, p.semantic⟩ = none := by
      rw [hp]
      rfl
    have hplain := emitPlainInput_emits hinfo (by simp [hp]) h
    rwa [hp] at hplain
  | _ =>
    unfold emitInput at h
    simp only [hp] at h
    cases h

theorem emitInputs_emits {ps : List Param} (hs : s.structs = structs)
    (h : emitInputs ps s = .ok (u, s')) :
    ∃ es, es.map Prod.fst = ps.map (fun p => ⟨p.ty, p.semantic⟩) ∧
      (∀ e ∈ es, e.2.cls = .input) ∧ Emits structs s s' es := by
  induction ps generalizing s with
  | nil =>
    cases h
    exact ⟨[], rfl, nofun, .nil _⟩
  | cons p rest ih =>
    obtain ⟨_, s1, h1, h⟩ := bind_eq_ok h
    obtain ⟨v, hv, hfirst⟩ := emitInput_emits hs h1
    obtain ⟨es, hes, hcls, hrest⟩ := ih (hfirst.declared.trans hs) h
    exact ⟨(_, v) :: es, by rw [List.map_cons, hes, List.map_cons],
      List.forall_mem_cons.mpr ⟨hv, hcls⟩, hfirst.trans hrest⟩

theorem emitOutput_emits {main : FunctionDecl} (hs : s.structs = structs)
    (h : emitOutput main s = .ok (u, s')) :
    ∃ v : Spirv.Variable, v.cls = .output ∧ Emits structs s s' [(outputPort main, v)] := by
  unfold emitOutput at h
  unfold outputPort
  obtain ⟨ty, hty⟩ : ∃ ty, main.returnType = ty := ⟨_, rfl⟩
  simp only [hty] at h ⊢
  split at h
  · next name =>
    obtain ⟨info, s1, h1, h⟩ := bind_eq_ok h
    obtain ⟨rfl, hinfo⟩ := structInfo_lookup h1
    obtain ⟨_, s2, h2, h⟩ := bind_eq_ok h
    obtain ⟨v, s3, h3, h⟩ := bind_eq_ok h
    obtain ⟨_, s4, h4, h⟩ := bind_eq_ok h
    cases h3
    cases h4
    cases h
    rw [hs] at hinfo
    exact ⟨_, rfl, .struct hinfo (decorateStructIo_adds h2) rfl rfl⟩
  · obtain ⟨st, s1, h1, h⟩ := bind_eq_ok h
    obtain ⟨hst, rfl⟩ := typeId_ok h1
    obtain ⟨v, s2, h2, h⟩ := bind_eq_ok h
    obtain ⟨_, s3, h3, h⟩ := bind_eq_ok h
    obtain ⟨_, s4, h4, h⟩ := bind_eq_ok h
    obtain ⟨d, hadds, hd⟩ := decorateIoVar_adds h3
    cases hst
    cases h2
    cases h4
    cases h
    exact ⟨_, rfl, .plain rfl (by nofun) hadds hd rfl rfl rfl rfl⟩
  · cases h

/-- Of the module's interface, `ins` are the inputs with their variables and `o` is the output. -/
structure Interface (structs : List (String × StructInfo)) (main : FunctionDecl)
    (b : Spirv.Builder) (ins : List (Port × Spirv.Variable)) (o : Port × Spirv.Variable) : Prop where
  struct : ∀ name info, structs.lookup name = some info → ∃ ts, info.typeId = .struct ts
  inputs : ins.map Prod.fst = inputPorts main
  output : o.1 = outputPort main
  inputVars : (b.globalVars.filter fun v => v.cls = .input) = ins.map Prod.snd
  outputVars : (b.globalVars.filter fun v => v.cls = .output) = [o.2]
  emitted : ∃ s₀ s, (∀ t n, (t, Spirv.Decoration.location n) ∉ s₀.builder.decorations) ∧
    Emits structs s₀ s (ins ++ [o]) ∧ b.decorations = s.builder.decorations

theorem emitGlobals_structs {ds : List Decl} {stage : ShaderStage}
    (h : emitGlobals ds (Ctx.new stage) = .ok (u, s')) : s'.structs = structsOf ds ∧
      ∀ name info, (structsOf ds).lookup name = some info → ∃ ts, info.typeId = .struct ts := by
  have hdecls := emitGlobals_declares h
  have hΓ := (hdecls.emitted.fresh (fresh_new stage)).agrees
  obtain ⟨sc, hsc, hd⟩ := hdecls.scope _ _ hΓ rfl (describes_new _ stage)
  have hstructs : structsOf ds = sc.structs := by
    rw [structsOf, hsc]
    rfl
  rw [hstructs]
  exact ⟨hd.structs.symm, hd.structsOk⟩

variable {unit : TranslationUnit} {stage : ShaderStage}

/-- After the interface comes the code of the body, which leaves it as it is. -/
theorem interface_of_codegen {b : Spirv.Builder} (h : codegen unit stage = .ok b) : ∃ main ins o,
    findMain unit.decls = some main ∧ Interface (structsOf unit.decls) main b ins o := by
  obtain ⟨main, s₀, s', hmain, hglobals, hrun, rfl⟩ := codegen_ok h
  obtain ⟨_, s₁, hinputs, hrun⟩ := bind_eq_ok hrun
  obtain ⟨_, s, houtput, hrun⟩ := bind_eq_ok hrun
  obtain ⟨_, s₃, hbegin, hrun⟩ := bind_eq_ok hrun
  obtain ⟨_, s₄, hbody, hfinish⟩ := bind_eq_ok hrun
  have hdecls := emitGlobals_declares hglobals
  obtain ⟨-, hopen, hentry, -⟩ :=
    fits_entry hdecls.emitted.insts.eq_nil hdecls.locals hinputs houtput hbegin
  obtain ⟨_, _, -, hgoes⟩ := goes_body hopen hbody
  have hsame := hentry.trans (hgoes.globals.trans (finishEntryPoint_ok hfinish).2)
  obtain ⟨hs, hstruct⟩ := emitGlobals_structs hglobals
  have hbinds := emitGlobals_binds hglobals
  obtain ⟨ins, hports, hins, hin⟩ := emitInputs_emits hs hinputs
  obtain ⟨v, hv, hout⟩ := emitOutput_emits (hin.declared.trans hs) houtput
  have hbefore : ∀ v ∈ s₀.builder.globalVars, ¬ IsInterface v := fun v hv =>
    (hbinds.vars v hv).resolve_left (List.not_mem_nil)
  have hvars (cls : Spirv.StorageClass) (hcls : cls = .input ∨ cls = .output) :
      (s'.builder.globalVars.filter fun v => v.cls = cls) =
        (ins.map Prod.snd).filter (fun v => v.cls = cls) ++ [v].filter fun v => v.cls = cls := by
    have hnone : (s₀.builder.globalVars.filter fun v => v.cls = cls) = [] := by
      refine List.filter_eq_nil_iff.mpr fun v hv heq => hbefore v hv ?_
      rw [IsInterface, of_decide_eq_true heq]
      exact hcls
    rw [hsame.1, hout.vars, hin.vars, List.filter_append, List.filter_append, hnone]
    rfl
  refine ⟨main, ins, _, hmain, hstruct, hports, rfl, ?_, ?_, s₀, s, ?_, hin.trans hout, hsame.2⟩
  · rw [hvars .input (Or.inl rfl), List.filter_eq_self.mpr, List.filter_singleton, hv]
    · exact List.append_nil _
    · rintro w hw
      obtain ⟨e, he, rfl⟩ := List.mem_map.mp hw
      exact decide_eq_true (hins e he)
  · rw [hvars .output (Or.inr rfl), List.filter_eq_nil_iff.mpr, List.filter_singleton, hv]
    · rfl
    · rintro w hw heq
      obtain ⟨e, he, rfl⟩ := List.mem_map.mp hw
      exact nomatch (hins e he).symm.trans (of_decide_eq_true heq)
  · exact fun t n hmem => List.not_mem_nil (hbinds.located t n hmem)

/-! ### What is where -/

namespace Interface

variable {main : FunctionDecl} {b : Spirv.Builder} {ins : List (Port × Spirv.Variable)}
  {o e e' : Port × Spirv.Variable}

theorem locationsOn_eq (h : Interface structs main b ins o) (v : Spirv.Variable) :
    locationsOn v b.decorations = shown structs (ins ++ [o]) v := by
  obtain ⟨s₀, s, hnone, hemits, hsame⟩ := h.emitted
  have hbefore : locationsOn v s₀.builder.decorations = [] := by
    refine List.filterMap_eq_nil_iff.mpr ?_
    rintro ⟨t, d⟩ hd
    cases d with
    | location n => exact absurd hd (hnone t n)
    | _ => exact ite_self _
  rw [hsame, hemits.locations, hbefore, List.nil_append]

theorem reaches_iff (h : Interface structs main b ins o) (he : e ∈ ins ++ [o])
    (he' : e' ∈ ins ++ [o]) : Reaches structs e e'.2 ↔
      e.1.SharesType structs e'.1 ∨ e.1.info structs = none ∧ e = e' := by
  obtain ⟨_, _, -, hemits, -⟩ := h.emitted
  unfold Reaches Port.SharesType
  cases hinfo : e.1.info structs with
  | none =>
    have hids : ((ins ++ [o]).map fun e => e.2.id).Nodup := List.pairwise_map.mpr hemits.distinct
    have hinj : e.2.id = e'.2.id ↔ e = e' :=
      ⟨fun heq => List.inj_on_of_nodup_map hids he he' heq, fun heq => by rw [heq]⟩
    simp [hinj]
  | some info =>
    obtain ⟨ts, hts⟩ : ∃ ts, info.typeId = .struct ts := by
      unfold Port.info at hinfo
      split at hinfo
      · exact h.struct _ info hinfo
      · cases hinfo
    have htypes := hemits.types e' he' ts
    simp only [hts, htypes, Option.map_eq_some_iff]
    simp [hts, eq_comm]

theorem reaches_self (h : Interface structs main b ins o) (he : e ∈ ins ++ [o]) :
    Reaches structs e e.2 := by
  rw [h.reaches_iff he he]
  cases hinfo : e.1.info structs with
  | none => exact Or.inr ⟨rfl, rfl⟩
  | some info => exact Or.inl ⟨info, info, hinfo, hinfo, rfl⟩

theorem ports_eq (h : Interface structs main b ins o) : ports main = (ins ++ [o]).map Prod.fst := by
  rw [List.map_append, h.inputs, List.map_singleton, h.output]
  rfl

theorem shownOf_eq_nil_iff {v : Spirv.Variable} :
    shownOf structs v e = [] ↔ ¬ (Reaches structs e v ∧ e.1.IsLocated structs) := by
  simp [shownOf, ← Port.locations_ne_nil_iff]

theorem shown_ne_nil_iff {es : List (Port × Spirv.Variable)} {v : Spirv.Variable} :
    shown structs es v ≠ [] ↔ ∃ e ∈ es, Reaches structs e v ∧ e.1.IsLocated structs := by
  simp [shown, List.flatMap_eq_nil_iff, shownOf_eq_nil_iff]

theorem zero_mem_shownOf {v : Spirv.Variable} (h : shownOf structs v e ≠ []) :
    0 ∈ shownOf structs v e := by
  obtain ⟨hreaches, hlocated⟩ := not_not.mp (mt shownOf_eq_nil_iff.mpr h)
  rw [shownOf, if_pos hreaches]
  exact Port.zero_mem_locations (Port.locations_ne_nil_iff.mpr hlocated)

theorem zero_mem_shown {es : List (Port × Spirv.Variable)} {v : Spirv.Variable}
    (h : shown structs es v ≠ []) : 0 ∈ shown structs es v := by
  obtain ⟨e, he, hboth⟩ := shown_ne_nil_iff.mp h
  refine List.mem_flatMap.mpr ⟨e, he, zero_mem_shownOf ?_⟩
  exact fun hnil => shownOf_eq_nil_iff.mp hnil hboth

theorem shown_nodup_iff {es : List (Port × Spirv.Variable)} {v : Spirv.Variable} :
    (shown structs es v).Nodup ↔
      (∀ e ∈ es, Reaches structs e v → (e.1.locations structs).Nodup) ∧
        es.Pairwise fun e e' => ¬ ((Reaches structs e v ∧ e.1.IsLocated structs) ∧
          Reaches structs e' v ∧ e'.1.IsLocated structs) := by
  rw [shown, nodup_flatMap_iff fun _ => zero_mem_shownOf]
  refine and_congr (forall₂_congr fun e _ => ?_) (List.Pairwise.iff fun e e' => ?_)
  · by_cases hreaches : Reaches structs e v <;> simp [shownOf, hreaches]
  · rw [shownOf_eq_nil_iff, shownOf_eq_nil_iff]
    exact not_and_or.symm

theorem showsLocation_iff (h : Interface structs main b ins o) (he : e ∈ ins ++ [o]) :
    ShowsLocation structs main e.1 ↔ shown structs (ins ++ [o]) e.2 ≠ [] := by
  rw [shown_ne_nil_iff]
  constructor
  · rintro (hlocated | ⟨q, hq, hshares, hlocated⟩)
    · exact ⟨e, he, h.reaches_self he, hlocated⟩
    · rw [h.ports_eq] at hq
      obtain ⟨e', he', rfl⟩ := List.mem_map.mp hq
      exact ⟨e', he', (h.reaches_iff he' he).mpr (Or.inl hshares), hlocated⟩
  · rintro ⟨e', he', hreaches, hlocated⟩
    rcases (h.reaches_iff he' he).mp hreaches with hshares | ⟨-, rfl⟩
    · refine Or.inr ⟨e'.1, ?_, hshares, hlocated⟩
      rw [h.ports_eq]
      exact List.mem_map_of_mem he'
    · exact Or.inl hlocated

theorem nodup_iff_shown (h : Interface structs main b ins o) : DistinctLocations b ↔
      (∀ e ∈ ins ++ [o], (shown structs (ins ++ [o]) e.2).Nodup) ∧
        (inputPorts main).Pairwise fun p q =>
          ¬ (ShowsLocation structs main p ∧ ShowsLocation structs main q) := by
  have hin : locationsIn b .input =
      ins.flatMap fun e => shown structs (ins ++ [o]) e.2 := by
    rw [locationsIn, h.inputVars, List.flatMap_map]
    exact List.flatMap_congr fun e _ => h.locationsOn_eq e.2
  have hout : locationsIn b .output = shown structs (ins ++ [o]) o.2 := by
    rw [locationsIn, h.outputVars, List.flatMap_singleton, h.locationsOn_eq]
  rw [DistinctLocations, hin, hout, nodup_flatMap_iff (fun _ => zero_mem_shown), ← h.inputs, List.pairwise_map,
    List.forall_mem_append, List.forall_mem_singleton, and_right_comm]
  refine and_congr_right' (List.Pairwise.iff_of_mem fun {e e'} he he' => ?_)
  rw [h.showsLocation_iff (List.mem_append_left _ he), h.showsLocation_iff
    (List.mem_append_left _ he'), ← not_or, not_not]

theorem output_not_mem (h : Interface structs main b ins o) : o ∉ ins := by
  obtain ⟨_, _, -, hemits, -⟩ := h.emitted
  intro ho
  exact (List.pairwise_append.mp hemits.distinct).2.2 o ho o List.mem_cons_self rfl

theorem nodup_iff (h : Interface structs main b ins o) :
    DistinctLocations b ↔ SignatureDistinct structs main := by
  have ho : o ∈ ins ++ [o] := List.mem_append_right _ List.mem_cons_self
  rw [h.nodup_iff_shown]
  constructor
  · rintro ⟨hshown, hparams⟩
    refine ⟨hparams, ?_, ?_⟩
    · intro p hp hshares hlocated
      rw [← h.inputs] at hp
      obtain ⟨e, he, rfl⟩ := List.mem_map.mp hp
      have he' := List.mem_append_left [o] he
      have hpair := (List.pairwise_append.mp (shown_nodup_iff.mp (hshown e he')).2).2.2 e he o
        List.mem_cons_self
      rw [← h.output] at hshares hlocated
      exact hpair ⟨⟨h.reaches_self he', hlocated.1⟩,
        (h.reaches_iff ho he').mpr (Or.inl hshares.symm), hlocated.2⟩
    · intro p hp
      rw [h.ports_eq] at hp
      obtain ⟨e, he, rfl⟩ := List.mem_map.mp hp
      exact Port.locations_nodup_iff.mp
        ((shown_nodup_iff.mp (hshown e he)).1 e he (h.reaches_self he))
  · intro hsig
    refine ⟨fun e he => shown_nodup_iff.mpr ⟨?_, ?_⟩, hsig.params⟩
    · intro e' he' _
      refine Port.locations_nodup_iff.mpr (hsig.members e'.1 ?_)
      rw [h.ports_eq]
      exact List.mem_map_of_mem he'
    · have hparams := hsig.params
      rw [← h.inputs, List.pairwise_map] at hparams
      refine List.pairwise_append.mpr ⟨hparams.imp fun hnot hboth => ?_,
        List.pairwise_singleton _ _, ?_⟩
      · exact hnot ⟨Or.inl hboth.1.2, Or.inl hboth.2.2⟩
      · rintro e' he' o' ho' ⟨⟨hreaches, hlocated⟩, hreaches', hlocated'⟩
        rw [List.mem_singleton.mp ho'] at hreaches' hlocated'
        have hmem := List.mem_append_left [o] he'
        -- both show on `e`, so that they are structs of one type or the same port
        have hshares : e'.1.SharesType structs o.1 := by
          rcases (h.reaches_iff hmem he).mp hreaches with hs | ⟨hnone, rfl⟩
          · rcases (h.reaches_iff ho he).mp hreaches' with hs' | ⟨hnone, rfl⟩
            · exact hs.trans hs'.symm
            · exact hs
          · rcases (h.reaches_iff ho he).mp hreaches' with hs' | ⟨-, rfl⟩
            · exact hs'.symm
            · exact absurd he' (h.output_not_mem)
        rw [h.output] at hshares hlocated'
        refine hsig.shared e'.1 ?_ hshares ⟨hlocated, hlocated'⟩
        rw [← h.inputs]
        exact List.mem_map_of_mem he'

end Interface

end

/-- In an accepted shader the locations are distinct exactly when the signature's are. The left
    side is about the decorations of the whole module, since a struct's locations are those of
    its type. -/
theorem locations_distinct_iff {unit : TranslationUnit} {stage : ShaderStage}
    {b : Spirv.Builder} (h : codegen unit stage = .ok b) :
    DistinctLocations b ↔
      ∀ main, findMain unit.decls = some main → SignatureDistinct (structsOf unit.decls) main := by
  obtain ⟨main, ins, o, hmain, hinterface⟩ := interface_of_codegen h
  rw [hinterface.nodup_iff]
  constructor
  · intro hsig main' hmain'
    cases hmain.symm.trans hmain'
    exact hsig
  · exact fun hsig => hsig main hmain

/-- `float4 main(float2 a : TEXCOORD0, float2 b : TEXCOORD1) : SV_Target
    { return float4(a.x, a.y, b.x, b.y); }` -/
def twoCoordinates : TranslationUnit where
  decls := [.function {
    returnType := .vector .float 4
    name := "main"
    params := [⟨.vector .float 2, "a", some "TEXCOORD0"⟩, ⟨.vector .float 2, "b", some "TEXCOORD1"⟩]
    semantic := some "SV_Target"
    body := some [
      .return_ (some (.construct (.vector .float 4)
        [.member (.ident "a") "x", .member (.ident "a") "y", .member (.ident "b") "x",
          .member (.ident "b") "y"]))] }]

theorem locations_distinct_grey : ∃ b, codegen grey .pixel = .ok b ∧ DistinctLocations b := by
  have hok : (codegen grey .pixel).okWith (fun _ => true) = true := by decide +kernel
  obtain ⟨b, hb, -⟩ := Outcome.exists_of_okWith hok
  refine ⟨b, hb, (locations_distinct_iff hb).mpr fun main hmain => ?_⟩
  cases hmain
  refine ⟨List.pairwise_singleton _ _, fun p _ hshares => ?_, fun p hp info hinfo => ?_⟩
  · obtain ⟨-, j, -, hj, -⟩ := hshares
    cases hj
  · rcases List.mem_cons.mp hp with rfl | hp
    · cases hinfo
    · cases List.mem_singleton.mp hp
      cases hinfo

/-- Both parameters are given location 0. -/
theorem twoCoordinates_collide :
    ∃ b, codegen twoCoordinates .pixel = .ok b ∧ ¬ DistinctLocations b := by
  have hok : (codegen twoCoordinates .pixel).okWith (fun _ => true) = true := by decide +kernel
  obtain ⟨b, hb, -⟩ := Outcome.exists_of_okWith hok
  refine ⟨b, hb, fun hdistinct => ?_⟩
  obtain ⟨main, ins, o, hmain, hinterface⟩ := interface_of_codegen hb
  have hsig := hinterface.nodup_iff.mp hdistinct
  cases hmain
  have hpair := (List.pairwise_cons.mp hsig.params).1 _ List.mem_cons_self
  exact hpair ⟨Or.inl (by decide), Or.inl (by decide)⟩

end WinCompat.Hlsl
