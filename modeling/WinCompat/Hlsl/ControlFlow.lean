import WinCompat.Hlsl.Emission
import WinCompat.Lib.SpirvTyping

/-!
# The control flow of an emitted function

`emit_for` puts `OpLoopMerge` at the start of the header block and the condition's code after it, so a
condition that needs an instruction keeps the merge away from the terminator. Everything else that
SPIR-V asks of the blocks holds of every function: it is an invariant of the builder (`Ctx.Builds`),
carried through the emission of statements together with the one exception.

What follows a terminator in a statement list is not emitted, so only the loops that are reached count
(`forsQuiet`).
-/

namespace WinCompat.Hlsl

open Lib Lib.Comp

/-! ## The loops that are emitted -/

/-- A condition without an instruction: a boolean literal, inside scalar constructors and casts. -/
def Expr.isBoolConstant : Expr → Bool
  | .literal (.bool _) => true
  | .construct (.scalar _) [e] => e.isBoolConstant
  | .cast _ e => e.isBoolConstant
  | _ => false

def condQuiet : Option Expr → Bool
  | some c => c.isBoolConstant
  | none => true

mutual

/-- The emission of the statement ends the block for good. -/
def Stmt.ends : Stmt → Bool
  | .return_ _ => true
  | .for_ init _ _ _ => initEnds init
  | .block b => blockEnds b
  | _ => false

def blockEnds : List Stmt → Bool
  | [] => false
  | s :: rest => s.ends || blockEnds rest

def initEnds : Option Stmt → Bool
  | some s => s.ends
  | none => false

end

mutual

/-- The condition of every loop that is emitted needs no instruction. -/
def Stmt.forsQuiet : Stmt → Bool
  | .if_ _ then_ else_ => blockForsQuiet then_ && elseForsQuiet else_
  | .for_ init cond _ body =>
      initForsQuiet init && (initEnds init || (condQuiet cond && blockForsQuiet body))
  | .block b => blockForsQuiet b
  | _ => true

def blockForsQuiet : List Stmt → Bool
  | [] => true
  | s :: rest => s.forsQuiet && (s.ends || blockForsQuiet rest)

def elseForsQuiet : Option (List Stmt) → Bool
  | some b => blockForsQuiet b
  | none => true

def initForsQuiet : Option Stmt → Bool
  | some s => s.forsQuiet
  | none => true

end

/-! ## The code of an expression -/

/-- Neither control flow nor a variable in it. -/
def AllPlain (is : List Spirv.Inst) : Prop := ∀ i ∈ is, i.isPlain = true

namespace AllPlain

variable {is js : List Spirv.Inst}

theorem nil : AllPlain [] := nofun

theorem append (h : AllPlain is) (h' : AllPlain js) : AllPlain (is ++ js) :=
  List.forall_mem_append.mpr ⟨h, h'⟩

theorem cons {i : Spirv.Inst} (h : i.isPlain = true) (h' : AllPlain is) : AllPlain (i :: is) :=
  List.forall_mem_cons.mpr ⟨h, h'⟩

end AllPlain

/-- Straight-line code: it defines the ids from `n` to `n'`, each at most once, and leaves the control
    flow alone. -/
structure Straight (n n' : Spirv.Id) (cs : List Spirv.Constant) (is : List Spirv.Inst) : Prop where
  adds : Spirv.Adds n n' cs is
  plain : AllPlain is

namespace Straight

variable {n n₁ n₂ : Spirv.Id} {cs cs' : List Spirv.Constant} {is is' : List Spirv.Inst}
  {i : Spirv.Inst}

theorem le (h : Straight n n₁ cs is) : n ≤ n₁ := h.adds.le

theorem nil (n : Spirv.Id) : Straight n n [] [] := ⟨.nil (Nat.le_refl n), .nil⟩

theorem constant (ty : Spirv.Ty) (bits : BitVec 32) : Straight n (n + 1) [⟨ty, n, bits⟩] [] :=
  ⟨.constant ty bits, .nil⟩

theorem append (h : Straight n n₁ cs is) (h' : Straight n₁ n₂ cs' is') :
    Straight n n₂ (cs ++ cs') (is ++ is') :=
  ⟨h.adds.append h'.adds, h.plain.append h'.plain⟩

/-- An instruction that has the next id as its result. -/
theorem snoc (h : Straight n n₁ cs is) {ty : Spirv.Ty} (hi : i.result = some (n₁, ty))
    (hp : i.isPlain = true) : Straight n (n₁ + 1) cs (is ++ [i]) :=
  ⟨h.adds.snoc hi, h.plain.append (.cons hp .nil)⟩

theorem result {ty : Spirv.Ty} (hi : i.result = some (n, ty)) (hp : i.isPlain = true) :
    Straight n (n + 1) [] [i] :=
  (nil n).snoc hi hp

theorem store (h : Straight n n₁ cs is) (ptr object : Spirv.Id) :
    Straight n n₁ cs (is ++ [.store ptr object]) :=
  ⟨h.adds.snocNone rfl, h.plain.append (.cons rfl .nil)⟩

end Straight

theorem coerceScalarOut_straight (v : Val) (kind : ScalarKind) (id : Spirv.Id) :
    Straight id (id + (coerceScalarOut v kind id).2.length) [] (coerceScalarOut v kind id).2 := by
  unfold coerceScalarOut
  by_cases hk : v.ty = .scalar kind
  · rw [if_pos hk]
    exact .nil id
  · rw [if_neg hk]
    cases coerceOp v.ty kind with
    | some op => exact .result rfl rfl
    | none => exact .nil id

theorem coerceOut_straight (v : Val) (target : Ty) (id : Spirv.Id) :
    Straight id (id + (coerceOut v target id).2.length) [] (coerceOut v target id).2 := by
  unfold coerceOut
  split
  · exact coerceScalarOut_straight v _ id
  · exact .nil id

variable {is : List Spirv.Inst} {v : Val}

theorem coerceToBoolOut_straight {id cid : Spirv.Id} (h : coerceToBoolOut v id = some (cid, is)) :
    Straight id (id + is.length) [] is := by
  unfold coerceToBoolOut at h
  split at h
  · cases h
    exact .nil id
  · cases h
    exact .result rfl rfl
  · cases h

theorem clampBounds_straight {ty : Ty} {lo hi id lo' hi' : Spirv.Id}
    (h : clampBounds ty lo hi id = some (lo', hi', is)) : Straight id (id + is.length) [] is := by
  unfold clampBounds at h
  split at h
  · cases h
    exact .nil id
  · cases h
    exact (Straight.result rfl rfl).snoc rfl rfl
  · cases h

theorem swizzleInst_result (kind : ScalarKind) (comps : List Nat) (id base : Spirv.Id) :
    ∃ st, (swizzleInst kind comps id base).result = some (id, st) ∧
      (swizzleInst kind comps id base).isPlain = true := by
  unfold swizzleInst
  split <;> exact ⟨_, rfl, rfl⟩

section

variable {t : Tables}

theorem BinaryCode.result {op : BinaryOp} {l r v : Val} {id : Spirv.Id} {i : Spirv.Inst}
    (h : BinaryCode t op l r id v i) : ∃ st, i.result = some (id, st) ∧ i.isPlain = true := by
  cases h
  exact ⟨_, rfl, rfl⟩

variable {e : Expr}

theorem PlaceCode.straight {n n' : Spirv.Id} {p : Place} {cs : List Spirv.Constant}
    (h : PlaceCode t n e p n' cs is) : Straight n n' cs is := by
  induction h with
  | local_ hl => exact .nil _
  | cbuffer hl hc hg hty => exact .result rfl rfl
  | global hl hc hg => exact .nil _
  | member hbase hinfo hidx hm hty ih =>
    exact ih.append ((Straight.constant _ _).append (.result rfl rfl))

/-- The code of an expression has no control flow, and defines the ids that it takes, each once. -/
theorem Code.straight {n n' : Spirv.Id} {cs : List Spirv.Constant} (h : Code t n e v n' cs is) :
    Straight n n' cs is := by
  refine @Code.rec t (fun n _ _ n' cs is _ => Straight n n' cs is)
    (fun n _ _ n' cs is _ => Straight n n' cs is) ?literal ?ident ?field ?swizzle ?float ?scalar
    ?broadcast ?assemble ?assign ?compound ?binary ?unary ?convert ?castSame ?saturate ?dot ?mul
    ?mulMatrix ?intrinsic ?sample ?nil ?cons _ _ _ _ _ _ h
  case literal => exact fun n l => .constant _ _
  case ident => exact fun hp hty => hp.straight.snoc rfl rfl
  case field => exact fun hbase hp hty => hp.straight.snoc rfl rfl
  case swizzle =>
    intro n n₁ base member kind k v cs is comps hbase he hcomps ih
    obtain ⟨st, hst, hplain⟩ := swizzleInst_result kind comps n₁ v.id
    exact ih.snoc hst hplain
  case float => exact fun he ih => ih
  case scalar =>
    intro n n₁ kind e v cs is hkind he ih
    have hall := ih.append (coerceScalarOut_straight v kind n₁)
    rwa [List.append_nil] at hall
  case broadcast => exact fun he hv ih => ih.snoc rfl rfl
  case assemble => exact fun hlen ha ih => ih.snoc rfl rfl
  case assign =>
    intro n n₁ n₂ lhs rhs p v cs cs' is is' hp he ih
    have hall := (hp.straight.append ih).append (coerceOut_straight v p.ty n₂)
    rw [List.append_nil] at hall
    exact hall.store _ _
  case compound =>
    intro n n₁ n₂ op core lhs rhs p v r cs cs' is is' st i hop hp hty he hr ih
    obtain ⟨_, hi, hplain⟩ := hr.result
    have hload : Straight n n₂ (cs ++ cs') (is ++ .load st n₁ p.ptr :: is') := by
      have hall := (hp.straight.snoc (i := .load st n₁ p.ptr) rfl rfl).append ih
      rwa [List.append_assoc] at hall
    have hall := (hload.snoc hi hplain).store p.ptr r.id
    rwa [List.append_assoc] at hall
  case binary =>
    intro n n₁ n₂ op lhs rhs l r v cs cs' is is' i hop hl hr hv ihl ihr
    obtain ⟨_, hi, hplain⟩ := hv.result
    exact (ihl.append ihr).snoc hi hplain
  case unary => exact fun he hty ho ih => ih.snoc rfl rfl
  case convert => exact fun he hty ho ih => ih.snoc rfl rfl
  case castSame => exact fun he hty hv ih => ih
  case saturate =>
    intro n n₁ e v cs is is' st lo hi he hty hbounds ih
    have hconsts : Straight n₁ (n₁ + 2)
        [⟨.float, n₁, f32OfF64 0⟩, ⟨.float, n₁ + 1, f32OfF64 0x3FF0000000000000⟩] [] :=
      (Straight.constant _ _).append (.constant _ _)
    have hall := (ih.append hconsts).append (clampBounds_straight hbounds)
    rw [List.append_nil, List.append_nil] at hall
    exact hall.snoc rfl rfl
  case dot => exact fun ha hb hty iha ihb => (iha.append ihb).snoc rfl rfl
  case mul =>
    intro n n₁ n₂ a b va vb v cs cs' is is' i ha hb hm hv iha ihb
    obtain ⟨_, hi, hplain⟩ := hv.result
    exact (iha.append ihb).snoc hi hplain
  case mulMatrix => exact fun ha hb hm hty iha ihb => (iha.append ihb).snoc rfl rfl
  case intrinsic => exact fun hname ha hty ih => ih.snoc rfl rfl
  case sample =>
    intro n n₁ n₂ n₃ base sampler coord p vs vc cs cs' cs'' is is' is'' hp hs hc ihs ihc
    have hload : Straight n n₂ (cs ++ cs') (is ++ .load .sampledImage n₁ p.ptr :: is') := by
      have hall := (hp.straight.snoc (i := .load .sampledImage n₁ p.ptr) rfl rfl).append ihs
      rwa [List.append_assoc] at hall
    have himage := (hload.append ihc).snoc (i := .sampledImage .sampledImage n₃ n₁ vs.id) rfl rfl
    have hall := himage.snoc (i := .imageSampleImplicitLod (vectorTypeId .float 4) (n₃ + 1) n₃ vc.id)
      rfl rfl
    simpa only [List.append_assoc, List.cons_append, List.nil_append] using hall
  case nil => exact fun n => .nil n
  case cons => exact fun he hs ihe ihs => ihe.append ihs

variable {cs : List Spirv.Constant}

theorem coerceScalarOut_bool (hv : v.ty = .scalar .bool) (kind : ScalarKind) (id : Spirv.Id) :
    coerceScalarOut v kind id = (v, []) := by
  unfold coerceScalarOut
  by_cases hk : v.ty = .scalar kind
  · rw [if_pos hk]
  · rw [if_neg hk, hv]
    rfl

theorem coerceScalarOut_eq_nil {kind : ScalarKind} {id : Spirv.Id}
    (h : (coerceScalarOut v kind id).2 = []) : (coerceScalarOut v kind id).1 = v := by
  unfold coerceScalarOut at h ⊢
  by_cases hk : v.ty = .scalar kind
  · rw [if_pos hk]
  · rw [if_neg hk] at h ⊢
    cases hop : coerceOp v.ty kind with
    | some op => simp [hop] at h
    | none => rfl

theorem Code.of_isBoolConstant (hq : e.isBoolConstant = true) :
    ∀ {n n' : Spirv.Id} {v : Val} {cs : List Spirv.Constant} {is : List Spirv.Inst},
      Code t n e v n' cs is → is = [] ∧ v.ty = .scalar .bool := by
  fun_induction Expr.isBoolConstant e with
  | case1 b =>
    intro n n' v cs is h
    cases h
    exact ⟨rfl, rfl⟩
  | case2 k e ih =>
    intro n n' v cs is h
    cases h with
    | float he => exact ih hq he
    | scalar hkind he =>
      obtain ⟨rfl, hv⟩ := ih hq he
      rw [coerceScalarOut_bool hv]
      exact ⟨rfl, hv⟩
  | case3 ty e ih =>
    intro n n' v cs is h
    cases h with
    | convert he hty ho =>
      rw [(ih hq he).2] at ho
      cases ho
    | castSame he hty hv => exact ih hq he
  | case4 e h1 h2 h3 => cases hq

theorem Code.isBoolConstant :
    ∀ {n n' : Spirv.Id} {v : Val} {cs : List Spirv.Constant} {is : List Spirv.Inst},
      Code t n e v n' cs is → is = [] → v.ty = .scalar .bool → e.isBoolConstant = true := by
  fun_induction Expr.isBoolConstant e with
  | case1 b => exact fun _ _ _ => rfl
  | case2 k e ih =>
    intro n n' v cs is h his hv
    cases h with
    | float he => exact ih he his hv
    | scalar hkind he =>
      obtain ⟨his, hnil⟩ := List.append_eq_nil_iff.mp his
      rw [coerceScalarOut_eq_nil hnil] at hv
      exact ih he his hv
  | case3 ty e ih =>
    intro n n' v cs is h his hv
    cases h with
    | convert he hty ho => simp at his
    | castSame he hty hv' => exact ih he his hv
  | case4 e h1 h2 h3 =>
    intro n n' v cs is h his hv
    cases h with
    | literal n l =>
      cases l with
      | bool b => exact absurd rfl (h1 b)
      | _ => cases hv
    | float he => exact absurd rfl (h2 _ _)
    | scalar hkind he => exact absurd rfl (h2 _ _)
    | castSame he hty hv' => exact absurd rfl (h3 _ _)
    | _ => simp at his

theorem coerceToBoolOut_nil {id cid : Spirv.Id} (h : coerceToBoolOut v id = some (cid, [])) :
    v.ty = .scalar .bool := by
  unfold coerceToBoolOut at h
  split at h
  · assumption
  · cases h
  · cases h

/-- The code of a condition is empty exactly for a boolean constant. -/
theorem Code.cond_isEmpty {n n' : Spirv.Id} {is is' : List Spirv.Inst} {cid : Spirv.Id}
    (h : Code t n e v n' cs is) (hb : coerceToBoolOut v n' = some (cid, is')) :
    (is ++ is').isEmpty = e.isBoolConstant := by
  apply Bool.eq_iff_iff.mpr
  constructor
  · intro he
    obtain ⟨his, rfl⟩ := List.append_eq_nil_iff.mp (List.isEmpty_iff.mp he)
    exact h.isBoolConstant his (coerceToBoolOut_nil hb)
  · intro hq
    obtain ⟨rfl, hv⟩ := h.of_isBoolConstant hq
    simp only [coerceToBoolOut, hv, Option.some.injEq, Prod.mk.injEq] at hb
    rw [← hb.2]
    rfl

end

/-! ## The function under construction -/

/-- The function is being built: the blocks `B` have begun and the labels `P` are still to begin, its
    merge instructions are in place as `q` says, and a block is selected as `o` says. -/
structure Ctx.Builds (s : Ctx) (B P : List Spirv.Id) (q o : Bool) : Prop where
  exists_func : ∃ f, s.builder.func = some f ∧ f.Building s.builder.nextId P ∧ f.Merges q ∧
    f.selected.isSome = o ∧ ∀ l ∈ B, l ∈ f.labels

namespace Ctx.Builds

variable {s s' : Ctx} {B B' P P' : List Spirv.Id} {q o : Bool}

theorem isOpen (h : s.Builds B P q true) : s.Open := by
  obtain ⟨f, hf, -, -, ho, -⟩ := h.exists_func
  obtain ⟨b, hb⟩ := Option.isSome_iff_exists.mp ho
  exact ⟨f, b, hf, hb⟩

theorem perm (h : s.Builds B P q o) (hp : P.Perm P') : s.Builds B P' q o := by
  obtain ⟨f, hf, hb, hm, ho, hB⟩ := h.exists_func
  exact ⟨f, hf, hb.perm hp, hm, ho, hB⟩

theorem weaken (h : s.Builds B P q o) (hs : B' ⊆ B) : s.Builds B' P q o := by
  obtain ⟨f, hf, hb, hm, ho, hB⟩ := h.exists_func
  exact ⟨f, hf, hb, hm, ho, fun l hl => hB l (hs hl)⟩

/-- Plain code keeps everything. -/
theorem extend (h : s.Builds B P q o) {n : Spirv.Id} (hn : s.builder.nextId ≤ n)
    (cs : List Spirv.Constant) {is : List Spirv.Inst} (his : AllPlain is) :
    (s.extend n cs is).Builds B P q o := by
  obtain ⟨f, hf, hb, hm, ho, hB⟩ := h.exists_func
  refine ⟨f.appendAll is, ?_, (hb.plain his).mono hn, hm.plain his, ?_, ?_⟩
  · show s.builder.func.map _ = _
    rw [hf]
    rfl
  · show (f.selected.map _).isSome = o
    rw [Option.isSome_map]
    exact ho
  · rw [Spirv.Function.labels_appendAll]
    exact hB

theorem congr (h : s.Builds B P q o) (hb : s'.builder = s.builder) : s'.Builds B P q o := by
  obtain ⟨f, hf, hrest⟩ := h.exists_func
  refine ⟨f, ?_, ?_⟩
  · rw [hb]
    exact hf
  · rw [hb]
    exact hrest

end Ctx.Builds

variable {what : String}

theorem onFunction_ok {s s' : Ctx} {change : Spirv.Function → Option Spirv.Function} {u : Unit}
    (h : onFunction what change s = .ok (u, s')) :
    ∃ f f', s.builder.func = some f ∧ change f = some f' ∧
      s' = { s with builder := { s.builder with func := some f' } } := by
  unfold onFunction Spirv.Builder.onFunction at h
  cases hf : s.builder.func with
  | none =>
    simp only [hf] at h
    cases h
  | some f =>
    cases hc : change f with
    | none =>
      simp only [hf, hc] at h
      cases h
    | some f' =>
      simp only [hf, hc] at h
      cases h
      exact ⟨f, f', rfl, hc, rfl⟩

section

variable {s : Ctx} {B P : List Spirv.Id} {q o : Bool}

theorem builds_label (h : s.Builds B P q o) :
    Partial builderId s fun id s' => s'.Builds B (id :: P) q o := by
  intro id s' hs
  cases hs
  obtain ⟨f, hf, hb, hm, ho, hB⟩ := h.exists_func
  exact ⟨f, hf, hb.reserve, hm, ho, hB⟩

theorem builds_begin {l : Spirv.Id} (h : s.Builds B (l :: P) q o) :
    Partial (beginBlock l) s fun _ s' => s'.Builds (l :: B) P q true := by
  intro u s' hs
  obtain ⟨f, f', hf, hc, rfl⟩ := onFunction_ok hs
  obtain ⟨f₀, hf₀, hb, hm, -, hB⟩ := h.exists_func
  rw [hf] at hf₀
  cases hf₀
  have hlabels : f'.labels = f.labels ++ [l] := by
    simp [Spirv.Function.labels, Spirv.Function.blocks_begin hc]
  refine ⟨f', rfl, hb.begin_ hc, hm.begin_ hc, ?_, ?_⟩
  · obtain ⟨-, rfl⟩ := Spirv.Function.begin_eq_some hc
    rfl
  · intro k hk
    rw [hlabels]
    rcases List.mem_cons.mp hk with rfl | hk
    · exact List.mem_append_right _ (List.mem_singleton.mpr rfl)
    · exact List.mem_append_left _ (hB k hk)

theorem mem_labels {f : Spirv.Function} (hB : ∀ l ∈ B, l ∈ f.labels) {i : Spirv.Inst}
    (hi : ∀ l ∈ i.targets, l ∈ B ++ P) : ∀ l ∈ i.targets, l ∈ f.labels ++ P := by
  intro l hl
  rcases List.mem_append.mp (hi l hl) with h | h
  · exact List.mem_append_left _ (hB l h)
  · exact List.mem_append_right _ h

theorem builds_terminate {t : Spirv.Inst} (h : s.Builds B P q o) (ht : t.isTerminator = true)
    (htargets : ∀ l ∈ t.targets, l ∈ B ++ P) :
    Partial (terminate what t) s fun _ s' => s'.Builds B P q false := by
  intro u s' hs
  obtain ⟨f, f', hf, hc, rfl⟩ := onFunction_ok hs
  obtain ⟨f₀, hf₀, hb, hm, -, hB⟩ := h.exists_func
  rw [hf] at hf₀
  cases hf₀
  have hlabels : f'.labels = f.labels := by
    rw [Spirv.Function.labels, Spirv.Function.blocks_terminate hc]
    exact Spirv.Function.labels_appendAll f [t]
  refine ⟨f', rfl, hb.terminate ht (mem_labels hB htargets) hc, hm.terminate ht hc, ?_, ?_⟩
  · obtain ⟨b, hb, rfl⟩ := Spirv.Function.terminate_eq_some hc
    rfl
  · rw [hlabels]
    exact hB

theorem builds_terminate_merge (what : String) (cs : List Spirv.Constant) {m t : Spirv.Inst}
    {n : Spirv.Id} {is : List Spirv.Inst} (h : s.Builds B P q true)
    (hm : m.isMerge = true) (hmt : ∀ l ∈ m.targets, l ∈ B ++ P) (hn : s.builder.nextId ≤ n)
    (his : AllPlain is) (ht : t.isTerminator = true) (htargets : ∀ l ∈ t.targets, l ∈ B ++ P) :
    Partial (terminate what t) (s.extend n cs (m :: is)) fun _ s' =>
      s'.Builds B P (q && is.isEmpty) false := by
  intro u s' hs
  obtain ⟨g, f', hg, hc, rfl⟩ := onFunction_ok hs
  obtain ⟨f, hf, hb, hmerges, -, hB⟩ := h.exists_func
  have hg' : (s.extend n cs (m :: is)).builder.func = some (f.appendAll (m :: is)) := by
    show s.builder.func.map _ = _
    rw [hf]
    rfl
  rw [hg] at hg'
  cases hg'
  have hbuild : (f.appendAll (m :: is)).Building s.builder.nextId P := by
    apply hb.appendAll
    · exact List.forall_mem_cons.mpr ⟨(Spirv.Inst.isMerge_only hm).1,
        fun i hi => (Spirv.Inst.isPlain_only (his i hi)).1⟩
    · exact List.forall_mem_cons.mpr ⟨(Spirv.Inst.isMerge_only hm).2,
        fun i hi => (Spirv.Inst.isPlain_only (his i hi)).2.2.1⟩
    · refine List.forall_mem_cons.mpr ⟨mem_labels hB hmt, fun i hi l hl => ?_⟩
      rw [(Spirv.Inst.isPlain_only (his i hi)).2.2.2] at hl
      cases hl
  have hlabels : (f.appendAll (m :: is)).labels = f.labels := Spirv.Function.labels_appendAll _ _
  have hlabels' : f'.labels = f.labels := by
    rw [Spirv.Function.labels, Spirv.Function.blocks_terminate hc]
    exact (Spirv.Function.labels_appendAll _ [t]).trans hlabels
  refine ⟨f', rfl, ?_, hmerges.terminateMerge hm ht hc, ?_, ?_⟩
  · exact (hbuild.mono hn).terminate ht (mem_labels (hlabels.symm ▸ hB) htargets) hc
  · obtain ⟨b, hb, rfl⟩ := Spirv.Function.terminate_eq_some hc
    rfl
  · rw [hlabels']
    exact hB

theorem builds_terminated (h : s.Builds B P q o) :
    Partial isTerminated s fun b s' => b = !o ∧ s' = s := by
  intro b s' hs
  obtain ⟨s0, s1, h0, hs⟩ := bind_eq_ok hs
  cases h0
  obtain ⟨f, hf, -, -, ho, -⟩ := h.exists_func
  simp only [hf] at hs
  cases hs
  refine ⟨?_, rfl⟩
  rw [← ho]
  exact (Option.not_isSome f.selected).symm

end

/-! ## Statements -/

section

variable {s : Ctx} {B P : List Spirv.Id} {q o : Bool}

theorem builds_expr (e : Expr) (h : s.Builds B P q true) :
    Partial (emitExpr e) s fun _ s' => s'.Builds B P q true := by
  intro v s' hs
  obtain ⟨n, cs, is, hc, rfl⟩ := emitExpr_code _ e s v s' h.isOpen rfl hs
  exact h.extend hc.straight.le cs hc.straight.plain

theorem builds_append {i : Spirv.Inst} (h : s.Builds B P q true) (hi : i.isPlain = true) :
    Partial (append what i) s fun _ s' => s'.Builds B P q true := by
  intro u s' hs
  rw [append_ok h.isOpen hs]
  exact h.extend (Nat.le_refl _) [] (.cons hi .nil)

theorem builds_appendResult {i : Spirv.Id → Spirv.Inst} (h : s.Builds B P q true)
    (hi : ∀ id, (i id).isPlain = true) :
    Partial (appendResult what i) s fun _ s' => s'.Builds B P q true := by
  intro id s' hs
  obtain ⟨-, rfl⟩ := appendResult_ok h.isOpen hs
  exact h.extend (Nat.le_succ _) [] (.cons (hi _) .nil)

theorem builds_insertFront {i : Spirv.Inst} (h : s.Builds B P q o) (hi : i.isVariable = true) :
    Partial (insertFront i) s fun _ s' => s'.Builds B P q o := by
  intro u s' hs
  obtain ⟨f, hf, hb, hm, ho, hB⟩ := h.exists_func
  unfold insertFront Spirv.Builder.onFunction at hs
  cases hc : f.insertFront i with
  | none =>
    simp only [hf, hc] at hs
    cases hs
  | some f' =>
    simp only [hf, hc] at hs
    cases hs
    refine ⟨f', rfl, hb.insertFront hi hc, hm.insertFront hi hc, ?_, ?_⟩
    · rcases Spirv.Function.insertFront_eq_some hc with ⟨b, bs, hfin, rfl⟩ | ⟨b, hfin, hsel, rfl⟩
      · exact ho
      · rw [hsel] at ho
        exact ho
    · obtain ⟨b, bs, hb, hb'⟩ := Spirv.Function.blocks_insertFront hc
      rw [Spirv.Function.labels, hb']
      rw [Spirv.Function.labels, hb] at hB
      exact hB

theorem builds_read {α : Type} {f : Ctx → Outcome CodegenError α} (h : s.Builds B P q o) :
    Partial (Comp.read f) s fun _ s' => s'.Builds B P q o := by
  intro a s' hs
  obtain ⟨-, rfl⟩ := read_eq_ok hs
  exact h

theorem builds_allocLocal (ty : Ty) (h : s.Builds B P q o) :
    Partial (allocLocal ty) s fun _ s' => s'.Builds B P q o := by
  refine (builds_read h).bind fun tyId s1 h1 => ?_
  have hid : Partial builderId s1 fun _ s' => s'.Builds B P q o := by
    intro id s' hs
    cases hs
    obtain ⟨f, hf, hb, hrest⟩ := h1.exists_func
    exact ⟨f, hf, hb.mono (Nat.le_succ _), hrest⟩
  refine hid.bind fun id s2 h2 => ?_
  refine Partial.bind (Q := fun r s' => r = s' ∧ s'.Builds B P q o) ?_ ?_
  · intro r s' hs
    cases hs
    exact ⟨rfl, h2⟩
  · rintro r s3 ⟨rfl, h3⟩
    obtain ⟨f, hf, -⟩ := h3.exists_func
    simp only [hf]
    exact (builds_insertFront h3 rfl).bind fun _ _ h4 => .pure h4

theorem builds_addLocal (name : String) (l : Local) (h : s.Builds B P q o) :
    Partial (addLocal name l) s fun _ s' => s'.Builds B P q o := by
  intro u s' hs
  cases hs
  exact h.congr rfl

theorem builds_branch {l : Spirv.Id} (h : s.Builds B P q o) (hl : l ∈ B ++ P) :
    Partial (branchUnlessTerminated l) s fun _ s' => s'.Builds B P q false := by
  refine (builds_terminated h).bind ?_
  rintro b s1 ⟨rfl, rfl⟩
  cases o with
  | false => exact .pure h
  | true =>
    refine builds_terminate h rfl ?_
    simpa [Spirv.Inst.targets] using hl

end

/-- `x` keeps the function being built; its loops are as `quiet` says, and it ends the block as `ends`
    says. -/
def KeepsBuilding (x : Cg Unit) (quiet ends : Bool) : Prop :=
  ∀ {s : Ctx} {B P : List Spirv.Id} {q : Bool}, s.Builds B P q true →
    Partial x s fun _ s' => s'.Builds B P (q && quiet) (!ends)

theorem keepsBuilding_nothing : KeepsBuilding (pure ()) true false := by
  intro s B P q h
  rw [Bool.and_true]
  exact .pure h

theorem keepsBuilding_expr (e : Expr) :
    KeepsBuilding (do let _ ← emitExpr e; pure ()) true false := by
  intro s B P q h
  rw [Bool.and_true]
  exact (builds_expr e h).bind fun _ _ h1 => .pure h1

theorem keepsBuilding_return (e : Option Expr) : KeepsBuilding (emitReturn e) true true := by
  intro s B P q h
  rw [Bool.and_true]
  have hret : ∀ {s : Ctx}, s.Builds B P q true →
      Partial (terminate "ret" .ret) s fun _ s' => s'.Builds B P q false :=
    fun h => builds_terminate h rfl nofun
  cases e with
  | none => exact hret h
  | some e =>
    refine (builds_expr e h).bind fun v s1 h1 => ?_
    refine Partial.bind (Q := fun r s' => s'.Builds B P q true) ?_ fun r s2 h2 => ?_
    · intro r s' hs
      cases hs
      exact h1
    · cases r.outVar with
      | none => exact hret h2
      | some out => exact (builds_append h2 rfl).bind fun _ _ h3 => hret h3

theorem keepsBuilding_varDecl (vd : VarDecl) : KeepsBuilding (emitVarDecl vd) true false := by
  intro s B P q h
  rw [Bool.and_true]
  refine (builds_allocLocal vd.ty h).bind fun ptr s1 h1 => ?_
  cases vd.init with
  | none => exact builds_addLocal _ _ h1
  | some e =>
    refine (builds_expr e h1).bind fun v s2 h2 => ?_
    exact (builds_append h2 rfl).bind fun _ _ h3 => builds_addLocal _ _ h3

variable {Q : Unit → Ctx → Prop}

/-- A block that runs to `target`: an arm of an `if`, or the body of a loop. -/
theorem builds_arm {x k : Cg Unit} {quiet ends : Bool} (hx : KeepsBuilding x quiet ends) {s : Ctx}
    {B P : List Spirv.Id} {q : Bool} {label target : Spirv.Id} (h : s.Builds B (label :: P) q false)
    (ht : target ∈ B ++ P) (hk : ∀ s', s'.Builds B P (q && quiet) false → Partial k s' Q) :
    Partial (do beginBlock label; x; branchUnlessTerminated target; k) s Q := by
  refine (builds_begin h).bind fun _ s1 h1 => ?_
  refine (hx (h1.weaken (List.subset_cons_self _ _))).bind fun _ s2 h2 => ?_
  exact (builds_branch h2 ht).bind fun _ s3 h3 => hk s3 h3

theorem builds_select {k : Cg Unit} {s : Ctx} {B P : List Spirv.Id} {q : Bool}
    {cond then_ else_ merge : Spirv.Id} (h : s.Builds B P q true) (hthen : then_ ∈ P)
    (helse : else_ ∈ P) (hmerge : merge ∈ P) (hk : ∀ s', s'.Builds B P q false → Partial k s' Q) :
    Partial (do
      append "selection_merge" (.selectionMerge merge)
      terminate "branch_conditional" (.branchConditional cond then_ else_)
      k) s Q := by
  refine Partial.bind (Q := fun _ s' => s' = s.extend s.builder.nextId [] [.selectionMerge merge])
    (fun _ _ hs => append_ok h.isOpen hs) ?_
  rintro u _ rfl
  have hterm := builds_terminate_merge "branch_conditional" [] (n := s.builder.nextId)
    (m := .selectionMerge merge) (t := .branchConditional cond then_ else_) h rfl
    (by simp [Spirv.Inst.targets, hmerge]) (Nat.le_refl _) AllPlain.nil rfl
    (by simp [Spirv.Inst.targets, hthen, helse])
  refine hterm.bind fun _ s2 h2 => hk s2 ?_
  rw [List.isEmpty_nil, Bool.and_true] at h2
  exact h2

theorem builds_condId (cond : Expr) {k : Spirv.Id → Cg Unit} {s : Ctx} {B P : List Spirv.Id}
    {q : Bool} (h : s.Builds B P q true) (hk : ∀ id s', s'.Builds B P q true → Partial (k id) s' Q) :
    Partial (do
      let v ← emitExpr cond
      let id ← coerceToBool v
      k id) s Q := by
  refine (builds_expr cond h).bind fun v s1 h1 => ?_
  refine Partial.bind (Q := fun _ s' => s'.Builds B P q true) ?_ fun id s2 h2 => hk id s2 h2
  intro cid s' hs
  obtain ⟨is, hb, rfl⟩ := coerceToBool_ok h1.isOpen hs
  exact h1.extend (Nat.le_add_right _ _) [] (coerceToBoolOut_straight hb).plain

variable {quiet ends quiet' ends' : Bool}

variable {x y : Cg Unit}

theorem keepsBuilding_if_else (cond : Expr) (hx : KeepsBuilding x quiet ends)
    (hy : KeepsBuilding y quiet' ends') :
    KeepsBuilding (emitIf cond x (some y)) (quiet && quiet') false := by
  intro s B P q h
  refine builds_condId cond h fun id s1 h1 => ?_
  refine (builds_label h1).bind fun thenLabel s2 h2 => ?_
  refine (builds_label h2).bind fun mergeLabel s3 h3 => ?_
  refine (builds_label h3).bind fun elseLabel s4 h4 => ?_
  have hperm : (elseLabel :: mergeLabel :: thenLabel :: P).Perm
      (thenLabel :: elseLabel :: mergeLabel :: P) := by
    have hswap : ([elseLabel, mergeLabel] ++ [thenLabel]).Perm ([thenLabel] ++ [elseLabel, mergeLabel]) :=
      List.perm_append_comm
    exact hswap.append_right P
  refine builds_select (h4.perm hperm) (by simp) (by simp) (by simp) fun s5 h5 => ?_
  refine builds_arm hx h5 (by simp) fun s6 h6 => ?_
  refine builds_arm hy h6 (by simp) fun s7 h7 => ?_
  refine (builds_begin h7).mono fun _ s8 h8 => ?_
  rw [Bool.and_assoc] at h8
  exact h8.weaken (List.subset_cons_self _ _)

theorem keepsBuilding_if (cond : Expr) {x : Cg Unit} {quiet ends : Bool}
    (hx : KeepsBuilding x quiet ends) : KeepsBuilding (emitIf cond x none) quiet false := by
  intro s B P q h
  refine builds_condId cond h fun id s1 h1 => ?_
  refine (builds_label h1).bind fun thenLabel s2 h2 => ?_
  refine (builds_label h2).bind fun mergeLabel s3 h3 => ?_
  refine builds_select (h3.perm (.swap _ _ _)) (by simp) (by simp) (by simp) fun s4 h4 => ?_
  refine builds_arm hx h4 (by simp) fun s5 h5 => ?_
  refine (builds_begin h5).mono fun _ s6 h6 => ?_
  exact h6.weaken (List.subset_cons_self _ _)

/-- The header of a loop: the merge, the condition's code and the branch. -/
theorem builds_header (cond : Option Expr) {s : Ctx} {B P : List Spirv.Id} {q : Bool}
    {body merge continue_ : Spirv.Id} (h : s.Builds B P q true) (hbody : body ∈ P)
    (hmerge : merge ∈ P) (hcontinue : continue_ ∈ P) {k : Cg Unit}
    (hk : ∀ s', s'.Builds B P (q && condQuiet cond) false → Partial k s' Q) :
    Partial (do
      append "loop_merge" (.loopMerge merge continue_)
      emitForCond cond body merge
      k) s Q := by
  refine Partial.bind
    (Q := fun _ s' => s' = s.extend s.builder.nextId [] [.loopMerge merge continue_])
    (fun _ _ hs => append_ok h.isOpen hs) ?_
  rintro u _ rfl
  have hm : ∀ l ∈ (Spirv.Inst.loopMerge merge continue_).targets, l ∈ B ++ P := by
    simp [Spirv.Inst.targets, hmerge, hcontinue]
  cases cond with
  | none =>
    have hterm := builds_terminate_merge "branch" [] (n := s.builder.nextId)
      (m := .loopMerge merge continue_) (t := .branch body) h rfl hm (Nat.le_refl _) AllPlain.nil rfl
      (by simp [Spirv.Inst.targets, hbody])
    exact hterm.bind fun _ s2 h2 => hk s2 h2
  | some c =>
    have hs : (s.extend s.builder.nextId [] [.loopMerge merge continue_]).Open :=
      h.isOpen.extend _ _ _
    refine Partial.bind (Q := fun _ s' => s'.Builds B P (q && c.isBoolConstant) false) ?_
      fun _ s2 h2 => hk s2 h2
    intro u s' hs'
    obtain ⟨v, s1, h1, hs'⟩ := bind_eq_ok hs'
    obtain ⟨n, cs, is, hc, rfl⟩ := emitExpr_code _ c _ v s1 hs rfl h1
    obtain ⟨cid, s2, h2, hs'⟩ := bind_eq_ok hs'
    obtain ⟨is', hb, rfl⟩ := coerceToBool_ok (hs.extend _ _ _) h2
    rw [Ctx.extend_extend, Ctx.extend_extend] at hs'
    have hle : s.builder.nextId ≤ n + is'.length := Nat.le_add_right_of_le hc.straight.le
    rw [← hc.cond_isEmpty hb]
    exact builds_terminate_merge _ _ (t := .branchConditional cid body merge) h rfl hm hle
      (hc.straight.plain.append (coerceToBoolOut_straight hb).plain) rfl
      (by simp [Spirv.Inst.targets, hbody, hmerge]) u s' hs'

theorem builds_update (update : Option Expr) {s : Ctx} {B P : List Spirv.Id} {q : Bool}
    (h : s.Builds B P q true) :
    Partial (emitUpdate update) s fun _ s' => s'.Builds B P q true := by
  cases update with
  | none => exact .pure h
  | some u => exact (builds_expr u h).bind fun _ _ h1 => .pure h1

theorem keepsBuilding_for (cond update : Option Expr) (hx : KeepsBuilding x quiet ends)
    (hy : KeepsBuilding y quiet' ends') :
    KeepsBuilding (emitFor x cond update y) (quiet && (ends || (condQuiet cond && quiet'))) ends := by
  intro s B P q h
  refine (hx h).bind fun _ s1 h1 => ?_
  refine (builds_terminated h1).bind ?_
  rintro b s2 ⟨rfl, rfl⟩
  cases ends with
  | true =>
    rw [Bool.true_or, Bool.and_true]
    exact .pure h1
  | false =>
    refine (builds_label h1).bind fun header s3 h3 => ?_
    refine (builds_label h3).bind fun body s4 h4 => ?_
    refine (builds_label h4).bind fun continue_ s5 h5 => ?_
    refine (builds_label h5).bind fun merge s6 h6 => ?_
    have hperm : (merge :: continue_ :: body :: header :: P).Perm
        (header :: body :: continue_ :: merge :: P) :=
      (List.reverse_perm [header, body, continue_, merge]).append_right P
    refine (builds_terminate (h6.perm hperm) rfl (by simp [Spirv.Inst.targets])).bind
      fun _ s7 h7 => ?_
    refine (builds_begin h7).bind fun _ s8 h8 => ?_
    refine builds_header cond h8 (by simp) (by simp) (by simp) fun s9 h9 => ?_
    refine builds_arm hy h9 (by simp) fun s10 h10 => ?_
    refine (builds_begin h10).bind fun _ s11 h11 => ?_
    refine (builds_update update h11).bind fun _ s12 h12 => ?_
    refine (builds_terminate h12 rfl (by simp [Spirv.Inst.targets])).bind fun _ s13 h13 => ?_
    refine (builds_begin h13).mono fun _ s14 h14 => ?_
    rw [Bool.and_assoc, Bool.and_assoc] at h14
    have hsub : B ⊆ [merge, continue_, header] ++ B := List.subset_append_right _ _
    exact h14.weaken hsub

theorem keepsBuilding_cons (hx : KeepsBuilding x quiet ends) (hy : KeepsBuilding y quiet' ends') :
    KeepsBuilding (do x; if ← isTerminated then pure () else y) (quiet && (ends || quiet'))
      (ends || ends') := by
  intro s B P q h
  refine (hx h).bind fun _ s1 h1 => ?_
  refine (builds_terminated h1).bind ?_
  rintro b s2 ⟨rfl, rfl⟩
  cases ends with
  | true =>
    rw [Bool.true_or, Bool.and_true]
    exact .pure h1
  | false =>
    have := hy h1
    rw [Bool.and_assoc] at this
    exact this

mutual

theorem keepsBuilding_stmt : ∀ st : Stmt, KeepsBuilding (emitStmt st) st.forsQuiet st.ends
  | .return_ e => by
      unfold emitStmt
      exact keepsBuilding_return e
  | .varDecl vd => by
      unfold emitStmt
      exact keepsBuilding_varDecl vd
  | .expr e => by
      unfold emitStmt
      exact keepsBuilding_expr e
  | .if_ cond then_ none => by
      unfold emitStmt Stmt.forsQuiet elseForsQuiet
      rw [Bool.and_true]
      exact keepsBuilding_if cond (keepsBuilding_block then_)
  | .if_ cond then_ (some else_) => by
      unfold emitStmt Stmt.forsQuiet elseForsQuiet
      exact keepsBuilding_if_else cond (keepsBuilding_block then_) (keepsBuilding_block else_)
  | .for_ init cond update body => by
      unfold emitStmt Stmt.forsQuiet Stmt.ends
      exact keepsBuilding_for cond update (keepsBuilding_init init) (keepsBuilding_block body)
  | .block b => by
      unfold emitStmt Stmt.forsQuiet Stmt.ends
      exact keepsBuilding_block b

theorem keepsBuilding_block : ∀ b : List Stmt,
    KeepsBuilding (emitBlock b) (blockForsQuiet b) (blockEnds b)
  | [] => keepsBuilding_nothing
  | s :: rest => by
      unfold emitBlock blockForsQuiet blockEnds
      exact keepsBuilding_cons (keepsBuilding_stmt s) (keepsBuilding_block rest)

theorem keepsBuilding_init : ∀ init : Option Stmt,
    KeepsBuilding (emitInit init) (initForsQuiet init) (initEnds init)
  | none => keepsBuilding_nothing
  | some s => by
      unfold emitInit initForsQuiet initEnds
      exact keepsBuilding_stmt s

end

/-! ## The entry function -/

theorem builds_entry (s : Ctx) :
    Partial beginEntryFunction s fun _ s' => s'.Builds [] [] true true := by
  refine .bind_any fun fn s1 => ?_
  refine Partial.bind (Q := fun _ s' => s'.Builds [] [] true false) ?_ fun _ s2 h2 => ?_
  · intro u s' hs
    cases hs
    refine ⟨⟨fn, [], none⟩, rfl, ?_, ⟨nofun, nofun⟩, rfl, nofun⟩
    exact ⟨List.nodup_nil, nofun, nofun, nofun, nofun, trivial⟩
  · refine (builds_label h2).bind fun label s3 h3 => ?_
    refine (builds_begin h3).mono fun _ s4 h4 => ?_
    exact h4.weaken (List.subset_cons_self _ _)

section

variable {s : Ctx} {B P : List Spirv.Id} {q o : Bool}

theorem builds_paramGlobals (ps : List Param) :
    ∀ {s : Ctx}, s.Builds B P q o → Partial (paramGlobals ps) s fun _ s' => s'.Builds B P q o := by
  induction ps with
  | nil => exact fun h => .pure h
  | cons p rest ih =>
    intro s h
    refine Partial.bind (Q := fun _ s' => s'.Builds B P q o) ?_ fun r s1 h1 => ?_
    · intro r s' hs
      cases hs
      exact h
    · cases r.globals.lookup p.name with
      | none => exact .throw
      | some g => exact (ih h1).bind fun _ _ h2 => .pure h2

theorem builds_copyParams (ps : List (String × Spirv.Id × Ty)) :
    ∀ {s : Ctx}, s.Builds B P q true →
      Partial (copyParams ps) s fun _ s' => s'.Builds B P q true := by
  induction ps with
  | nil => exact fun h => .pure h
  | cons p rest ih =>
    intro s h
    obtain ⟨name, globalPtr, ty⟩ := p
    refine (builds_allocLocal ty h).bind fun _ s1 h1 => ?_
    refine (builds_read h1).bind fun _ s2 h2 => ?_
    refine (builds_appendResult h2 fun _ => rfl).bind fun _ s3 h3 => ?_
    refine (builds_append h3 rfl).bind fun _ s4 h4 => ?_
    exact (builds_addLocal _ _ h4).bind fun _ s5 h5 => ih h5

theorem builds_body (main : FunctionDecl) (h : s.Builds [] [] true true) :
    Partial (emitFunctionBody main) s fun _ s' =>
      ∃ body, main.body = some body ∧ s'.Builds [] [] (blockForsQuiet body) false := by
  refine (builds_paramGlobals main.params h).bind fun ps s1 h1 => ?_
  refine (builds_copyParams ps h1).bind fun _ s2 h2 => ?_
  cases hbody : main.body with
  | none => exact .throw
  | some body =>
    refine (keepsBuilding_block body h2).bind fun _ s3 h3 => ?_
    refine (builds_terminated h3).bind ?_
    rintro b s4 ⟨rfl, rfl⟩
    cases hends : blockEnds body with
    | true =>
      rw [hends] at h3
      exact .pure ⟨body, rfl, h3⟩
    | false =>
      refine (builds_terminate (t := .ret) h3 rfl nofun).mono fun _ s5 h5 => ?_
      exact ⟨body, rfl, h5⟩

end

/-- What the entry point of the module is. -/
def MainBuilt (main : FunctionDecl) (s : Ctx) : Prop :=
  ∃ body, main.body = some body ∧ s.Builds [] [] (blockForsQuiet body) false

theorem builds_main (main : FunctionDecl) (s : Ctx) :
    Partial (emitMain main) s fun _ s' => MainBuilt main s' := by
  refine .bind_any fun _ s1 => .bind_any fun _ s2 => ?_
  refine (builds_entry s2).bind fun _ s3 h3 => ?_
  refine (builds_body main h3).bind fun _ s4 h4 => ?_
  refine Partial.bind (Q := fun r s' => r = s' ∧ MainBuilt main s') ?_ ?_
  · intro r s' hs
    cases hs
    exact ⟨rfl, h4⟩
  · rintro r s5 ⟨rfl, body, hbody, h5⟩
    obtain ⟨f, hf, hrest⟩ := h5.exists_func
    simp only [hf]
    intro u s' hs
    cases hs
    exact ⟨body, hbody, f, hf, hrest⟩

/-- What `codegen` returns comes from a run over the declarations and the entry point. -/
theorem codegen_ok {unit : TranslationUnit} {stage : ShaderStage} {b : Spirv.Builder}
    (h : codegen unit stage = .ok b) :
    ∃ main s s', findMain unit.decls = some main ∧
      emitGlobals unit.decls (Ctx.new stage) = .ok ((), s) ∧ emitMain main s = .ok ((), s') ∧
      s'.builder = b := by
  unfold codegen at h
  cases hmain : findMain unit.decls with
  | none =>
    simp only [hmain] at h
    split at h
    · next u s' hrun =>
      obtain ⟨_, s, -, hrun⟩ := bind_eq_ok hrun
      cases hrun
    · cases h
    · cases h
    · cases h
  | some main =>
    simp only [hmain] at h
    split at h
    · next u s' hrun =>
      cases h
      obtain ⟨_, s, hglobals, hrun⟩ := bind_eq_ok hrun
      exact ⟨main, s, s', rfl, hglobals, hrun, rfl⟩
    · cases h
    · cases h
    · cases h

/-- The function of a module that `codegen` returns is well structured, but for the merge of each
    loop that is emitted and whose condition needs an instruction. -/
theorem codegen_structured_iff {unit : TranslationUnit} {stage : ShaderStage} {b : Spirv.Builder}
    (h : codegen unit stage = .ok b) :
    ∃ main body f, findMain unit.decls = some main ∧ main.body = some body ∧ b.func = some f ∧
      (Spirv.Structured f.blocks ↔ blockForsQuiet body = true) := by
  obtain ⟨main, s, s', hmain, -, hrun, rfl⟩ := codegen_ok h
  obtain ⟨body, hbody, hbuilt⟩ := builds_main main s () s' hrun
  obtain ⟨f, hf, hbuilding, hmerges, hsel, -⟩ := hbuilt.exists_func
  refine ⟨main, body, f, hmain, hbody, hf, hbuilding.structured_iff hmerges ?_⟩
  exact Option.not_isSome_iff_eq_none.mp (by simp [hsel])

/-- `float4 main() : SV_Target { for (int i = 0; i < 1; i = i + 1) { } return float4(0.0); }` -/
def countingLoop : TranslationUnit where
  decls := [.function {
    returnType := .vector .float 4
    name := "main"
    params := []
    semantic := some "SV_Target"
    body := some [
      .for_ (some (.varDecl ⟨.scalar .int, "i", some (.literal (.int 0)), none⟩))
        (some (.binary .lt (.ident "i") (.literal (.int 1))))
        (some (.binary .assign (.ident "i") (.binary .add (.ident "i") (.literal (.int 1))))) [],
      .return_ (some (.construct (.vector .float 4) [.literal (.float 0)]))] }]

/-- `float4 main() : SV_Target { for (;;) { return float4(0.0); } }` -/
def endlessLoop : TranslationUnit where
  decls := [.function {
    returnType := .vector .float 4
    name := "main"
    params := []
    semantic := some "SV_Target"
    body := some [.for_ none none none
      [.return_ (some (.construct (.vector .float 4) [.literal (.float 0)]))]] }]

theorem codegen_structured_iff_endlessLoop : ∃ b f, codegen endlessLoop .pixel = .ok b ∧
    b.func = some f ∧ Spirv.Structured f.blocks := by
  have hok : (codegen endlessLoop .pixel).okWith (fun _ => true) = true := by decide +kernel
  obtain ⟨b, hb, -⟩ := Outcome.exists_of_okWith hok
  obtain ⟨main, body, f, hmain, hbody, hf, hiff⟩ := codegen_structured_iff hb
  cases hmain
  cases hbody
  exact ⟨b, f, hb, hf, hiff.mpr rfl⟩

/-- The header block of the counting loop is `OpLoopMerge`, `OpLoad`, `OpSLessThan`,
    `OpBranchConditional`. -/
theorem countingLoop_not_structured : ∃ b f, codegen countingLoop .pixel = .ok b ∧
    b.func = some f ∧ ¬ Spirv.Structured f.blocks := by
  have hrun : (codegen countingLoop .pixel).okWith (fun b =>
      b.func.any fun f => f.blocks.any fun c => !decide (Spirv.MergesLast c.body)) = true := by
    decide +kernel
  obtain ⟨b, hb, happ⟩ := Outcome.exists_of_okWith hrun
  obtain ⟨f, hf, hany⟩ := (Option.any_eq_true _ _).mp happ
  obtain ⟨c, hc, hbad⟩ := List.any_eq_true.mp hany
  refine ⟨b, f, hb, hf, fun hs => ?_⟩
  simp [hs.merges c hc] at hbad

end WinCompat.Hlsl
