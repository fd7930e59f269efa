import WinCompat.Hlsl.Lockstep
import WinCompat.Hlsl.UnitTyping

/-!
# Where names are resolved lexically

A module is compiled as by the emitter with scopes exactly when every identifier in the body of
`main` that is emitted is in scope: the last declaration of its name before it, if there is one, is
in a block that is still open.
-/

namespace WinCompat.Hlsl

open Lib Lib.Comp

/-! ## Statements -/

section

variable {m : Spirv.Id} {base : List (String × Local)} {v new new' : Scopes} {good good' : Prop}
  {o o' : Bool}

theorem pair_expr (e : Expr) (v : Scopes) :
    Lockstep m base (emitExpr e) (emitExpr e) v (e.InScope v) [] true true where
  left := tracks_expr e
  right := tracks_expr e
  locked := by
    intro hscope es s t a s' hlock ho hv hok
    rw [← hv] at hscope
    obtain ⟨t', ht, hlock'⟩ :=
      hlock.reads (reads_expr e) hscope hok (tracks_expr e s a s' hlock.home ho hok).2
    exact ⟨[], t', ht, hlock', rfl⟩
  apart := by
    intro hscope es s t a b s' t' hlock ho hv hok hok'
    rw [← hv] at hscope
    obtain ⟨d, hd, hat, hun⟩ := hlock.expr_apart ho hscope hok hok'
    have hs := (tracks_expr e s a s' hlock.home ho hok).2
    have ht := (tracks_expr e t b t' hlock.home' (hlock.openIs ho) hok').2
    have hlt := hlock.below d hd
    have hlt' : d.local_.ptr < t.builder.nextId := by
      rw [hlock.others]
      exact hlt
    exact ⟨_, hat, Nat.lt_of_lt_of_le hlt hs.next, Nat.lt_of_lt_of_le hlt' ht.next, hun⟩

theorem pair_value (e : Expr) (v : Scopes) :
    Lockstep m base (do let _ ← emitExpr e; pure ()) (do let _ ← emitExpr e; pure ()) v
      (e.InScope v) [] true true :=
  (pair_expr e v).after fun _ => .pure ()

theorem optInScope_none : OptInScope v none := nofun

theorem optInScope_some {e : Expr} : OptInScope v (some e) ↔ e.InScope v := by
  simp [OptInScope]

theorem pair_return (e : Option Expr) (v : Scopes) :
    Lockstep m base (emitReturn e) (emitReturn e) v (OptInScope v e) [] true false := by
  cases e with
  | none => exact (Lockstep.plain (plain_terminate _ rfl)).congr (iff_of_true trivial nofun) rfl
  | some e =>
    refine ((pair_expr e v).after fun val => ⟨?_, tracks_output val⟩).congr optInScope_some.symm rfl
    refine .get (fun s => ?_) fun s L _ => rfl
    cases s.outVar with
    | none => exact reads_onFunction _ _
    | some out => exact (reads_onFunction _ _).bind fun _ => reads_onFunction _ _

/-! ### Scopes -/

theorem inScope_ok {x : Cg Unit} {s s' : Ctx} {u : Unit} (h : inScope x s = .ok (u, s')) :
    ∃ s₁, x s = .ok ((), s₁) ∧ s' = s₁.withLocals s.locals := by
  obtain ⟨s₀, s₁, h0, h⟩ := bind_eq_ok h
  cases h0
  obtain ⟨u₁, s₂, h1, h2⟩ := bind_eq_ok h
  cases h2
  exact ⟨s₂, h1, rfl⟩

theorem inScope_eq {x : Cg Unit} {s s₁ : Ctx} (h : x s = .ok ((), s₁)) :
    inScope x s = .ok ((), s₁.withLocals s.locals) := by
  show (do x; Comp.modify fun s' => s'.withLocals s.locals : Cg Unit) s = _
  rw [bind_ok h]
  rfl

theorem Step.withLocals {n : Spirv.Id} {s s₁ : Ctx} (h : Step m n s s₁) :
    Step m n s (s₁.withLocals s.locals) where
  home := ⟨h.home.globals, h.home.members, h.home.out, h.home.next⟩
  next := h.next
  le := h.le
  unnamed := fun ptr hm hlt hu => ⟨(h.unnamed ptr hm hlt hu).1, hu⟩

theorem tracks_inScope {x : Cg Unit} (h : Tracks m x o o') : Tracks m (inScope x) o o' := by
  intro s u s' hs ho hok
  obtain ⟨s₁, h1, rfl⟩ := inScope_ok hok
  obtain ⟨ho₁, hstep⟩ := h s () s₁ hs ho h1
  exact ⟨ho₁, hstep.withLocals⟩

theorem Lock.close {es es' : List Entry} {s t t' : Ctx} (h : Lock m base (es' ++ es) s t')
    (ht : t.locals = openLocals es ++ base) :
    Lock m base (es'.map Entry.close ++ es) s (t'.withLocals t.locals) where
  locals := by rw [h.locals, allLocals_append, allLocals_append, allLocals_close]
  others := by
    rw [openLocals_append, openLocals_close, List.nil_append, ht, h.others]
    rfl
  nodup := by
    have hmap : (es'.map Entry.close ++ es).map (fun e => e.local_.ptr) =
        (es' ++ es).map fun e => e.local_.ptr := by
      simp [Entry.close]
    rw [hmap]
    exact h.nodup
  from_ := by
    intro e he
    rcases List.mem_append.1 he with he | he
    · obtain ⟨e', he', rfl⟩ := List.mem_map.1 he
      exact h.from_ e' (List.mem_append_left _ he')
    · exact h.from_ e (List.mem_append_right _ he)
  below := by
    intro e he
    rcases List.mem_append.1 he with he | he
    · obtain ⟨e', he', rfl⟩ := List.mem_map.1 he
      exact h.below e' (List.mem_append_left _ he')
    · exact h.below e (List.mem_append_right _ he)
  before := h.before
  home := h.home

theorem pair_inScope {x y : Cg Unit} (h : Lockstep m base x y v good new o o') :
    Lockstep m base x (inScope y) v good new.close o o' where
  left := h.left
  right := tracks_inScope h.right
  locked := by
    intro hg es s t a s' hlock ho hv hok
    obtain ⟨es', t', ht, hlock', hnew⟩ := h.locked hg es s t a s' hlock ho hv hok
    refine ⟨es'.map Entry.close, t'.withLocals t.locals, inScope_eq ht, ?_, ?_⟩
    · exact hlock'.close (by rw [hlock.others]; rfl)
    · rw [scopesOf_close, hnew]
  apart := by
    intro hbad es s t a b s' t' hlock ho hv hok hok'
    obtain ⟨t₁, h1, rfl⟩ := inScope_ok hok'
    obtain ⟨ptr, hat, hlt, hlt', hun⟩ := h.apart hbad es s t a () s' t₁ hlock ho hv hok h1
    exact ⟨ptr, ⟨hat.le, hun, hat.uses⟩, hlt, hlt', hun⟩

/-! ### Declarations -/

theorem plain_allocLocal (ty : Ty) : Plain m (allocLocal ty) o o := by
  refine ⟨(reads_typeId ty).bind fun st => reads_builderId.bind fun id => ?_, tracks_allocLocal ty⟩
  refine .get (fun s => ?_) fun s L _ => rfl
  cases s.builder.func with
  | none => exact .throw _
  | some f => exact (reads_insertFront _).bind fun _ => .pure id

theorem Lock.addLocal {es : List Entry} {s t : Ctx} {name : String} {l : Local}
    (h : Lock m base es s t) (hm : m ≤ l.ptr) (hlt : l.ptr < s.builder.nextId)
    (hnew : ∀ e ∈ es, e.local_.ptr ≠ l.ptr) :
    Lock m base (⟨name, l, true⟩ :: es) { s with locals := (name, l) :: s.locals }
      { t with locals := (name, l) :: t.locals } where
  locals := by
    show (name, l) :: s.locals = _
    rw [h.locals]
    rfl
  others := by
    rw [h.others, openLocals_of_open rfl]
    rfl
  nodup := by
    refine List.nodup_cons.2 ⟨fun hmem => ?_, h.nodup⟩
    obtain ⟨e, he, hptr⟩ := List.mem_map.1 hmem
    exact hnew e he hptr
  from_ := List.forall_mem_cons.2 ⟨hm, h.from_⟩
  below := List.forall_mem_cons.2 ⟨hlt, h.below⟩
  before := h.before
  home := ⟨h.home.globals, h.home.members, h.home.out, h.home.next⟩

theorem step_initialised {s s₁ s' : Ctx} {name : String} {ty : Ty} {ptr n : Spirv.Id} {val : Val}
    {u : Unit} (hs : s.Home m) (ho : s.Open) (hn : n ≤ ptr)
    (h1 : store ptr val.id s = .ok (u, s₁)) (h2 : addLocal name ⟨ptr, ty⟩ s₁ = .ok (u, s')) :
    Step m n s s' := by
  obtain ⟨-, hstep⟩ := step_append (n := n) hs ho rfl h1 fun p _ hlt => by
    have hne : ptr ≠ p := (Nat.ne_of_lt (Nat.lt_of_lt_of_le hlt hn)).symm
    simp [Spirv.Inst.pointer, hne]
  exact hstep.addLocal hn h2

theorem Lock.allocLocal {es : List Entry} {s t s₁ : Ctx} {ty : Ty} {ptr : Spirv.Id}
    (h : Lock m base es s t) (ho : s.OpenIs o) (hok : allocLocal ty s = .ok (ptr, s₁)) :
    s₁.OpenIs o ∧ ptr = s.builder.nextId ∧ ptr < s₁.builder.nextId ∧
      ∃ t₁, Hlsl.allocLocal ty t = .ok (ptr, t₁) ∧ Lock m base es s₁ t₁ := by
  obtain ⟨ho₁, hstep⟩ := tracks_allocLocal ty s ptr s₁ h.home ho hok
  obtain ⟨t₁, ht, hlock⟩ := h.reads (@plain_allocLocal m o ty).reads nofun hok hstep
  obtain ⟨st, f', -, rfl, rfl, -⟩ := allocLocal_ok ho hok
  exact ⟨ho₁, rfl, Nat.lt_succ_self _, t₁, ht, hlock⟩

theorem pair_varDecl (vd : VarDecl) (v : Scopes) :
    Lockstep m base (emitVarDecl vd) (emitVarDecl vd) v (OptInScope v vd.init) [(vd.name, true)]
      true true where
  left := tracks_varDecl vd
  right := tracks_varDecl vd
  locked := by
    obtain ⟨ty, name, init, semantic⟩ := vd
    intro hscope es s t u s' hlock ho hv hok
    obtain ⟨ptr, s₁, h1, hok⟩ := bind_eq_ok hok
    obtain ⟨ho₁, hptr, hlt, t₁, ht₁, hlock₁⟩ := hlock.allocLocal ho h1
    have hm : m ≤ ptr := hptr ▸ hlock.home.next
    have hnew : ∀ e ∈ es, e.local_.ptr ≠ ptr := fun e he =>
      Nat.ne_of_lt (hptr ▸ hlock.below e he)
    cases init with
    | none =>
      cases hok
      refine ⟨[⟨name, ⟨ptr, ty⟩, true⟩], _, ?_, hlock₁.addLocal hm hlt hnew, rfl⟩
      exact bind_ok ht₁
    | some e =>
      obtain ⟨val, s₂, h2, hok⟩ := bind_eq_ok hok
      obtain ⟨u₃, s₃, h3, hok⟩ := bind_eq_ok hok
      cases hok
      rw [optInScope_some, ← hv] at hscope
      obtain ⟨ho₂, hstep₂⟩ := tracks_expr e s₁ val s₂ hlock₁.home ho₁ h2
      obtain ⟨t₂, ht₂, hlock₂⟩ := hlock₁.reads (reads_expr e) hscope h2 hstep₂
      obtain ⟨-, hstep₃⟩ := step_append (n := m) hlock₂.home ho₂.isOpen rfl h3 fun p hp hlt' =>
        absurd hlt' (Nat.not_lt_of_le hp)
      obtain ⟨t₃, ht₃, hlock₃⟩ :=
        hlock₂.reads (@reads_onFunction [] "store" (·.append (.store ptr val.id))) nofun h3 hstep₃
      have hlt₃ : ptr < s₃.builder.nextId :=
        Nat.lt_of_lt_of_le hlt (Nat.le_trans hstep₂.next hstep₃.next)
      refine ⟨[⟨name, ⟨ptr, ty⟩, true⟩], _, ?_, hlock₃.addLocal hm hlt₃ hnew, rfl⟩
      exact (bind_ok ht₁).trans ((bind_ok ht₂).trans (bind_ok ht₃))
  apart := by
    intro hscope es s t u u' s' t' hlock ho hv hok hok'
    have hnext := (tracks_varDecl vd s u s' hlock.home ho hok).2.next
    have hnext' := (tracks_varDecl vd t u' t' hlock.home' (hlock.openIs ho) hok').2.next
    obtain ⟨ty, name, init, semantic⟩ := vd
    cases init with
    | none => exact absurd optInScope_none hscope
    | some e =>
      obtain ⟨ptr, s₁, h1, hok⟩ := bind_eq_ok hok
      obtain ⟨val, s₂, h2, hok⟩ := bind_eq_ok hok
      obtain ⟨u₃, s₃, h3, hok⟩ := bind_eq_ok hok
      obtain ⟨ho₁, hptr, -, t₁, ht₁, hlock₁⟩ := hlock.allocLocal ho h1
      obtain ⟨ptr', t₁', h1', hok'⟩ := bind_eq_ok hok'
      obtain ⟨rfl, rfl⟩ : ptr = ptr' ∧ t₁ = t₁' := by simpa [ht₁] using h1'
      obtain ⟨val', t₂, h2', hok'⟩ := bind_eq_ok hok'
      obtain ⟨u₃', t₃, h3', hok'⟩ := bind_eq_ok hok'
      rw [optInScope_some, ← hv] at hscope
      obtain ⟨d, hd, hat, hun⟩ := hlock₁.expr_apart ho₁ hscope h2 h2'
      -- The variable is not the closed entry's, so what follows leaves the two apart.
      have hlt : d.local_.ptr < ptr := hptr ▸ hlock.below d hd
      obtain ⟨ho₂, hstep₂⟩ := tracks_expr e s₁ val s₂ hlock₁.home ho₁ h2
      obtain ⟨ho₂', hstep₂'⟩ := tracks_expr e t₁ val' t₂ hlock₁.home' (hlock₁.openIs ho₁) h2'
      have hs := step_initialised hstep₂.home ho₂.isOpen (Nat.le_refl ptr) h3 hok
      have ht := step_initialised hstep₂'.home ho₂'.isOpen (Nat.le_refl ptr) h3' hok'
      have hbelow := hlock.below d hd
      have hbelow' : d.local_.ptr < t.builder.nextId := by
        rw [hlock.others]
        exact hbelow
      have hlock₁' : Lock m base ([] ++ es) s₁ t₁ := hlock₁
      have hun' : t.Unnamed d.local_.ptr := fun l hl => hun l (hlock.locals_subset hlock₁' hl)
      exact ⟨d.local_.ptr, hat.step hs ht hlt hlt, Nat.lt_of_lt_of_le hbelow hnext,
        Nat.lt_of_lt_of_le hbelow' hnext', hun'⟩

/-! ### Control flow -/

section

variable {x x' y y' : Cg Unit} {ends ends' : Bool}

theorem pair_if (cond : Expr) (h : Lockstep m base x x' v good new true (!ends)) :
    Lockstep m base (emitIf cond x none) (emitIf cond x' none) v (cond.InScope v ∧ good) new
      true true := by
  refine ((pair_expr cond v).bind fun val => ?_).congr Iff.rfl (List.append_nil _)
  refine .before (plain_coerceToBool val) fun condId => ?_
  refine .before plain_builderId fun thenLabel => ?_
  refine .before plain_builderId fun mergeLabel => ?_
  refine .before (plain_append _ rfl rfl) fun _ => ?_
  refine .before (plain_terminate _ rfl) fun _ => ?_
  refine .before (plain_begin thenLabel) fun _ => ?_
  exact h.after fun _ => (plain_branch mergeLabel).bind fun _ => plain_begin mergeLabel

theorem pair_if_else (cond : Expr) (h : Lockstep m base x x' v good new true (!ends))
    (h' : Lockstep m base y y' (new ++ v) good' new' true (!ends')) :
    Lockstep m base (emitIf cond x (some y)) (emitIf cond x' (some y')) v
      (cond.InScope v ∧ good ∧ good') (new' ++ new) true true := by
  refine ((pair_expr cond v).bind fun val => ?_).congr Iff.rfl (List.append_nil _)
  refine .before (plain_coerceToBool val) fun condId => ?_
  refine .before plain_builderId fun thenLabel => ?_
  refine .before plain_builderId fun mergeLabel => ?_
  refine .before plain_builderId fun elseLabel => ?_
  refine .before (plain_append _ rfl rfl) fun _ => ?_
  refine .before (plain_terminate _ rfl) fun _ => ?_
  refine .before (plain_begin thenLabel) fun _ => ?_
  refine h.bind fun _ => ?_
  refine .before (plain_branch mergeLabel) fun _ => ?_
  refine .before (plain_begin elseLabel) fun _ => ?_
  exact h'.after fun _ => (plain_branch mergeLabel).bind fun _ => plain_begin mergeLabel

theorem pair_forCond (cond : Option Expr) (bodyLabel mergeLabel : Spirv.Id) (v : Scopes) :
    Lockstep m base (emitForCond cond bodyLabel mergeLabel)
      (emitForCond cond bodyLabel mergeLabel) v (OptInScope v cond) [] true false := by
  cases cond with
  | none => exact (Lockstep.plain (plain_terminate _ rfl)).congr (iff_of_true trivial nofun) rfl
  | some c =>
    refine ((pair_expr c v).after fun val => ?_).congr optInScope_some.symm rfl
    exact (plain_coerceToBool val).bind fun _ => plain_terminate _ rfl

theorem pair_update (update : Option Expr) (v : Scopes) :
    Lockstep m base (emitUpdate update) (emitUpdate update) v (OptInScope v update) []
      true true := by
  cases update with
  | none => exact (Lockstep.plain (.pure ())).congr (iff_of_true trivial nofun) rfl
  | some u => exact (pair_value u v).congr optInScope_some.symm rfl

theorem pair_for (cond update : Option Expr) (h : Lockstep m base x x' v good new true (!ends))
    (h' : Lockstep m base y y' (new ++ v) good' new' true (!ends')) :
    Lockstep m base (emitFor x cond update y) (emitFor x' cond update y') v
      (good ∧ (ends = true ∨ OptInScope (new ++ v) cond ∧ good' ∧
        OptInScope (new' ++ (new ++ v)) update))
      (if ends then new else new' ++ new) true (!ends) := by
  cases ends with
  | true => exact (h.bind fun _ => pair_ended _ _).congr (by simp) rfl
  | false =>
    refine (h.bind fun _ => pair_goes (?_ : Lockstep m base _ _ (new ++ v)
      (OptInScope (new ++ v) cond ∧ good' ∧ OptInScope (new' ++ (new ++ v)) update) new'
        true true)).congr (by simp) (by simp)
    refine .before plain_builderId fun headerLabel => ?_
    refine .before plain_builderId fun bodyLabel => ?_
    refine .before plain_builderId fun continueLabel => ?_
    refine .before plain_builderId fun mergeLabel => ?_
    refine .before (plain_terminate _ rfl) fun _ => ?_
    refine .before (plain_begin headerLabel) fun _ => ?_
    refine .before (plain_append _ rfl rfl) fun _ => ?_
    refine ((pair_forCond cond bodyLabel mergeLabel (new ++ v)).bind fun _ => ?_).congr Iff.rfl
      (List.append_nil _)
    refine .before (plain_begin bodyLabel) fun _ => ?_
    refine (h'.bind fun _ => ?_).congr Iff.rfl (List.nil_append _)
    refine .before (plain_branch continueLabel) fun _ => ?_
    refine .before (plain_begin continueLabel) fun _ => ?_
    refine (pair_update update (new' ++ (new ++ v))).after fun _ => ?_
    exact (plain_terminate _ rfl).bind fun _ => plain_begin mergeLabel

theorem pair_cons (h : Lockstep m base x x' v good new true (!ends))
    (h' : Lockstep m base y y' (new ++ v) good' new' true (!ends')) :
    Lockstep m base (do x; if ← isTerminated then pure () else y)
      (do x'; if ← isTerminated then pure () else y') v
      (good ∧ (ends = true ∨ good')) (if ends then new else new' ++ new) true
      (!(ends || ends')) := by
  cases ends with
  | true => exact (h.bind fun _ => pair_ended y y').congr (by simp) rfl
  | false => exact (h.bind fun _ => pair_goes h').congr (by simp) rfl

end

mutual

theorem pair_stmt : ∀ (st : Stmt) (v : Scopes),
    Lockstep m base (emitStmt st) (scopedStmt st) v (st.WellScoped v) st.declares true (!st.ends)
  | .return_ e, v => by
      simp only [emitStmt, scopedStmt, Stmt.WellScoped, Stmt.declares, Stmt.ends]
      exact pair_return e v
  | .varDecl vd, v => by
      simp only [emitStmt, scopedStmt, Stmt.WellScoped, Stmt.declares, Stmt.ends]
      exact pair_varDecl vd v
  | .expr e, v => by
      simp only [emitStmt, scopedStmt, Stmt.WellScoped, Stmt.declares, Stmt.ends]
      exact pair_value e v
  | .if_ cond then_ none, v => by
      simp only [emitStmt, scopedStmt, emitElse, scopedElse, Stmt.WellScoped, ElseWellScoped,
        Stmt.declares, elseDeclares, Stmt.ends, and_true, List.nil_append]
      exact pair_if cond (pair_inScope (pair_block then_ v))
  | .if_ cond then_ (some else_), v => by
      simp only [emitStmt, scopedStmt, emitElse, scopedElse, Stmt.WellScoped, ElseWellScoped,
        Stmt.declares, elseDeclares, Stmt.ends]
      exact pair_if_else cond (pair_inScope (pair_block then_ v))
        (pair_inScope (pair_block else_ _))
  | .for_ init cond update body, v => by
      simp only [emitStmt, scopedStmt, Stmt.WellScoped, Stmt.declares, Stmt.ends]
      exact pair_inScope (pair_for cond update (pair_init init v)
        (pair_inScope (pair_block body _)))
  | .block b, v => by
      simp only [emitStmt, scopedStmt, Stmt.WellScoped, Stmt.declares, Stmt.ends]
      exact pair_inScope (pair_block b v)

theorem pair_block : ∀ (b : List Stmt) (v : Scopes),
    Lockstep m base (emitBlock b) (scopedBlock b) v (BlockWellScoped v b) (blockDeclares b) true
      (!blockEnds b)
  | [], v => by
      simp only [emitBlock, scopedBlock, BlockWellScoped, blockDeclares, blockEnds]
      exact .plain (.pure ())
  | s :: rest, v => by
      simp only [emitBlock, scopedBlock, BlockWellScoped, blockDeclares, blockEnds]
      exact pair_cons (pair_stmt s v) (pair_block rest _)

theorem pair_init : ∀ (init : Option Stmt) (v : Scopes),
    Lockstep m base (emitInit init) (scopedInit init) v (InitWellScoped v init)
      (initDeclares init) true (!initEnds init)
  | none, v => by
      simp only [emitInit, scopedInit, InitWellScoped, initDeclares, initEnds]
      exact .plain (.pure ())
  | some s, v => by
      simp only [emitInit, scopedInit, InitWellScoped, initDeclares, initEnds]
      exact pair_stmt s v

end

theorem plain_finish : Plain m finishEntryPoint o o := by
  refine ⟨?_, ?_⟩
  · refine .get (fun s => ?_) fun s L _ => rfl
    cases s.builder.func with
    | none => exact .throw _
    | some f =>
      intro s s' a L h _
      cases h
      exact ⟨rfl, rfl⟩
  · refine .get fun s => ?_
    cases s.builder.func with
    | none => exact .throw _
    | some f =>
      intro s u s' hs ho h
      cases h
      exact ⟨ho, ⟨hs.globals, hs.members, hs.out, hs.next⟩, Nat.le_refl _,
        fun _ _ _ => Nat.le_refl _, fun _ _ _ hu => ⟨rfl, hu⟩⟩

end

/-! ## Units -/

/-- What comes before the body of `main`. -/
def beforeBody (unit : TranslationUnit) (main : FunctionDecl) : Cg Unit := do
  emitGlobals unit.decls
  emitInputs main.params
  emitOutput main
  beginEntryFunction
  let params ← paramGlobals main.params
  copyParams params

/-- A body that is not terminated returns. -/
def returnAtEnd : Cg Unit := do
  if ← isTerminated then pure ()
  else terminate "ret" .ret

/-- The body, and what comes after it. -/
def withBody (block : Cg Unit) : Cg Unit := do
  block
  returnAtEnd
  finishEntryPoint

section

variable {unit : TranslationUnit} {main : FunctionDecl} {body : List Stmt} {stage : ShaderStage}
  {b : Spirv.Builder}

theorem emitMain_eq (hbody : main.body = some body) :
    (do emitGlobals unit.decls; emitMain main) =
      (do beforeBody unit main; withBody (emitBlock body)) := by
  unfold emitMain emitFunctionBody beforeBody withBody returnAtEnd
  simp only [hbody, bind_bind]

theorem scopedMain_eq (hbody : main.body = some body) :
    (do emitGlobals unit.decls; scopedMain main) =
      (do beforeBody unit main; withBody (scopedBlock body)) := by
  unfold scopedMain scopedFunctionBody beforeBody withBody returnAtEnd
  simp only [hbody, bind_bind]

theorem findMain_body {ds : List Decl} (h : findMain ds = some main) :
    ∃ body, main.body = some body := by
  induction ds with
  | nil => cases h
  | cons d rest ih =>
    cases d with
    | function f =>
      rw [findMain] at h
      split at h
      · next hf =>
        cases h
        exact Option.isSome_iff_exists.1 hf.2
      · exact ih h
    | _ => exact ih h

/-- What `codegen` makes of a run. -/
theorem run_ok_iff {x k : Cg Unit} {s : Ctx} :
    (match (do x; k : Cg Unit) s with
      | .ok (_, s) => .ok s.builder
      | .err e => .err e
      | .panic => .panic
      | .outOfFuel => .outOfFuel : Outcome CodegenError Spirv.Builder) = .ok b ↔
      ∃ s₁ s', x s = .ok ((), s₁) ∧ k s₁ = .ok ((), s') ∧ s'.builder = b := by
  constructor
  · intro h
    split at h
    · next u s' hrun =>
      cases h
      obtain ⟨_, s₁, h1, h2⟩ := bind_eq_ok hrun
      exact ⟨s₁, s', h1, h2, rfl⟩
    · cases h
    · cases h
    · cases h
  · rintro ⟨s₁, s', h1, h2, rfl⟩
    rw [bind_ok h1, h2]

theorem codegen_ok_iff (hmain : findMain unit.decls = some main) (hbody : main.body = some body) :
    codegen unit stage = .ok b ↔
      ∃ s s', beforeBody unit main (Ctx.new stage) = .ok ((), s) ∧
        withBody (emitBlock body) s = .ok ((), s') ∧ s'.builder = b := by
  unfold codegen
  simp only [hmain, emitMain_eq hbody]
  exact run_ok_iff

theorem scopedCodegen_ok_iff (hmain : findMain unit.decls = some main)
    (hbody : main.body = some body) :
    scopedCodegen unit stage = .ok b ↔
      ∃ s s', beforeBody unit main (Ctx.new stage) = .ok ((), s) ∧
        withBody (scopedBlock body) s = .ok ((), s') ∧ s'.builder = b := by
  unfold scopedCodegen
  simp only [hmain, scopedMain_eq hbody]
  exact run_ok_iff

theorem beforeBody_ok {s : Ctx} (hbody : beforeBody unit main (Ctx.new stage) = .ok ((), s)) :
    s.OpenIs true ∧ s.builder.Fresh ∧ ∃ sc, Fits s.builder.env s sc := by
  obtain ⟨_, s₁, h1, h⟩ := bind_eq_ok hbody
  have hdecls := emitGlobals_declares h1
  have hinsts : s₁.builder.insts = [] := hdecls.emitted.insts.eq_nil
  obtain ⟨_, s₂, h2, h⟩ := bind_eq_ok h
  obtain ⟨_, s₃, h3, h⟩ := bind_eq_ok h
  obtain ⟨_, s₄, h4, h⟩ := bind_eq_ok h
  obtain ⟨hentry, hopen, -, hfits⟩ := fits_entry hinsts hdecls.locals h2 h3 h4
  obtain ⟨qs, s₅, h5, h⟩ := bind_eq_ok h
  obtain ⟨rfl, hqs⟩ := paramGlobals_ok h5
  have hgoes := goes_copyParams hopen hqs h
  obtain ⟨is, hem, hj⟩ := hgoes.emits
  have hfresh := hem.fresh (hentry.fresh (hdecls.emitted.fresh (fresh_new stage)))
  refine ⟨hgoes.isOpen, hfresh, ?_⟩
  have hΓ := hfresh.agrees
  have hΓ₄ := hem.agrees _ hΓ
  obtain ⟨sc₁, -, hd₁⟩ := hdecls.scope _ _ (hentry.agrees _ hΓ₄) rfl (describes_new _ stage)
  obtain ⟨sc₂, out, -, -, hfit⟩ := hfits _ sc₁ hΓ₄ hd₁
  exact ⟨_, (hj _ _ hΓ hfit).1⟩

theorem lock_start {s : Ctx} {sc : Scope} (hfresh : s.builder.Fresh)
    (hfit : Fits s.builder.env s sc) : Lock s.builder.nextId s.locals [] s s where
  locals := rfl
  others := rfl
  nodup := .nil
  from_ := nofun
  below := nofun
  before := by
    intro e he
    obtain ⟨ty, -, st, -, hty⟩ := hfit.tables.locals.exists_of_mem he
    exact hfresh.lt hty
  home := by
    refine ⟨fun x g hg => ?_, fun x c hc => ?_, fun v hv => ?_, Nat.le_refl _⟩
    · obtain ⟨g', -, -, hty⟩ := hfit.tables.globals.lookup_some hg
      exact hfresh.lt hty
    · obtain ⟨c', -, hty, -⟩ := hfit.tables.members.lookup_some hc
      exact hfresh.lt hty
    · obtain ⟨out, hout, hty⟩ := hfit.out
      rw [Option.mem_def.1 hv] at hout
      cases hout
      exact hfresh.lt hty

theorem pair_returnAtEnd {m : Spirv.Id} {base : List (String × Local)} {v : Scopes} {o : Bool} :
    Lockstep m base returnAtEnd returnAtEnd v True [] o false := by
  cases o with
  | false => exact pair_ended _ _
  | true => exact pair_goes (.plain (plain_terminate _ rfl))

theorem pair_withBody (body : List Stmt) {m : Spirv.Id} {base : List (String × Local)} :
    Lockstep m base (withBody (emitBlock body)) (withBody (scopedBlock body)) []
      (BlockWellScoped [] body) (blockDeclares body) true false := by
  refine ((pair_block body []).bind fun _ => ?_).congr (and_iff_left trivial) (List.nil_append _)
  exact Lockstep.after pair_returnAtEnd fun _ => plain_finish

end

/-- Every identifier that is emitted in the body of `main` is in scope. -/
def UnitWellScoped (unit : TranslationUnit) : Prop :=
  ∃ main body, findMain unit.decls = some main ∧ main.body = some body ∧ BlockWellScoped [] body

/-- A module that `codegen` returns resolves every name as lexical scopes do exactly when every
    identifier is in scope. -/
theorem codegen_scoped_iff {unit : TranslationUnit} {stage : ShaderStage} {b : Spirv.Builder}
    (h : codegen unit stage = .ok b) : scopedCodegen unit stage = .ok b ↔ UnitWellScoped unit := by
  obtain ⟨main, s₀, s₁, hmain, -, hrun, -⟩ := codegen_ok h
  obtain ⟨body, hbody⟩ := findMain_body hmain
  obtain ⟨s, s', hbefore, hafter, rfl⟩ := (codegen_ok_iff hmain hbody).1 h
  obtain ⟨hopen, hfresh, sc, hfit⟩ := beforeBody_ok hbefore
  have hlock := lock_start hfresh hfit
  have hpair := @pair_withBody body s.builder.nextId s.locals
  rw [scopedCodegen_ok_iff hmain hbody]
  have hunit : UnitWellScoped unit ↔ BlockWellScoped [] body := by
    constructor
    · rintro ⟨main', body', hmain', hbody', hscoped⟩
      rw [hmain] at hmain'
      cases hmain'
      rw [hbody] at hbody'
      cases hbody'
      exact hscoped
    · exact fun hscoped => ⟨main, body, hmain, hbody, hscoped⟩
  rw [hunit]
  constructor
  · rintro ⟨s₂, t', hbefore', hafter', hsame⟩
    rw [hbefore] at hbefore'
    cases hbefore'
    by_contra hscoped
    have hapart := hpair.apart hscoped [] s s () () s' t' hlock hopen rfl hafter hafter'
    exact hapart.builder_ne hsame.symm
  · intro hscoped
    obtain ⟨es, t', ht, hlock', -⟩ := hpair.locked hscoped [] s s () s' hlock hopen rfl hafter
    refine ⟨s, t', hbefore, ht, ?_⟩
    rw [hlock'.others]
    rfl

/-- `float4 main() : SV_Target { float4 x = float4(1.0, 1.0, 1.0, 1.0); { float4 y = x; x = y; }
    return x; }` -/
def innerBlock : TranslationUnit where
  decls := [.function {
    returnType := .vector .float 4
    name := "main"
    params := []
    semantic := some "SV_Target"
    body := some [
      .varDecl ⟨.vector .float 4, "x", some (.construct (.vector .float 4)
        (List.replicate 4 (.literal (.float 0x3FF0000000000000)))), none⟩,
      .block [
        .varDecl ⟨.vector .float 4, "y", some (.ident "x"), none⟩,
        .expr (.binary .assign (.ident "x") (.ident "y"))],
      .return_ (some (.ident "x"))] }]

theorem codegen_scoped_iff_innerBlock : ∃ b, codegen innerBlock .pixel = .ok b ∧
    scopedCodegen innerBlock .pixel = .ok b := by
  have hok : (codegen innerBlock .pixel).okWith (fun _ => true) = true := by decide +kernel
  obtain ⟨b, hb, -⟩ := Outcome.exists_of_okWith hok
  refine ⟨b, hb, (codegen_scoped_iff hb).2 ⟨_, _, rfl, rfl, ?_⟩⟩
  simp [BlockWellScoped, Stmt.WellScoped, OptInScope, Expr.InScope, Expr.idents,
    Stmt.declares, blockDeclares, Stmt.ends, blockEnds, Scopes.close, Assoc.lookup_cons_ite]

/-- `float4 main() : SV_Target { float4 x = float4(1.0, 1.0, 1.0, 1.0);
    { float4 x = float4(0.0, 0.0, 0.0, 0.0); } return x; }` -/
def shadowed : TranslationUnit where
  decls := [.function {
    returnType := .vector .float 4
    name := "main"
    params := []
    semantic := some "SV_Target"
    body := some [
      .varDecl ⟨.vector .float 4, "x", some (.construct (.vector .float 4)
        (List.replicate 4 (.literal (.float 0x3FF0000000000000)))), none⟩,
      .block [
        .varDecl ⟨.vector .float 4, "x", some (.construct (.vector .float 4)
          (List.replicate 4 (.literal (.float 0)))), none⟩],
      .return_ (some (.ident "x"))] }]

/-- The pointers that a module loads from. -/
def loadsOf (b : Spirv.Builder) : List Spirv.Id :=
  b.insts.filterMap fun
    | .load _ _ ptr => some ptr
    | _ => none

/-- What is returned is in the variable of the inner block, and should be in the other. -/
theorem shadowed_returns_inner :
    ∃ b, codegen shadowed .pixel = .ok b ∧ scopedCodegen shadowed .pixel ≠ .ok b := by
  have hrun : (codegen shadowed .pixel).okWith (fun b => loadsOf b == [11]) = true := by
    decide +kernel
  have hscoped : (scopedCodegen shadowed .pixel).okWith (fun b => loadsOf b == [5]) = true := by
    decide +kernel
  obtain ⟨b, hb, hinner⟩ := Outcome.exists_of_okWith hrun
  obtain ⟨b', hb', houter⟩ := Outcome.exists_of_okWith hscoped
  refine ⟨b, hb, fun heq => ?_⟩
  rw [hb'] at heq
  cases heq
  rw [beq_iff_eq.1 hinner] at houter
  cases houter

/-- `float4 main() : SV_Target { { float4 y = float4(1.0, 1.0, 1.0, 1.0); } return y; }` -/
def closedBlock : TranslationUnit where
  decls := [.function {
    returnType := .vector .float 4
    name := "main"
    params := []
    semantic := some "SV_Target"
    body := some [
      .block [
        .varDecl ⟨.vector .float 4, "y", some (.construct (.vector .float 4)
          (List.replicate 4 (.literal (.float 0x3FF0000000000000)))), none⟩],
      .return_ (some (.ident "y"))] }]

-- A name that is declared in a closed block alone is accepted.
example : (codegen closedBlock .pixel).okWith (fun _ => true) = true ∧
    (scopedCodegen closedBlock .pixel).okWith (fun _ => true) = false := by
  decide +kernel

end WinCompat.Hlsl
