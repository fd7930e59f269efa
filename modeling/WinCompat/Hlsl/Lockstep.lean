import WinCompat.Hlsl.Scopes

/-!
# The two emitters in lockstep

The emitter and the scoped one are run on the same body. As long as every identifier is in scope
they return the same and their states differ in the list of locals alone: the scoped one has what is
open of the other's (`Lock`). After the first identifier that is not, some pointer is used more
often by the one and forgotten by the other (`Apart`), and that lasts.

`Lockstep` says both for a pair of computations, and has a rule for each way in which the emitter is
put together.
-/

namespace WinCompat.Hlsl

open Lib Lib.Comp

/-! ## Entries -/

/-- A local variable of the body, and whether its scope is open. -/
structure Entry where
  name : String
  local_ : Local
  isOpen : Bool

def Entry.close (e : Entry) : Entry := { e with isOpen := false }

/-- What the emitter has of the entries. -/
def allLocals (es : List Entry) : List (String × Local) := es.map fun e => (e.name, e.local_)

/-- What the scoped emitter has of them. -/
def openLocals (es : List Entry) : List (String × Local) := allLocals (es.filter Entry.isOpen)

def scopesOf (es : List Entry) : Scopes := es.map fun e => (e.name, e.isOpen)

section

variable {es es' : List Entry} {base : List (String × Local)} {x : String}

theorem allLocals_append : allLocals (es ++ es') = allLocals es ++ allLocals es' :=
  List.map_append

theorem openLocals_append : openLocals (es ++ es') = openLocals es ++ openLocals es' := by
  simp [openLocals, allLocals]

theorem scopesOf_append : scopesOf (es ++ es') = scopesOf es ++ scopesOf es' :=
  List.map_append

theorem allLocals_close : allLocals (es.map Entry.close) = allLocals es := by
  simp [allLocals, Entry.close]

theorem openLocals_close : openLocals (es.map Entry.close) = [] := by
  simp [openLocals, allLocals, Entry.close]

theorem scopesOf_close : scopesOf (es.map Entry.close) = (scopesOf es).close := by
  simp [scopesOf, Scopes.close, Entry.close]

theorem lookup_scopesOf (e : Entry) : (scopesOf (e :: es)).lookup x =
    if e.name = x then some e.isOpen else (scopesOf es).lookup x :=
  Assoc.lookup_cons_ite x e.name e.isOpen (scopesOf es)

theorem lookup_allLocals (e : Entry) : (allLocals (e :: es) ++ base).lookup x =
    if e.name = x then some e.local_ else (allLocals es ++ base).lookup x :=
  Assoc.lookup_cons_ite x e.name e.local_ (allLocals es ++ base)

theorem openLocals_of_open {e : Entry} (h : e.isOpen = true) :
    openLocals (e :: es) = (e.name, e.local_) :: openLocals es := by
  simp [openLocals, allLocals, h]

theorem openLocals_of_closed {e : Entry} (h : e.isOpen = false) :
    openLocals (e :: es) = openLocals es := by
  simp [openLocals, h]

/-- A name in scope is looked up alike. -/
theorem lookup_open (h : (scopesOf es).lookup x ≠ some false) :
    (openLocals es ++ base).lookup x = (allLocals es ++ base).lookup x := by
  induction es with
  | nil => rfl
  | cons e rest ih =>
    rw [lookup_scopesOf] at h
    rw [lookup_allLocals]
    by_cases hx : e.name = x
    · rw [if_pos hx] at h
      have hopen : e.isOpen = true := by simpa using h
      rw [openLocals_of_open hopen, List.cons_append, Assoc.lookup_cons_ite]
      simp only [if_pos hx]
    · rw [if_neg hx] at h
      rw [if_neg hx, ← ih h]
      cases ho : e.isOpen with
      | true =>
        rw [openLocals_of_open ho, List.cons_append, Assoc.lookup_cons_ite]
        simp only [if_neg hx]
      | false => rw [openLocals_of_closed ho]

theorem lookup_closed (h : (scopesOf es).lookup x = some false) :
    ∃ e ∈ es, e.isOpen = false ∧ (allLocals es ++ base).lookup x = some e.local_ := by
  induction es with
  | nil => cases h
  | cons e rest ih =>
    rw [lookup_scopesOf] at h
    rw [lookup_allLocals]
    by_cases hx : e.name = x
    · rw [if_pos hx] at h
      rw [if_pos hx]
      exact ⟨e, List.mem_cons_self, Option.some.inj h, rfl⟩
    · rw [if_neg hx] at h
      rw [if_neg hx]
      obtain ⟨e', he, hclosed, hlookup⟩ := ih h
      exact ⟨e', List.mem_cons_of_mem _ he, hclosed, hlookup⟩

end

/-! ## In step -/

/-- The states differ in the locals alone: one has those of all the entries, the other of the open
    ones. The entries have different pointers, from `m` on; the locals from before have not. -/
structure Lock (m : Spirv.Id) (base : List (String × Local)) (es : List Entry) (s t : Ctx) :
    Prop where
  locals : s.locals = allLocals es ++ base
  others : t = s.withLocals (openLocals es ++ base)
  nodup : (es.map fun e => e.local_.ptr).Nodup
  from_ : ∀ e ∈ es, m ≤ e.local_.ptr
  below : ∀ e ∈ es, e.local_.ptr < s.builder.nextId
  before : ∀ e ∈ base, e.2.ptr < m
  home : s.Home m

/-- `s` has used the pointer more often than `t`, and `t` has it no more. -/
structure ApartAt (m ptr : Spirv.Id) (s t : Ctx) : Prop where
  le : m ≤ ptr
  unnamed : t.Unnamed ptr
  uses : t.uses ptr < s.uses ptr

/-- The two have parted, at a pointer that is no local's in `t₀`. -/
def Apart (m : Spirv.Id) (t₀ s t : Ctx) : Prop :=
  ∃ ptr, ApartAt m ptr s t ∧ ptr < s.builder.nextId ∧ ptr < t.builder.nextId ∧ t₀.Unnamed ptr

section

variable {m n n' ptr : Spirv.Id} {base : List (String × Local)} {es : List Entry}
  {s s₁ t t₁ t₀ : Ctx}

theorem ApartAt.step (h : ApartAt m ptr s t) (hs : Step m n s s₁) (ht : Step m n' t t₁)
    (hn : ptr < n) (hn' : ptr < n') : ApartAt m ptr s₁ t₁ := by
  obtain ⟨huses, hunnamed⟩ := ht.unnamed ptr h.le hn' h.unnamed
  refine ⟨h.le, hunnamed, ?_⟩
  rw [huses]
  exact Nat.lt_of_lt_of_le h.uses (hs.le ptr h.le hn)

theorem Apart.step (h : Apart m t₀ s t) (hs : Step m s.builder.nextId s s₁)
    (ht : Step m t.builder.nextId t t₁) : Apart m t₀ s₁ t₁ := by
  obtain ⟨ptr, hat, hlt, hlt', hun⟩ := h
  exact ⟨ptr, hat.step hs ht hlt hlt', Nat.lt_of_lt_of_le hlt hs.next,
    Nat.lt_of_lt_of_le hlt' ht.next, hun⟩

theorem Apart.builder_ne (h : Apart m t₀ s t) : s.builder ≠ t.builder := by
  obtain ⟨ptr, hat, -⟩ := h
  intro heq
  have huses := hat.uses
  unfold Ctx.uses at huses
  rw [heq] at huses
  exact Nat.lt_irrefl _ huses

theorem Lock.home' (h : Lock m base es s t) : t.Home m := by
  rw [h.others]
  exact ⟨h.home.globals, h.home.members, h.home.out, h.home.next⟩

theorem Lock.openIs {o : Bool} (h : Lock m base es s t) (ho : s.OpenIs o) : t.OpenIs o := by
  rw [h.others]
  exact ho

theorem Lock.unnamed (h : Lock m base es s t) {e : Entry} (he : e ∈ es)
    (hclosed : e.isOpen = false) : t.Unnamed e.local_.ptr := by
  intro l hl
  rw [h.others, Ctx.withLocals_locals] at hl
  rcases List.mem_append.1 hl with hl | hl
  · obtain ⟨e', he', rfl⟩ := List.mem_map.1 hl
    obtain ⟨hmem, hopen⟩ := List.mem_filter.1 he'
    intro heq
    have hsame : e' = e := List.inj_on_of_nodup_map h.nodup hmem he heq
    rw [hsame, hclosed] at hopen
    cases hopen
  · exact Nat.ne_of_lt (Nat.lt_of_lt_of_le (h.before l hl) (h.from_ e he))

theorem Lock.locals_subset {es' : List Entry} (h : Lock m base es s t)
    (h' : Lock m base (es' ++ es) s₁ t₁) : t.locals ⊆ t₁.locals := by
  rw [h.others, h'.others, Ctx.withLocals_locals, Ctx.withLocals_locals, openLocals_append,
    List.append_assoc]
  exact List.subset_append_right _ _

theorem Lock.move (h : Lock m base es s t) (hl : s₁.locals = s.locals)
    (hs : Step m n s s₁) : Lock m base es s₁ (s₁.withLocals t.locals) := by
  refine ⟨hl.trans h.locals, ?_, h.nodup, h.from_, fun e he => ?_, h.before, hs.home⟩
  · rw [h.others]
    rfl
  · exact Nat.lt_of_lt_of_le (h.below e he) hs.next

theorem Lock.reads {α : Type} {xs : List String} {x : Cg α} {a : α} (h : Lock m base es s t)
    (hx : ReadsLocals xs x) (hscope : ∀ y ∈ xs, (scopesOf es).lookup y ≠ some false)
    (hok : x s = .ok (a, s₁)) (hs : Step m n s s₁) :
    ∃ t₁, x t = .ok (a, t₁) ∧ Lock m base es s₁ t₁ := by
  have hL : ∀ y ∈ xs, (openLocals es ++ base).lookup y = s.locals.lookup y := by
    intro y hy
    rw [h.locals]
    exact lookup_open (hscope y hy)
  obtain ⟨hlocals, ht⟩ := hx s s₁ a (openLocals es ++ base) hok hL
  rw [← h.others] at ht
  refine ⟨_, ht, ?_⟩
  have hmove := h.move hlocals hs
  rw [h.others] at hmove
  exact hmove

/-- An identifier out of scope parts them, at a pointer of the body. -/
theorem Lock.expr_apart {e : Expr} {v v' : Val} (h : Lock m base es s t) (ho : s.OpenIs true)
    (hscope : ¬ e.InScope (scopesOf es)) (hs : emitExpr e s = .ok (v, s₁))
    (ht : emitExpr e t = .ok (v', t₁)) :
    ∃ d ∈ es, ApartAt m d.local_.ptr s₁ t₁ ∧ t.Unnamed d.local_.ptr := by
  unfold Expr.InScope at hscope
  push Not at hscope
  obtain ⟨x, hx, hfalse⟩ := hscope
  obtain ⟨d, hd, hclosed, hlookup⟩ := @lookup_closed es base x hfalse
  have hunnamed := h.unnamed hd hclosed
  have hlt := h.below d hd
  have hle := h.from_ d hd
  obtain ⟨-, hstep⟩ := tracks_expr e t v' t₁ h.home' (h.openIs ho) ht
  have hlt' : d.local_.ptr < t.builder.nextId := by
    rw [h.others]
    exact hlt
  obtain ⟨huses, hunnamed'⟩ := hstep.unnamed d.local_.ptr hle hlt' hunnamed
  refine ⟨d, hd, ⟨hle, hunnamed', ?_⟩, hunnamed⟩
  obtain ⟨n, cs, is, hcode, rfl⟩ := emitExpr_code _ e s v s₁ ho.isOpen rfl hs
  have hthrough : Spirv.Through d.local_.ptr is := by
    refine (hcode.through_iff (h.home.notGlobal hle) hlt).2 ⟨x, hx, d.local_, ?_, rfl⟩
    rw [h.locals]
    exact hlookup
  have hpos := countP_pointer_pos.2 hthrough
  have hsame : t.uses d.local_.ptr = s.uses d.local_.ptr := by
    rw [h.others]
    rfl
  rw [huses, hsame, uses_perm (extend_emitted ho.isOpen hcode.straight.adds).insts]
  exact Nat.lt_add_of_pos_right hpos

end

/-! ## Pairs of computations -/

/-- `x` and the scoped `y`, begun in step after the declarations `v`. If `good`, they return the
    same and are in step after the declarations `new` as well; otherwise they part. -/
structure Lockstep {α : Type} (m : Spirv.Id) (base : List (String × Local)) (x y : Cg α)
    (v : Scopes) (good : Prop) (new : Scopes) (o o' : Bool) : Prop where
  left : Tracks m x o o'
  right : Tracks m y o o'
  locked : good → ∀ es s t a s', Lock m base es s t → s.OpenIs o → scopesOf es = v →
    x s = .ok (a, s') →
      ∃ es' t', y t = .ok (a, t') ∧ Lock m base (es' ++ es) s' t' ∧ scopesOf es' = new
  apart : ¬ good → ∀ es s t a b s' t', Lock m base es s t → s.OpenIs o → scopesOf es = v →
    x s = .ok (a, s') → y t = .ok (b, t') → Apart m t s' t'

/-- A computation that declares nothing and looks up no local. -/
structure Plain {α : Type} (m : Spirv.Id) (x : Cg α) (o o' : Bool) : Prop where
  reads : ReadsLocals [] x
  tracks : Tracks m x o o'

namespace Lockstep

variable {α β : Type} {m : Spirv.Id} {base : List (String × Local)} {x y : Cg α}
  {v new new' : Scopes} {good good' : Prop} {o o₁ o₂ : Bool}

theorem congr (h : Lockstep m base x y v good new o o₁) (hiff : good ↔ good') (hnew : new = new') :
    Lockstep m base x y v good' new' o o₁ := by
  rw [← propext hiff, ← hnew]
  exact h

theorem plain (h : Plain m x o o₁) : Lockstep m base x x v True [] o o₁ where
  left := h.tracks
  right := h.tracks
  locked := by
    intro _ es s t a s' hlock ho _ hok
    obtain ⟨t', ht, hlock'⟩ := hlock.reads h.reads nofun hok (h.tracks s a s' hlock.home ho hok).2
    exact ⟨[], t', ht, hlock', rfl⟩
  apart := fun h => absurd trivial h

theorem bind {k k' : α → Cg β} (h : Lockstep m base x y v good new o o₁)
    (hk : ∀ a, Lockstep m base (k a) (k' a) (new ++ v) good' new' o₁ o₂) :
    Lockstep m base (x >>= k) (y >>= k') v (good ∧ good') (new' ++ new) o o₂ where
  left := h.left.bind fun a => (hk a).left
  right := h.right.bind fun a => (hk a).right
  locked := by
    intro ⟨hg, hg'⟩ es s t b s'' hlock ho hv hok
    obtain ⟨a, s', h1, h2⟩ := bind_eq_ok hok
    obtain ⟨es₁, t', ht, hlock₁, hnew⟩ := h.locked hg es s t a s' hlock ho hv h1
    have ho₁ := (h.left s a s' hlock.home ho h1).1
    have hv₁ : scopesOf (es₁ ++ es) = new ++ v := by rw [scopesOf_append, hnew, hv]
    obtain ⟨es₂, t'', ht', hlock₂, hnew'⟩ := (hk a).locked hg' _ s' t' b s'' hlock₁ ho₁ hv₁ h2
    refine ⟨es₂ ++ es₁, t'', ?_, ?_, ?_⟩
    · rw [bind_ok ht, ht']
    · rw [List.append_assoc]
      exact hlock₂
    · rw [scopesOf_append, hnew', hnew]
  apart := by
    intro hbad es s t b b' s'' t'' hlock ho hv hok hok'
    obtain ⟨a, s', h1, h2⟩ := bind_eq_ok hok
    obtain ⟨a', t', h1', h2'⟩ := bind_eq_ok hok'
    obtain ⟨ho₁, hstep⟩ := h.left s a s' hlock.home ho h1
    by_cases hg : good
    · -- The first part goes alike, and the second parts them.
      obtain ⟨es₁, t₁, ht, hlock₁, hnew⟩ := h.locked hg es s t a s' hlock ho hv h1
      rw [ht] at h1'
      obtain ⟨rfl, rfl⟩ : a = a' ∧ t₁ = t' := by simpa using h1'
      have hv₁ : scopesOf (es₁ ++ es) = new ++ v := by rw [scopesOf_append, hnew, hv]
      obtain ⟨ptr, hat, hlt, hlt', hun⟩ :=
        (hk a).apart (fun hg' => hbad ⟨hg, hg'⟩) _ s' _ b b' s'' t'' hlock₁ ho₁ hv₁ h2 h2'
      exact ⟨ptr, hat, hlt, hlt', fun e he => hun e (hlock.locals_subset hlock₁ he)⟩
    · -- The first part parts them, and they stay so.
      have hapart := h.apart hg es s t a a' s' t' hlock ho hv h1 h1'
      obtain ⟨ho₁', hstep'⟩ := h.right t a' t' hlock.home' (hlock.openIs ho) h1'
      exact hapart.step ((hk a).left s' b s'' hstep.home ho₁ h2).2
        ((hk a').right t' b' t'' hstep'.home ho₁' h2').2

/-- A plain part first. -/
theorem before {k k' : α → Cg β} (hx : Plain m x o o₁)
    (hk : ∀ a, Lockstep m base (k a) (k' a) v good new o₁ o₂) :
    Lockstep m base (x >>= k) (x >>= k') v good new o o₂ :=
  ((plain hx).bind hk).congr (by simp) (by simp)

theorem after {k : α → Cg β} (h : Lockstep m base x y v good new o o₁)
    (hk : ∀ a, Plain m (k a) o₁ o₂) : Lockstep m base (x >>= k) (y >>= k) v good new o o₂ :=
  (h.bind fun a => plain (hk a)).congr (by simp) (by simp)

end Lockstep

namespace Plain

variable {α β : Type} {m : Spirv.Id} {o o₁ o₂ : Bool}

theorem pure (a : α) : Plain m (Pure.pure a : Cg α) o o := ⟨.pure a, .pure a⟩

theorem bind {x : Cg α} {k : α → Cg β} (hx : Plain m x o o₁) (hk : ∀ a, Plain m (k a) o₁ o₂) :
    Plain m (x >>= k) o o₂ :=
  ⟨hx.reads.bind fun a => (hk a).reads, hx.tracks.bind fun a => (hk a).tracks⟩

end Plain

section

variable {m : Spirv.Id} {base : List (String × Local)} {v new : Scopes} {good : Prop} {o o' : Bool}

theorem plain_builderId : Plain m builderId o o := ⟨reads_builderId, tracks_builderId⟩

theorem plain_begin (label : Spirv.Id) : Plain m (beginBlock label) o true :=
  ⟨reads_onFunction _ _, tracks_begin label⟩

theorem plain_append (what : String) {i : Spirv.Inst} (hr : i.result = none)
    (hi : i.pointer = none) : Plain m (append what i) true true :=
  ⟨reads_onFunction _ _, tracks_append what hr hi⟩

theorem plain_terminate (what : String) {i : Spirv.Inst} (hi : i.pointer = none) :
    Plain m (terminate what i) o false :=
  ⟨reads_onFunction _ _, tracks_terminate what hi⟩

theorem plain_coerceToBool (val : Val) : Plain m (coerceToBool val) true true :=
  ⟨reads_coerceToBool val, tracks_coerceToBool val⟩

theorem isTerminated_eq {s : Ctx} (ho : s.OpenIs o) : isTerminated s = .ok (!o, s) := by
  obtain ⟨f, hf, hsel⟩ := ho
  unfold isTerminated
  rw [bind_ok (rfl : Comp.get s = .ok (s, s))]
  simp only [hf, ← hsel, Option.not_isSome]
  rfl

theorem unlessTerminated_eq (z : Cg Unit) {s : Ctx} (ho : s.OpenIs o) :
    (do if ← isTerminated then pure () else z : Cg Unit) s = if o then z s else .ok ((), s) := by
  rw [bind_ok (isTerminated_eq ho)]
  cases o <;> rfl

theorem plain_branch (label : Spirv.Id) : Plain m (branchUnlessTerminated label) o false := by
  refine ⟨reads_isTerminated.bind fun b => ?_, ?_⟩
  · cases b with
    | true => exact .pure ()
    | false => exact reads_onFunction _ _
  · intro s u s' hs ho h
    have hrun := unlessTerminated_eq (terminate "branch" (.branch label)) ho
    unfold branchUnlessTerminated at h
    rw [hrun] at h
    cases o with
    | false =>
      cases h
      exact ⟨ho, .refl hs⟩
    | true => exact tracks_terminate "branch" rfl s u s' hs ho h

theorem pair_ended (x y : Cg Unit) :
    Lockstep m base (do if ← isTerminated then pure () else x)
      (do if ← isTerminated then pure () else y) v True [] false false := by
  have htracks : ∀ z : Cg Unit,
      Tracks m (do if ← isTerminated then pure () else z) false false := by
    intro z s u s' hs ho h
    rw [unlessTerminated_eq z ho] at h
    cases h
    exact ⟨ho, .refl hs⟩
  refine ⟨htracks x, htracks y, ?_, fun h => absurd trivial h⟩
  intro _ es s t a s' hlock ho _ hok
  rw [unlessTerminated_eq x ho] at hok
  cases hok
  exact ⟨[], t, unlessTerminated_eq y (hlock.openIs ho), hlock, rfl⟩

theorem pair_goes {x y : Cg Unit} (h : Lockstep m base x y v good new true o') :
    Lockstep m base (do if ← isTerminated then pure () else x)
      (do if ← isTerminated then pure () else y) v good new true o' := by
  refine ⟨fun s a s' hs ho hz => ?_, fun s a s' hs ho hz => ?_, ?_, ?_⟩
  · rw [unlessTerminated_eq x ho] at hz
    exact h.left s a s' hs ho hz
  · rw [unlessTerminated_eq y ho] at hz
    exact h.right s a s' hs ho hz
  · intro hg es s t a s' hlock ho hv hz
    rw [unlessTerminated_eq x ho] at hz
    rw [unlessTerminated_eq y (hlock.openIs ho)]
    exact h.locked hg es s t a s' hlock ho hv hz
  · intro hbad es s t a b s' t' hlock ho hv hz hz'
    rw [unlessTerminated_eq x ho] at hz
    rw [unlessTerminated_eq y (hlock.openIs ho)] at hz'
    exact h.apart hbad es s t a b s' t' hlock ho hv hz hz'

end

end WinCompat.Hlsl
