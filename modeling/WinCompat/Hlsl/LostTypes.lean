import WinCompat.Hlsl.ReadParens

/-!
# Lost type words

`parse_primary` looks for a cast behind every `(`. When a type follows, it is consumed; when no `)`
follows the type, an expression is parsed from there on. So an expression in parentheses that begins
with a type word, as a constructor does, loses that word, and what is parsed is too small
(`lost_print`).
-/

namespace WinCompat.Hlsl

open Lib Lib.Comp

variable {names : List String}

/-! ## What is lost -/

/-- What `x` returns, and what is then left, weigh less than what it started from. -/
def Loses {α : Type} (x : P α) (size : α → Nat) (p : Parser) : Prop :=
  Partial x p fun a p' => size a + left p' < left p

/-- From the tokens `ts`, the operand read at `o` has lost something. -/
def LostAt (names : List String) (o : Option Level) (ts : List TokenKind) : Prop :=
  ∀ (fuel : Nat) (p : Parser) (k : TokenKind) (ks : List TokenKind),
    Sees names (ts ++ k :: ks) p → Stop o k → Loses (parseOperand fuel o) Expr.size p

/-- The same when the tokens are the beginning of what is read at a level. -/
def LostLoop (names : List String) (level : Level) (ts : List TokenKind) : Prop :=
  ∀ (fuel : Nat) (p : Parser) (k : TokenKind) (ks : List TokenKind),
    Sees names (ts ++ k :: ks) p → Stop level.operand k →
      Loses (parseBinary fuel level) Expr.size p

/-- The same of `parse_postfix`. -/
def LostSuffix (names : List String) (ts : List TokenKind) : Prop :=
  ∀ (fuel : Nat) (p : Parser) (k : TokenKind) (ks : List TokenKind),
    Sees names (ts ++ k :: ks) p → k ≠ .lParen →
      Loses (parsePrimary fuel >>= postfixLoop fuel) Expr.size p

/-- The same of `parse_expr`. -/
def LostExpr (names : List String) (ts : List TokenKind) : Prop :=
  ∀ (fuel : Nat) (p : Parser) (k : TokenKind) (ks : List TokenKind),
    Sees names (ts ++ k :: ks) p → Stop (some .or) k → assignOp k = none →
      Loses (parseAssign fuel) Expr.size p

section

variable {ts ts' : List TokenKind} {level : Level} {o o' : Option Level}

variable {p : Parser}

theorem Loses.bind {α β : Type} {x : P α} {f : α → P β} {size : α → Nat} {size' : β → Nat}
    (hx : Loses x size p) (hf : ∀ a p', size a + left p' < left p → Partial (f a) p' fun b q =>
      size' b + left q ≤ size a + left p') : Loses (x >>= f) size' p :=
  Partial.bind hx fun a p' h => (hf a p' h).mono fun _ _ h' => Nat.lt_of_le_of_lt h' h

theorem LostAt.loop (h : LostAt names level.operand ts) : LostLoop names level ts := by
  intro fuel p k ks hp hk
  cases fuel with
  | zero => exact .outOfFuel
  | succ fuel =>
    unfold parseBinary
    exact (h fuel p k ks hp hk).bind fun e p' _ => (weighsAt fuel).loop p' level e

theorem LostLoop.operand (h : LostLoop names level ts) : LostAt names (some level) ts := by
  intro fuel p k ks hp hk
  cases fuel with
  | zero => exact .outOfFuel
  | succ fuel => exact h fuel p k ks hp hk.operand

theorem LostAt.looser (h : LostAt names o ts) (hle : slotPrec o' ≤ slotPrec o) :
    LostAt names o' ts :=
  looser_induction (motive := fun o => LostAt names o ts) (fun _ h => h.loop.operand) h hle

theorem LostLoop.of_lhs (h : LostLoop names level ts) {op : BinaryOp}
    (hprec : slotPrec (some level) = op.prec) : LostLoop names level (ts ++ op.token :: ts') := by
  intro fuel p k ks hp _
  have hlt := slotPrec_operand level
  rw [List.append_assoc] at hp
  exact h fuel p op.token _ hp (stop_token (by omega))

theorem LostLoop.of_rhs {op : BinaryOp} {lhs : Expr} (hop : level.op op.token = some op)
    (hl : Loops names level ts lhs) (hw : lhs.size = weight ts)
    (hr : LostAt names level.operand ts') : LostLoop names level (ts ++ op.token :: ts') := by
  intro fuel p k ks hp hk
  have hprec := (Level.op_token_iff level op op hop).2
  have hlt := slotPrec_operand level
  have hp : Sees names (ts ++ op.token :: (ts' ++ k :: ks)) p := by
    simpa only [List.append_assoc, List.cons_append] using hp
  have hleft := hp.left
  rw [weight_append, weight_cons] at hleft
  refine (hl fuel p op.token _ hp (stop_token (by omega))).returned fun fuel' p' h' => ?_
  have hleft' := h'.left
  cases fuel' with
  | zero => exact .outOfFuel
  | succ fuel' =>
    rw [binaryLoop]
    refine .bind_only (only_peek h') ?_
    rintro p₁ rfl
    rw [hop]
    refine .bind_only (only_bump h' op.token_ne_eof) fun p₂ h2 => ?_
    have hleft2 := h2.left
    have hweight := op.token_weight
    rw [weight_cons] at hleft'
    refine .bind (hr fuel' p₂ k ks h2 hk) fun rhs p₃ h3 => ?_
    refine Partial.mono ((weighsAt fuel').loop p₃ level _) fun e q h => ?_
    simp only [Expr.size] at h
    omega

/-! ### At the head of an operand -/

theorem lost_of_postfix (hhead : ∃ k ks, ts = k :: ks ∧ unaryOp k = none)
    (h : ∀ (fuel : Nat) (p : Parser) (k : TokenKind) (ks : List TokenKind),
      Sees names (ts ++ k :: ks) p → Stop none k →
        Loses (parsePrimary fuel >>= postfixLoop fuel) Expr.size p) : LostAt names none ts := by
  intro fuel p k ks hp hk
  cases fuel with
  | zero => exact .outOfFuel
  | succ fuel =>
    unfold parseOperand
    cases fuel with
    | zero => exact .outOfFuel
    | succ fuel =>
      unfold parseUnary
      obtain ⟨k', ts', rfl, hun⟩ := hhead
      refine .bind_only (only_peek hp) ?_
      rintro p₁ rfl
      rw [hun]
      exact h fuel p₁ k ks hp hk

theorem LostAt.unary (op : UnaryOp) (h : LostAt names none ts) :
    LostAt names none (op.token :: ts) := by
  intro fuel p k ks hp hk
  cases fuel with
  | zero => exact .outOfFuel
  | succ fuel =>
    unfold parseOperand
    cases fuel with
    | zero => exact .outOfFuel
    | succ fuel =>
      unfold parseUnary
      have hop : unaryOp op.token = some op := by cases op <;> rfl
      have hne : op.token ≠ .eof := by cases op <;> simp [UnaryOp.token]
      have hp : Sees names (op.token :: (ts ++ k :: ks)) p := hp
      have hleft := hp.left
      refine .bind_only (only_peek hp) ?_
      rintro p₁ rfl
      rw [hop]
      refine .bind_only (only_bump hp hne) fun p₂ h2 => ?_
      have hleft2 := h2.left
      have hweight := op.token_weight
      rw [weight_cons] at hleft
      refine .bind (h (fuel + 1) p₂ k ks h2 hk) fun e p₃ h3 => .pure ?_
      simp only [Expr.size]
      omega

variable {k : TokenKind}

theorem LostAt.cast {ty : Ty} (hty : readType names k = some ty) (h : LostAt names none ts) :
    LostAt names none (.lParen :: k :: .rParen :: ts) := by
  refine lost_of_postfix ⟨_, _, rfl, rfl⟩ fun fuel p k' ks hp hk => ?_
  cases fuel with
  | zero => exact .outOfFuel
  | succ fuel =>
    refine Loses.bind (?_ : Loses _ Expr.size _) fun e p' _ => (weighsAt (fuel + 1)).suffix p' e
    have hp : Sees names (.lParen :: k :: .rParen :: (ts ++ k' :: ks)) p := hp
    have hleft := hp.left
    refine Partial.bind_only (only_peek hp) ?_
    rintro p₁ rfl
    refine .bind_only (only_bump hp nofun) fun p₂ h2 => ?_
    refine .bind_only (only_peekIsType h2) ?_
    rintro p₃ rfl
    rw [hty]
    refine .bind_only (only_castType hty h2) fun p₄ h4 => ?_
    refine .bind_only (only_eat .rParen h4 nofun rfl) fun p₅ h5 => ?_
    have hleft5 := h5.left
    have hsome : (readType names k).isSome = true := by rw [hty, Option.isSome_some]
    have hweight := weight_of_readType hsome
    rw [weight_cons, weight_cons, weight_cons, hweight] at hleft
    refine .bind (h (fuel + 1) p₅ k' ks h5 hk) fun e p₆ h6 => .pure ?_
    simp only [Expr.size]
    omega

variable {ks : List TokenKind}

theorem lost_type (fuel : Nat) {s : String} (hs : (readWord names s).isSome = true)
    (hk : k ≠ .rParen) (hp : Sees names (.lParen :: .ident s :: k :: ks) p) :
    Loses (parsePrimary fuel) Expr.size p := by
  cases fuel with
  | zero => exact .outOfFuel
  | succ fuel =>
    obtain ⟨ty, hty⟩ := Option.isSome_iff_exists.1 hs
    have hleft := hp.left
    refine Partial.bind_only (only_peek hp) ?_
    rintro p₁ rfl
    refine .bind_only (only_bump hp nofun) fun p₂ h2 => ?_
    refine .bind_only (only_peekIsType h2) ?_
    rintro p₃ rfl
    have hword : readType names (.ident s) = some ty := hty
    rw [hword]
    refine .bind_only (only_wordType hty h2) fun p₄ h4 => ?_
    have hdisc : k.discriminant ≠ TokenKind.rParen.discriminant := by
      cases k <;> first | exact absurd rfl hk | exact nofun
    refine .bind_only (only_eat_not .rParen h4 hdisc) ?_
    rintro p₅ rfl
    have hleft4 := h4.left
    rw [weight_cons, weight_cons] at hleft
    refine Partial.mono ((weighsAt fuel).paren p₅) fun e q h => ?_
    simp only [TokenKind.weight] at hleft
    omega

theorem LostExpr.paren (h : LostExpr names ts) (hts : ¬ StartsType names ts) (hne : ts ≠ [])
    (fuel : Nat) (hp : Sees names (.lParen :: (ts ++ .rParen :: ks)) p) :
    Loses (parsePrimary fuel) Expr.size p := by
  cases fuel with
  | zero => exact .outOfFuel
  | succ fuel =>
    have hleft := hp.left
    refine Partial.bind_only (only_peek hp) ?_
    rintro p₁ rfl
    refine .bind_only (only_bump hp nofun) fun p₂ h2 => ?_
    obtain ⟨k', ts', rfl⟩ := List.exists_cons_of_ne_nil hne
    have hno : (readType names k').isSome = false :=
      Bool.eq_false_iff.2 fun hty => hts ⟨k', rfl, hty⟩
    refine .bind_only (only_peekIsType h2) ?_
    rintro p₃ rfl
    rw [hno]
    cases fuel with
    | zero => exact .outOfFuel
    | succ fuel =>
      have hstop := stop_end (k := .rParen) (Or.inr rfl) (some .or)
      refine .bind (h fuel p₃ _ _ h2 hstop rfl) fun e p₄ h4 => ?_
      refine (partial_expect _ _).bind fun _ p₅ h5 => .pure ?_
      have hleft3 := h2.left
      rw [weight_cons] at hleft
      simp only [TokenKind.weight] at hleft
      omega

theorem lost_group (hne : ts ≠ []) (h : StartsType names ts ∨ LostExpr names ts)
    (hts : StartsType names ts → ∃ s k ks, ts = .ident s :: k :: ks ∧ k ≠ .rParen) :
    LostSuffix names (.lParen :: ts ++ [.rParen]) := by
  intro fuel p k ks hp _
  have hp : Sees names (.lParen :: (ts ++ .rParen :: k :: ks)) p := by
    simpa only [List.append_assoc, List.cons_append, List.nil_append] using hp
  refine Loses.bind (?_ : Loses _ Expr.size _) fun e p' _ => (weighsAt fuel).suffix p' e
  by_cases hstarts : StartsType names ts
  · obtain ⟨s, k', ts', rfl, hk'⟩ := hts hstarts
    obtain ⟨_, hhead, hs⟩ := hstarts
    cases hhead
    exact lost_type fuel hs hk' hp
  · exact (h.resolve_left hstarts).paren hstarts hne fuel hp

/-! ### Arguments and suffixes -/

/-- The arguments after the first have lost something. -/
def LostRest (names : List String) (ts : List TokenKind) : Prop :=
  ∀ (fuel : Nat) (args : List Expr) (p : Parser) (ks : List TokenKind),
    Sees names (ts ++ .rParen :: ks) p →
      Partial (afterArg fuel args) p fun es p' => sizes es + left p' < sizes args + left p

def LostArgs (names : List String) (ts : List TokenKind) : Prop :=
  ∀ (fuel : Nat) (p : Parser) (ks : List TokenKind), Sees names (ts ++ .rParen :: ks) p →
    Loses (parseArgs fuel) sizes p

theorem partial_afterArg (fuel : Nat) (args : List Expr) (p : Parser) :
    Within (afterArg fuel args) sizes (sizes args + left p) p := by
  refine (partial_eat .comma).bind fun b p₁ h1 => ?_
  cases b with
  | true => exact Within.mono ((weighsAt fuel).argsLoop p₁ args) (by omega)
  | false => exact .pure (by omega)

variable {es : List Expr}

theorem lost_argsLoop {sp : Spelling} {e : Expr} (hw : e.size = weight ts)
    (h : LostExpr names ts ∨ ReadsExpr names ts e ∧ LostRest names (printRest sp es)) (fuel : Nat)
    (args : List Expr) (hp : Sees names (ts ++ (printRest sp es ++ .rParen :: ks)) p) :
    Partial (argsLoop fuel args) p fun es p' => sizes es + left p' < sizes args + left p := by
  cases fuel with
  | zero => exact .outOfFuel
  | succ fuel =>
    obtain ⟨k, ks', hhead, hk⟩ := printRest_head sp es ks
    have hleft := hp.left
    rw [weight_append] at hleft
    rw [hhead] at hp
    obtain ⟨hstop, hassign⟩ := stop_arg hk
    rcases h with h | ⟨he, h⟩
    · refine .bind (h fuel p k ks' hp hstop hassign) fun e p₁ h1 => ?_
      refine Partial.mono (partial_afterArg fuel (args ++ [e]) p₁) fun es q h2 => ?_
      rw [sizes_append] at h2
      simp only [sizes] at h2
      omega
    · refine .bind_only (he fuel p k ks' hp hstop hassign) fun p₁ h1 => ?_
      rw [← hhead] at h1
      have hleft1 := h1.left
      refine Partial.mono (h fuel (args ++ [e]) p₁ ks h1) fun es q h2 => ?_
      rw [sizes_append] at h2
      simp only [sizes] at h2
      omega

theorem LostRest.cons {sp : Spelling} {e : Expr} (hw : e.size = weight ts)
    (h : LostExpr names ts ∨ ReadsExpr names ts e ∧ LostRest names (printRest sp es)) :
    LostRest names (.comma :: ts ++ printRest sp es) := by
  intro fuel args p ks hp
  have hp : Sees names (.comma :: (ts ++ (printRest sp es ++ .rParen :: ks))) p := by
    simpa only [List.append_assoc, List.cons_append] using hp
  have hleft := hp.left
  rw [weight_cons] at hleft
  refine .bind_only (only_eat .comma hp nofun rfl) fun p₁ h1 => ?_
  have hleft1 := h1.left
  refine Partial.mono (lost_argsLoop hw h fuel args h1) fun es q h2 => ?_
  simp only [TokenKind.weight] at hleft
  omega

theorem LostArgs.cons {sp : Spelling} {e : Expr} (hhead : ∃ k ks, ts = k :: ks ∧ k ≠ .rParen)
    (hw : e.size = weight ts)
    (h : LostExpr names ts ∨ ReadsExpr names ts e ∧ LostRest names (printRest sp es)) :
    LostArgs names (ts ++ printRest sp es) := by
  intro fuel p ks hp
  cases fuel with
  | zero => exact .outOfFuel
  | succ fuel =>
    obtain ⟨k, ts', rfl, hk⟩ := hhead
    refine Partial.bind_only (only_peek hp) ?_
    rintro p₁ rfl
    rw [if_neg hk]
    rw [List.append_assoc] at hp
    refine Partial.mono (lost_argsLoop hw h fuel [] hp) fun es q h2 => ?_
    simpa [sizes] using h2

theorem LostSuffix.call (s : String) (h : LostArgs names ts) :
    LostSuffix names (.ident s :: .lParen :: ts ++ [.rParen]) := by
  intro fuel p k ks hp _
  refine Loses.bind (?_ : Loses _ Expr.size _) fun e p' _ => (weighsAt fuel).suffix p' e
  have hp : Sees names (.ident s :: .lParen :: (ts ++ .rParen :: k :: ks)) p := by
    simpa only [List.append_assoc, List.cons_append, List.nil_append] using hp
  have hleft := hp.left
  rw [weight_cons, weight_cons] at hleft
  cases fuel with
  | zero => exact .outOfFuel
  | succ fuel =>
    refine Partial.bind_only (only_peek hp) ?_
    rintro p₁ rfl
    refine .bind_only (only_bump hp (by simp)) fun p₂ h2 => ?_
    refine .bind_only (only_eat .lParen h2 (by simp) rfl) fun p₃ h3 => ?_
    have hleft3 := h3.left
    refine .bind (h fuel p₃ _ h3) fun es p₄ h4 => ?_
    refine (partial_expect _ _).bind fun _ p₅ h5 => ?_
    simp only [TokenKind.weight] at hleft
    split
    · refine .pure ?_
      simp only [Expr.size]
      omega
    · refine .pure ?_
      simp only [Expr.size]
      omega

theorem LostSuffix.append (h : LostSuffix names ts) (hk : k ≠ .lParen) :
    LostSuffix names (ts ++ k :: ts') := by
  intro fuel p k' ks hp _
  rw [List.append_assoc] at hp
  exact h fuel p k _ hp hk

theorem LostSuffix.methodCall {e : Expr} (m : String) (he : Suffixes names ts e)
    (hw : e.size = weight ts) (h : LostArgs names ts') :
    LostSuffix names (ts ++ .dot :: .ident m :: .lParen :: ts' ++ [.rParen]) := by
  intro fuel p k ks hp hk
  have hp : Sees names (ts ++ .dot :: .ident m :: .lParen :: (ts' ++ .rParen :: k :: ks)) p := by
    simpa only [List.append_assoc, List.cons_append, List.nil_append] using hp
  have hleft := hp.left
  rw [weight_append] at hleft
  refine (he fuel p .dot _ hp (by simp)).returned fun fuel' p' h' => ?_
  have hleft' := h'.left
  cases fuel' with
  | zero => exact .outOfFuel
  | succ fuel' =>
    rw [postfixLoop]
    refine .bind_only (only_peek h') ?_
    rintro p₁ rfl
    rw [if_pos rfl]
    refine .bind_only (only_bump h' (by simp)) fun p₂ h2 => ?_
    refine .bind_only (only_expectIdent _ h2) fun p₃ h3 => ?_
    refine .bind_only (only_eat .lParen h3 (by simp) rfl) fun p₄ h4 => ?_
    have hleft4 := h4.left
    refine .bind (h fuel' p₄ _ h4) fun es p₅ h5 => ?_
    refine (partial_expect _ _).bind fun _ p₆ h6 => ?_
    refine Partial.mono ((weighsAt fuel').suffix p₆ _) fun e q h7 => ?_
    simp only [Expr.size] at h7
    simp only [weight_cons, TokenKind.weight] at hleft hleft'
    omega

end

/-! ### Assignments -/

section

variable {ts ts' : List TokenKind}

theorem lost_assign_lhs (h : LostAt names (some .or) ts) (fuel : Nat) {p : Parser} {k : TokenKind}
    {ks : List TokenKind} (hp : Sees names (ts ++ k :: ks) p) (hk : Stop (some .or) k) :
    Loses (parseAssign fuel) Expr.size p := by
  cases fuel with
  | zero => exact .outOfFuel
  | succ fuel =>
    unfold parseAssign
    refine Loses.bind (h (fuel + 1) p k ks hp hk) fun lhs p₁ _ => ?_
    refine partial_peek_bump fun k' p₂ hpeek h2 => ?_
    subst h2
    split
    · next op hop =>
      have hw := assignOp_weight hop
      refine (partial_bump_seen hpeek).bind fun _ p₃ h3 => ?_
      refine .bind ((weighsAt fuel).assign p₃) fun rhs p₄ hr => .pure ?_
      simp only [Expr.size]
      omega
    · exact .pure (Nat.le_refl _)

theorem LostAt.expr (h : LostAt names (some .or) ts) : LostExpr names ts :=
  fun fuel _ _ _ hp hk _ => lost_assign_lhs h fuel hp hk

theorem LostExpr.of_lhs {op : BinaryOp} (hop : op.prec = 0) (h : LostAt names (some .or) ts) :
    LostExpr names (ts ++ op.token :: ts') := by
  intro fuel p k ks hp _ _
  rw [List.append_assoc] at hp
  exact lost_assign_lhs h fuel hp (stop_assign hop _)

theorem LostExpr.of_rhs {op : BinaryOp} {lhs : Expr} (hop : op.prec = 0)
    (hl : Reads names (some .or) ts lhs) (hw : lhs.size = weight ts) (h : LostExpr names ts') :
    LostExpr names (ts ++ op.token :: ts') := by
  intro fuel p k ks hp hk hassign
  have hp : Sees names (ts ++ op.token :: (ts' ++ k :: ks)) p := by
    simpa only [List.append_assoc, List.cons_append] using hp
  have hleft := hp.left
  have hop_weight := op.token_weight
  rw [weight_append, weight_cons] at hleft
  cases fuel with
  | zero => exact .outOfFuel
  | succ fuel =>
    unfold parseAssign
    refine Partial.bind_only (hl (fuel + 1) p _ _ hp (stop_assign hop _)) fun p₁ h1 => ?_
    refine .bind_only (only_peek h1) ?_
    rintro p₂ rfl
    rw [assignOp_token hop]
    refine .bind_only (only_bump h1 op.token_ne_eof) fun p₃ h3 => ?_
    have hleft3 := h3.left
    refine .bind (h fuel p₃ k ks h3 hk hassign) fun rhs p₄ h4 => .pure ?_
    simp only [Expr.size]
    omega

end

/-! ### Printed expressions -/

/-- From the tokens `ts`, whatever is read where precedence `n` is expected has lost something. -/
structure LostAs (names : List String) (ts : List TokenKind) (n : Nat) : Prop where
  suffixes : n = 11 → LostSuffix names ts
  operand : 1 ≤ n → LostAt names (slotOf n) ts
  loops : ∀ level : Level, slotPrec (some level) = n → LostLoop names level ts
  expr : LostExpr names ts

section

variable {ts ts' : List TokenKind} {n m : Nat}

theorem LostAs.looser (h : LostAs names ts m) (hm : m ≤ 11) (hle : n ≤ m) : LostAs names ts n := by
  refine ⟨fun hn => h.suffixes (by omega), fun hn => ?_, ?_, h.expr⟩
  · exact (h.operand (by omega)).looser (slotPrec_slotOf_mono hle)
  · intro level hlevel
    rcases Nat.lt_or_ge n m with hlt | hge
    · refine LostAt.loop ((h.operand (by omega)).looser ?_)
      exact slotPrec_operand_le (by omega)
    · exact h.loops level (by omega)

theorem LostAs.of_unary (h : LostAt names none ts) : LostAs names ts 10 := by
  refine ⟨nofun, fun _ => h, ?_, (h.looser (slotPrec_le _)).expr⟩
  intro level hlevel
  cases level <;> cases hlevel

theorem LostAs.of_suffixes (h : LostSuffix names ts) (hhead : StartsPostfix ts) :
    LostAs names ts 11 := by
  have hlost : LostAt names none ts :=
    lost_of_postfix hhead fun fuel p k ks hp hk => h fuel p k ks hp hk.paren
  refine ⟨fun _ => h, fun _ => hlost, ?_, (hlost.looser (slotPrec_le _)).expr⟩
  intro level hlevel
  cases level <;> cases hlevel

theorem LostAs.of_loops {level : Level} (h : LostLoop names level ts) :
    LostAs names ts (slotPrec (some level)) := by
  refine ⟨?_, fun _ => ?_, ?_, (h.operand.looser ?_).expr⟩
  · intro hn
    cases level <;> cases hn
  · rw [slotPrec_slotOf]
    exact h.operand
  · intro level' hlevel
    have heq : some level' = some level := by
      rw [← slotPrec_slotOf level', hlevel, slotPrec_slotOf]
    cases heq
    exact h
  · cases level <;> decide

/-- In parentheses if need be. -/
theorem LostAs.group {sp : Spelling} {e : Expr} (hn : n ≤ 11)
    (hc : ¬ ((e.prec < n → ¬ StartsType names (e.print sp)) ∧ e.Clear names sp))
    (h : ¬ e.Clear names sp → LostAs names (e.print sp) e.prec) :
    LostAs names (group (e.prec < n) (e.print sp)) n := by
  unfold WinCompat.Hlsl.group
  by_cases hlt : e.prec < n
  · rw [if_pos hlt]
    refine (of_suffixes (lost_group (print_ne_nil sp e) ?_ ?_) ⟨_, _, rfl, rfl⟩).looser
      (Nat.le_refl _) hn
    · by_cases hs : StartsType names (e.print sp)
      · exact Or.inl hs
      · exact Or.inr (h fun hclear => hc ⟨fun _ => hs, hclear⟩).expr
    · intro hs
      rcases begins_print sp e with ⟨s, rfl⟩ | hbegins
      · exact absurd (Nat.lt_of_lt_of_le hlt hn) (Nat.lt_irrefl _)
      · exact hbegins.name_of_type hs
  · rw [if_neg hlt]
    exact (h fun hclear => hc ⟨fun h => absurd h hlt, hclear⟩).looser e.prec_le
      (Nat.le_of_not_lt hlt)

end

theorem reads_operand {sp : Spelling} {e : Expr} {n : Nat} (hn : n ≤ 11)
    (hp : e.Producible names sp)
    (hc : (e.prec < n → ¬ StartsType names (e.print sp)) ∧ e.Clear names sp) :
    ReadsAs names (group (e.prec < n) (e.print sp)) n e ∧
      e.size = weight (group (e.prec < n) (e.print sp)) :=
  ⟨(reads_print sp e hp hc.2).group e.prec_le hn (print_ne_nil sp e) hc.1,
    by rw [weight_group, weight_print e hp]⟩

theorem LostAs.of_lhs {op : BinaryOp} {ts ts' : List TokenKind}
    (hop : op ≠ .bitAnd ∧ op ≠ .bitOr ∧ op ≠ .bitXor) (h : LostAs names ts op.lhsPrec) :
    LostAs names (ts ++ op.token :: ts') op.prec := by
  by_cases hassign : op.prec = 0
  · obtain ⟨hlhs, hone⟩ := slotOf_lhsPrec hassign
    refine ⟨fun hn => by omega, fun hn => by omega, fun level hn => ?_,
      .of_lhs hassign (hlhs ▸ h.operand hone)⟩
    rw [hassign] at hn
    cases level <;> cases hn
  · obtain ⟨level, -, hprec⟩ := exists_level op (Nat.pos_of_ne_zero hassign) hop
    have hlhs := (slotPrec_slotOf_operand hprec).1
    rw [← hprec]
    exact .of_loops ((h.loops level hlhs.symm).of_lhs hprec)

theorem LostAs.of_rhs {op : BinaryOp} {lhs : Expr} {ts ts' : List TokenKind}
    (hop : op ≠ .bitAnd ∧ op ≠ .bitOr ∧ op ≠ .bitXor) (hl : ReadsAs names ts op.lhsPrec lhs)
    (hw : lhs.size = weight ts) (h : LostAs names ts' op.rhsPrec) :
    LostAs names (ts ++ op.token :: ts') op.prec := by
  by_cases hassign : op.prec = 0
  · obtain ⟨hlhs, hone⟩ := slotOf_lhsPrec hassign
    refine ⟨fun hn => by omega, fun hn => by omega, fun level hn => ?_,
      .of_rhs hassign (hlhs ▸ hl.operand hone) hw h.expr⟩
    rw [hassign] at hn
    cases level <;> cases hn
  · obtain ⟨level, hlevel, hprec⟩ := exists_level op (Nat.pos_of_ne_zero hassign) hop
    obtain ⟨hlhs, hrhs⟩ := slotPrec_slotOf_operand hprec
    have hone := one_le_rhsPrec hassign
    rw [← hprec]
    exact .of_loops (.of_rhs hlevel (hl.loops level hlhs.symm) hw (hrhs ▸ h.operand hone))

mutual

theorem lost_print (sp : Spelling) :
    ∀ e : Expr, e.Producible names sp → ¬ e.Clear names sp → LostAs names (e.print sp) e.prec
  | .literal _, _, hc | .ident _, _, hc => absurd trivial hc
  | .construct ty args, hp, hc =>
      .of_suffixes (.call _ (lost_printArgs sp args hp.2 hc))
        (startsPostfix_print sp (.construct ty args) rfl)
  | .call s args, hp, hc =>
      .of_suffixes (.call _ (lost_printArgs sp args hp.2 hc))
        (startsPostfix_print sp (.call s args) rfl)
  | .methodCall base m args, hp, hc => by
      refine .of_suffixes ?_ (startsPostfix_print sp (.methodCall base m args) rfl)
      by_cases hb : (base.prec < 11 → ¬ StartsType names (base.print sp)) ∧ base.Clear names sp
      · obtain ⟨hreads, hw⟩ := reads_operand (Nat.le_refl 11) hp.1 hb
        exact .methodCall m (hreads.suffixes rfl) hw
          (lost_printArgs sp args hp.2 fun hargs => hc ⟨hb.1, hb.2, hargs⟩)
      · have h := LostAs.group (Nat.le_refl 11) hb (lost_print sp base hp.1)
        rw [Expr.print, List.append_assoc]
        exact (h.suffixes rfl).append nofun
  | .member base m, hp, hc => by
      refine .of_suffixes ?_ (startsPostfix_print sp (.member base m) rfl)
      have h := LostAs.group (Nat.le_refl 11) hc (lost_print sp base hp)
      exact (h.suffixes rfl).append nofun
  | .binary op lhs rhs, hp, hc => by
      by_cases hl : (lhs.prec < op.lhsPrec → ¬ StartsType names (lhs.print sp)) ∧
          lhs.Clear names sp
      · obtain ⟨hreads, hw⟩ := reads_operand op.lhsPrec_le.1 hp.2.1 hl
        exact .of_rhs hp.1 hreads hw
          (.group op.lhsPrec_le.2 (fun hr => hc ⟨hl, hr⟩) (lost_print sp rhs hp.2.2))
      · exact .of_lhs hp.1 (.group op.lhsPrec_le.1 hl (lost_print sp lhs hp.2.1))
  | .unary op e, hp, hc => by
      have h := LostAs.group (n := 10) (by decide) hc (lost_print sp e hp)
      exact .of_unary (.unary op (h.operand (by decide)))
  | .cast ty e, hp, hc => by
      have h := LostAs.group (n := 10) (by decide) hc (lost_print sp e hp.2)
      exact .of_unary (.cast hp.1 (h.operand (by decide)))

theorem lost_printArgs (sp : Spelling) :
    ∀ es : List Expr, AllProducible names sp es → ¬ AllClear names sp es →
      LostArgs names (printArgs sp es)
  | [], _, hc => absurd trivial hc
  | e :: es, hp, hc => by
      obtain ⟨k, ks, hhead, hk⟩ := print_head sp e
      refine .cons ⟨k, ks, hhead, ?_⟩ (weight_print e hp.1).symm ?_
      · intro h
        rw [h] at hk
        cases hk
      · by_cases he : e.Clear names sp
        · exact Or.inr ⟨(reads_print sp e hp.1 he).expr,
            lost_printRest sp es hp.2 fun hes => hc ⟨he, hes⟩⟩
        · exact Or.inl (lost_print sp e hp.1 he).expr

theorem lost_printRest (sp : Spelling) :
    ∀ es : List Expr, AllProducible names sp es → ¬ AllClear names sp es →
      LostRest names (printRest sp es)
  | [], _, hc => absurd trivial hc
  | e :: es, hp, hc => by
      refine .cons (weight_print e hp.1).symm ?_
      by_cases he : e.Clear names sp
      · exact Or.inr ⟨(reads_print sp e hp.1 he).expr,
          lost_printRest sp es hp.2 fun hes => hc ⟨he, hes⟩⟩
      · exact Or.inl (lost_print sp e hp.1 he).expr

end

/-! ## Round trips -/

/-- `Parser::parse_expr`, with fuel for the tokens that there are. -/
def Parser.expr (p : Parser) : Option Expr :=
  (parseExpr p.fuel p).toOption.map Prod.fst

/-- The printed expression is parsed to the expression. -/
def Expr.RoundTrips (names : List String) (sp : Spelling) (e : Expr) : Prop :=
  ∀ p, Sees names (e.print sp ++ [.eof]) p → p.expr = some e

/-- With parentheses around it, it is parsed to the same. -/
def Expr.Transparent (names : List String) (sp : Spelling) (e : Expr) : Prop :=
  ∀ p q, Sees names (e.print sp ++ [.eof]) p →
    Sees names (.lParen :: e.print sp ++ [.rParen, .eof]) q → q.expr = p.expr

/-- A parser that sees these tokens. -/
def Parser.on (names : List String) (ks : List TokenKind) : Parser :=
  ⟨ks.map fun k => ⟨k, ⟨0, 0⟩⟩, 0, names⟩

theorem Parser.on_sees (names : List String) (ks : List TokenKind) :
    Sees names ks (Parser.on names ks) := by
  refine ⟨rfl, ?_⟩
  simp [Parser.on, Function.comp_def]

theorem Sees.wf {ks : List TokenKind} {p : Parser} (h : Sees names (ks ++ [.eof]) p) : p.Wf := by
  have hlen := congrArg List.length h.kinds
  simp only [List.length_map, List.length_drop, List.length_append, List.length_singleton] at hlen
  have hbound : p.idx < p.toks.length := by omega
  refine ⟨hbound, fun t ht => ?_⟩
  rw [← List.getLast?_eq_getElem?] at ht
  have hlast := congrArg List.getLast? h.kinds
  rw [List.getLast?_map, List.getLast?_drop, if_neg (by omega), ht, List.getLast?_concat] at hlast
  exact Option.some.inj hlast

theorem stop_eof : Stop (some .or) .eof ∧ assignOp .eof = none :=
  ⟨⟨nofun, nofun, fun level _ => by cases level <;> rfl⟩, rfl⟩

theorem Parser.expr_eq_some {p : Parser} {e : Expr} :
    p.expr = some e ↔ ∃ p', parseExpr p.fuel p = .ok (e, p') := by
  unfold Parser.expr
  cases h : parseExpr p.fuel p with
  | ok r =>
    obtain ⟨e', p'⟩ := r
    simp [Outcome.toOption]
  | _ => simp [Outcome.toOption]

variable {ts : List TokenKind} {e : Expr} {sp : Spelling}

theorem ReadsExpr.parsed (h : ReadsExpr names ts e) {p : Parser}
    (hp : Sees names (ts ++ [.eof]) p) : p.expr = some e := by
  have hfuel := p.rem_le_fuel
  obtain ⟨p', hok, -⟩ := (h p.fuel p _ _ hp stop_eof.1 stop_eof.2).eq
    (meets_parseExpr hp.wf (by omega))
  exact Parser.expr_eq_some.2 ⟨p', hok⟩

theorem LostExpr.not_parsed (h : LostExpr names ts) (hw : e.size = weight ts) {p : Parser}
    (hp : Sees names (ts ++ [.eof]) p) : p.expr ≠ some e := by
  intro hexpr
  obtain ⟨p', hok⟩ := Parser.expr_eq_some.1 hexpr
  have hlt := h p.fuel p _ _ hp stop_eof.1 stop_eof.2 e p' hok
  have hleft := hp.left
  rw [weight_append, weight_cons] at hleft
  simp only [TokenKind.weight, weight_nil] at hleft
  omega

theorem roundTrips_iff (h : e.Producible names sp) :
    e.RoundTrips names sp ↔ e.Clear names sp := by
  constructor
  · intro hround
    by_contra hc
    have hp := Parser.on_sees names (e.print sp ++ [.eof])
    exact (lost_print sp e h hc).expr.not_parsed (weight_print e h).symm hp (hround _ hp)
  · intro hc p hp
    exact (reads_print sp e h hc).expr.parsed hp

/-! ### One pair of parentheses more -/

theorem partial_assign_of_primary {p : Parser} {k : TokenKind} {ks : List TokenKind}
    (hp : Sees names (k :: ks) p) (hun : unaryOp k = none)
    (h : ∀ fuel, Partial (parsePrimary fuel) p fun _ _ => False) (fuel : Nat) :
    Partial (parseAssign fuel) p fun _ _ => False := by
  have hnone : ∀ fuel, Partial (parseUnary fuel) p fun _ _ => False := by
    intro fuel
    cases fuel with
    | zero => exact .outOfFuel
    | succ fuel =>
      unfold parseUnary
      refine .bind_only (only_peek hp) ?_
      rintro p₁ rfl
      rw [hun]
      exact (h fuel).bind fun _ _ h => h.elim
  have hor : ∀ fuel, Partial (parseOperand fuel (some .or)) p fun _ _ => False := by
    refine looser_induction (o := none)
      (motive := fun o => ∀ fuel, Partial (parseOperand fuel o) p fun _ _ => False) ?_ ?_
      (slotPrec_le _)
    · intro level hlevel fuel
      cases fuel with
      | zero => exact .outOfFuel
      | succ fuel =>
        unfold parseOperand
        cases fuel with
        | zero => exact .outOfFuel
        | succ fuel =>
          unfold parseBinary
          exact (hlevel fuel).bind fun _ _ h => h.elim
    · intro fuel
      cases fuel with
      | zero => exact .outOfFuel
      | succ fuel => exact hnone fuel
  cases fuel with
  | zero => exact .outOfFuel
  | succ fuel =>
    unfold parseAssign
    exact Partial.bind (hor (fuel + 1)) fun _ _ h => h.elim

theorem partial_unary_eof (fuel : Nat) {p : Parser} (hp : Sees names [.eof] p) :
    Partial (parseUnary fuel) p fun _ _ => False := by
  cases fuel with
  | zero => exact .outOfFuel
  | succ fuel =>
    unfold parseUnary
    refine .bind_only (only_peek hp) ?_
    rintro p₁ rfl
    refine Partial.bind (Q := fun _ _ => False) ?_ fun _ _ h => h.elim
    cases fuel with
    | zero => exact .outOfFuel
    | succ fuel =>
      refine .bind_only (only_peek hp) ?_
      rintro p₂ rfl
      exact partial_unexpected _

theorem cast_of_nothing {s : String} (hs : (readWord names s).isSome = true) {p : Parser}
    (hp : Sees names [.lParen, .ident s, .rParen, .eof] p) (e : Expr) : p.expr ≠ some e := by
  intro hexpr
  obtain ⟨p', hok⟩ := Parser.expr_eq_some.1 hexpr
  refine partial_assign_of_primary hp rfl (fun fuel => ?_) p.fuel e p' hok
  cases fuel with
  | zero => exact .outOfFuel
  | succ fuel =>
    obtain ⟨ty, hty⟩ := Option.isSome_iff_exists.1 hs
    refine Partial.bind_only (only_peek hp) ?_
    rintro p₁ rfl
    refine .bind_only (only_bump hp nofun) fun p₂ h2 => ?_
    refine .bind_only (only_peekIsType h2) ?_
    rintro p₃ rfl
    have hword : readType names (.ident s) = some ty := hty
    rw [hword]
    refine .bind_only (only_wordType hty h2) fun p₄ h4 => ?_
    refine .bind_only (only_eat .rParen h4 nofun rfl) fun p₅ h5 => ?_
    exact (partial_unary_eof fuel h5).bind fun _ _ h => h.elim

theorem startsType_not_parsed (h : e.Producible names sp) (hs : StartsType names (e.print sp))
    {p : Parser} (hp : Sees names (.lParen :: e.print sp ++ [.rParen, .eof]) p) :
    p.expr ≠ some e := by
  rcases begins_print sp e with ⟨s, rfl⟩ | hbegins
  · obtain ⟨_, hhead, hty⟩ := hs
    cases hhead
    exact cast_of_nothing hty hp _
  · have hlost : LostSuffix names (.lParen :: e.print sp ++ [.rParen]) :=
      lost_group (print_ne_nil sp e) (Or.inl hs) fun _ => hbegins.name_of_type hs
    have hw : e.size = weight (.lParen :: e.print sp ++ [.rParen]) := by
      simp [TokenKind.weight, weight_print e h]
    refine (LostAs.of_suffixes hlost ⟨_, _, rfl, rfl⟩).expr.not_parsed hw ?_
    simpa only [List.append_assoc, List.cons_append, List.nil_append] using hp

/-- The type is taken for a cast, whether the `(` and `)` are those that `print` needs or one pair
    more: an expression survives both ways exactly when no pair stands before a type. -/
theorem parens_read_back_iff (h : e.Producible names sp) :
    (e.RoundTrips names sp ∧ e.Transparent names sp) ↔
      (e.Clear names sp ∧ ¬ StartsType names (e.print sp)) := by
  rw [roundTrips_iff h]
  refine and_congr_right fun hc => ?_
  have hreads := reads_print sp e h hc
  constructor
  · intro htrans hs
    have hp := Parser.on_sees names (e.print sp ++ [.eof])
    have hq := Parser.on_sees names (.lParen :: e.print sp ++ [.rParen, .eof])
    refine startsType_not_parsed h hs hq ?_
    rw [htrans _ _ hp hq]
    exact hreads.expr.parsed hp
  · intro hs p q hp hq
    have hgroup := hreads.expr.group hs (print_ne_nil sp e)
    have hread := (ReadsAs.of_suffixes hgroup ⟨_, _, rfl, rfl⟩).expr
    rw [hreads.expr.parsed hp]
    refine hread.parsed ?_
    simpa only [List.append_assoc, List.cons_append, List.nil_append] using hq

/-- Types as the language spells them. -/
def typeSpelling : Spelling := ⟨fun ty => String.ofList (typeWord ty), typeToken⟩

/-- `(float3(x) + a) * b` -/
def shiftedTimes : Expr :=
  .binary .mul (.binary .add (.construct (.vector .float 3) [.ident "x"]) (.ident "a")) (.ident "b")

theorem shiftedTimes_producible : shiftedTimes.Producible [] typeSpelling := by
  refine ⟨⟨nofun, nofun, nofun⟩, ⟨⟨nofun, nofun, nofun⟩, ⟨?_, trivial, trivial⟩, trivial⟩, trivial⟩
  decide

theorem parens_read_back_shiftedTimes :
    (shiftedTimes.RoundTrips [] typeSpelling ∧ shiftedTimes.Transparent [] typeSpelling) ↔
      (shiftedTimes.Clear [] typeSpelling ∧
        ¬ StartsType [] (shiftedTimes.print typeSpelling)) :=
  parens_read_back_iff shiftedTimes_producible

/-- The constructor is gone: `(x + a) * b` is what is parsed. -/
theorem shiftedTimes_loses_type :
    shiftedTimes.Producible [] typeSpelling ∧
      (Parser.on [] (shiftedTimes.print typeSpelling ++ [.eof])).expr =
        some (.binary .mul (.binary .add (.ident "x") (.ident "a")) (.ident "b")) ∧
      ¬ (shiftedTimes.RoundTrips [] typeSpelling ∧
        shiftedTimes.Transparent [] typeSpelling) := by
  have hparsed : (Parser.on [] (shiftedTimes.print typeSpelling ++ [.eof])).expr =
      some (.binary .mul (.binary .add (.ident "x") (.ident "a")) (.ident "b")) := by
    rfl
  refine ⟨shiftedTimes_producible, hparsed, fun h => ?_⟩
  have hround := h.1 _ (Parser.on_sees [] (shiftedTimes.print typeSpelling ++ [.eof]))
  rw [hparsed] at hround
  cases hround

end WinCompat.Hlsl
