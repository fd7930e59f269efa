import WinCompat.Hlsl.Parser

/-!
# The parser returns

For a token array that ends in `Eof`, with the cursor on a token, the parser neither indexes past
the end nor runs out of the fuel it starts with: it returns or reports an error. A returned
expression, statement or declaration has consumed at least one token, which is why the loops end.

The fuel a parser function needs is 16 for each token that is left and a few more for the calls it
makes before the next token is consumed; the constants below count those calls.
-/

namespace WinCompat.Hlsl

open Lib Lib.Comp

/-! ## States -/

/-- The tokens end in `Eof` and the cursor is on one of them. -/
structure Parser.Wf (p : Parser) : Prop where
  bound : p.idx < p.toks.length
  last : ∀ t, p.toks[p.toks.length - 1]? = some t → t.kind = .eof

/-- The tokens from the cursor on. -/
def Parser.rem (p : Parser) : Nat := p.toks.length - p.idx

/-- `p'` is `p` with the cursor at least `n` tokens further on. -/
structure Steps (p : Parser) (n : Nat) (p' : Parser) : Prop where
  wf : p'.Wf
  toks : p'.toks = p.toks
  names : p'.structNames = p.structNames
  idx : p.idx + n ≤ p'.idx

variable {α β : Type} {p p₁ p₂ p' : Parser} {m n k : Nat}

theorem Steps.refl (hp : p.Wf) : Steps p 0 p := ⟨hp, rfl, rfl, Nat.le_refl _⟩

theorem Steps.trans (h : Steps p m p₁) (h' : Steps p₁ n p₂) :
    Steps p (m + n) p₂ := by
  refine ⟨h'.wf, h'.toks.trans h.toks, h'.names.trans h.names, ?_⟩
  have := h.idx
  have := h'.idx
  omega

theorem Steps.weaken (h : Steps p m p') (hn : n ≤ m) :
    Steps p n p' := by
  refine ⟨h.wf, h.toks, h.names, ?_⟩
  have := h.idx
  omega

theorem Steps.rem (h : Steps p n p') : p'.rem + n ≤ p.rem := by
  have hb := h.wf.bound
  have hi := h.idx
  unfold Parser.rem
  rw [h.toks] at hb ⊢
  omega

/-- From `p`, `x` returns only after `n` tokens or more. -/
abbrev Consumes (x : P α) (p : Parser) (n : Nat) : Prop :=
  Meets x p fun _ p' => Steps p n p'

theorem Steps.done {a : α} (h : Steps p m p₁)
    (hk : k ≤ m) : Meets (pure a : P α) p₁ fun _ p₂ => Steps p k p₂ :=
  Meets.pure (h.weaken hk)

/-- One step of a proof about a parser function: the next call consumes `n` tokens, and the rest
    starts that much further on, with the bound on the tokens left that the fuel is counted
    against. -/
theorem Steps.bind {x : P α} {f : α → P β}
    {Q : β → Parser → Prop} (h : Steps p m p₁) (hx : Consumes x p₁ n)
    (hf : ∀ a p₂, Steps p (m + n) p₂ → p₂.rem + (m + n) ≤ p.rem → Meets (f a) p₂ Q) :
    Meets (x >>= f) p₁ Q :=
  Meets.bind hx fun a p₂ h' => hf a p₂ (h.trans h') (h.trans h').rem

theorem Steps.last {x : P α} (h : Steps p m p₁)
    (hx : Consumes x p₁ n) (hk : k ≤ m + n) : Meets x p₁ fun _ p₂ => Steps p k p₂ :=
  hx.mono fun _ _ h' => (h.trans h').weaken hk

/-! ## Token helpers -/

/-- The cursor is on a token, so looking at it does not index past the end. -/
theorem meets_peek (hp : p.Wf) :
    Meets peek p fun k p' => p' = p ∧ ∃ t, p.toks[p.idx]? = some t ∧ t.kind = k := by
  have ht := List.getElem?_eq_getElem hp.bound
  unfold Meets peek
  rw [bind_ok (show Comp.get p = .ok (p, p) from rfl)]
  have hat : tokenAt p.idx p = .ok (p.toks.get ⟨p.idx, hp.bound⟩, p) := by
    unfold tokenAt
    rw [ht]
    rfl
  rw [bind_ok hat]
  exact ⟨rfl, _, ht, rfl⟩

theorem meets_tokenAt {i : Nat} (h : i < p.toks.length) :
    Meets (tokenAt i) p fun t p' => p' = p ∧ p.toks[i]? = some t := by
  have ht := List.getElem?_eq_getElem h
  unfold Meets tokenAt
  rw [ht]
  exact ⟨rfl, rfl⟩

theorem steps_advance (hp : p.Wf) {t : Token} (ht : p.toks[p.idx]? = some t)
    (hk : t.kind ≠ .eof) : Steps p 1 { p with idx := p.idx + 1 } := by
  refine ⟨⟨?_, hp.last⟩, rfl, rfl, Nat.le_refl _⟩
  have hb := hp.bound
  have hne : p.idx ≠ p.toks.length - 1 := by
    intro e
    rw [e] at ht
    exact hk (hp.last t ht)
  show p.idx + 1 < p.toks.length
  omega

/-- Consumes the token under the cursor, except `Eof`, on which the cursor stays. -/
theorem meets_bump (hp : p.Wf) :
    Meets bump p fun k p' => (∃ t, p.toks[p.idx]? = some t ∧ t.kind = k) ∧ Steps p 0 p' ∧
      (k ≠ .eof → Steps p 1 p') := by
  refine Meets.bind (meets_peek hp) ?_
  intro k p' h
  obtain ⟨rfl, t, ht, hk⟩ := h
  by_cases he : k = .eof
  · rw [if_pos he]
    exact Meets.pure ⟨⟨t, ht, hk⟩, .refl hp, fun hne => absurd he hne⟩
  · rw [if_neg he]
    have hs := steps_advance hp ht (hk ▸ he)
    exact ⟨⟨t, ht, hk⟩, hs.weaken (Nat.zero_le _), fun _ => hs⟩

theorem meets_bump_peeked (hp : p.Wf) {t : Token} (ht : p.toks[p.idx]? = some t)
    (hk : t.kind ≠ .eof) : Consumes bump p 1 := by
  refine (meets_bump hp).mono ?_
  intro k p' h
  obtain ⟨⟨u, hu, rfl⟩, -, hs⟩ := h
  rw [ht] at hu
  cases hu
  exact hs hk

variable {Q : α → Parser → Prop}

theorem Steps.bind_peek {f : TokenKind → P α} (h : Steps p m p₁)
    (hf : ∀ k, (k ≠ .eof → Consumes bump p₁ 1) → Meets (f k) p₁ Q) : Meets (peek >>= f) p₁ Q := by
  refine Meets.bind (meets_peek h.wf) ?_
  intro k p' hk
  obtain ⟨rfl, t, ht, rfl⟩ := hk
  exact hf t.kind (meets_bump_peeked h.wf ht)

theorem ne_eof_of_discriminant {k want : TokenKind} (hw : want ≠ .eof)
    (h : k.discriminant = want.discriminant) : k ≠ .eof := by
  intro e
  subst e
  cases want <;> first | exact hw rfl | cases h

/-- Either the wanted token was there and is consumed, or the parser stands where it stood. -/
theorem Steps.bind_eat {want : TokenKind} {f : Bool → P α} (h : Steps p m p₁) (hw : want ≠ .eof)
    (ht : ∀ p₂, Steps p (m + 1) p₂ → p₂.rem + (m + 1) ≤ p.rem → Meets (f true) p₂ Q)
    (hf : Meets (f false) p₁ Q) : Meets (eat want >>= f) p₁ Q := by
  refine Meets.bind (Q := fun b p₂ => b = true ∧ Steps p (m + 1) p₂ ∨ b = false ∧ p₂ = p₁) ?_ ?_
  · refine h.bind_peek fun k hbump => ?_
    by_cases hd : k.discriminant = want.discriminant
    · rw [if_pos hd]
      refine h.bind (hbump (ne_eof_of_discriminant hw hd)) fun _ p₂ h2 _ => ?_
      exact Meets.pure (.inl ⟨rfl, h2⟩)
    · rw [if_neg hd]
      exact Meets.pure (.inr ⟨rfl, rfl⟩)
  · rintro b p₂ (⟨rfl, h2⟩ | ⟨rfl, rfl⟩)
    · exact ht p₂ h2 h2.rem
    · exact hf

theorem meets_spanHere (hp : p.Wf) : Meets spanHere p fun _ p' => p' = p := by
  show Meets (tokenAt p.idx >>= fun t => pure t.span) p _
  refine Meets.bind (meets_tokenAt hp.bound) ?_
  intro t p' h
  exact h.1

theorem meets_unexpected (hp : p.Wf) (what : List Piece) : Meets (unexpected what) p Q := by
  refine Meets.bind (meets_spanHere hp) ?_
  intro span p' h
  subst h
  refine Meets.bind (meets_peek hp) ?_
  intro k p' _
  exact Meets.throw

/-- A wanted token that is not there is an error, so what returns has consumed one. -/
theorem meets_expect (want : TokenKind) (hw : want ≠ .eof) (hp : p.Wf)
    (what : String) : Consumes (expect want what) p 1 := by
  have h := Steps.refl hp
  refine h.bind_peek fun k hbump => ?_
  by_cases hd : k.discriminant = want.discriminant
  · rw [if_pos hd]
    refine h.bind (hbump (ne_eof_of_discriminant hw hd)) fun _ p₁ h1 _ => ?_
    exact Meets.pure h1
  · rw [if_neg hd]
    exact meets_unexpected hp _

theorem meets_errBefore (hp : p.Wf) (msg : List Piece) : Meets (errBefore msg) p Q := by
  have hb : p.idx - 1 < p.toks.length := Nat.lt_of_le_of_lt (Nat.sub_le _ _) hp.bound
  show Meets (tokenAt (p.idx - 1) >>= fun t => Comp.throw ⟨t.span, msg⟩) p Q
  refine Meets.bind (meets_tokenAt hb) ?_
  intro t p' _
  exact Meets.throw

theorem meets_expectIdent (hp : p.Wf) (what : String) : Consumes (expectIdent what) p 1 := by
  refine Meets.bind (meets_bump hp) ?_
  intro k p' h
  obtain ⟨-, hs, hne⟩ := h
  cases k with
  | ident s => exact Meets.pure (hne (fun e => nomatch e))
  | _ => exact meets_errBefore hs.wf _

theorem meets_skipUntil (stop : TokenKind) (hstop : stop ≠ .eof) (fuel : Nat) :
    ∀ {p : Parser}, p.Wf → p.rem + 1 ≤ fuel →
      Consumes (skipUntil stop fuel) p 0 := by
  induction fuel with
  | zero => intro p _ hf; omega
  | succ fuel ih =>
    intro p hp hf
    have h := Steps.refl hp
    refine h.bind_peek fun k hbump => ?_
    by_cases hks : k = stop
    · rw [if_pos hks]
      refine h.bind (hbump (hks ▸ hstop)) fun _ p₁ h1 _ => ?_
      exact h1.done (Nat.zero_le _)
    · rw [if_neg hks]
      by_cases he : k = .eof
      · rw [if_pos he]
        exact Meets.pure h
      · rw [if_neg he]
        refine h.bind (hbump he) fun _ p₁ h1 hr => ?_
        exact h1.last (ih h1.wf (by omega)) (Nat.zero_le _)

/-! ## Types -/

theorem meets_parseType (hp : p.Wf) {fuel : Nat} (hf : p.rem + 1 ≤ fuel) :
    Consumes (parseType fuel) p 1 := by
  refine Meets.bind (meets_bump hp) ?_
  intro k p' h
  obtain ⟨-, hs, hne⟩ := h
  split
  any_goals exact Meets.pure (hne (fun e => nomatch e))
  · have h1 := hne (fun e => nomatch e)
    refine h1.bind_eat (by decide) (fun p₂ h2 hr => ?_) h1
    refine h2.bind (meets_skipUntil .gt (by decide) fuel h2.wf (by omega)) fun _ p₃ h3 _ => ?_
    exact h3.done (Nat.le_succ 1)
  · have h1 := hne (fun e => nomatch e)
    split
    · exact Meets.pure h1
    · show Meets (if _ then _ else _) p' _
      split
      · exact Meets.pure h1
      · exact meets_errBefore hs.wf _
  · exact meets_errBefore hs.wf _

theorem meets_typeTokenLen (hp : p.Wf) : Meets typeTokenLen p fun n p' => p' = p ∧ n ≤ 1 ∧
      (n = 1 → ∃ t, p.toks[p.idx]? = some t ∧ t.kind ≠ .eof) := by
  show Meets (peek >>= _) p _
  refine Meets.bind (meets_peek hp) ?_
  intro k p' h
  obtain ⟨rfl, t, ht, rfl⟩ := h
  split
  all_goals first
    | exact Meets.pure ⟨rfl, Nat.le_refl _, fun _ => ⟨t, ht, fun e => by simp_all⟩⟩
    | exact Meets.pure ⟨rfl, Nat.zero_le _, fun h => nomatch h⟩
    | skip
  rename_i s hk
  refine Meets.pure ⟨rfl, ?_, fun _ => ⟨t, ht, fun e => by simp_all⟩⟩
  split <;> omega

theorem meets_peekIsType (hp : p.Wf) : Meets peekIsType p fun _ p' => p' = p := by
  refine Meets.bind (meets_typeTokenLen hp) ?_
  intro n p' h
  exact h.1

theorem meets_looksLikeVarDecl (hp : p.Wf) : Meets looksLikeVarDecl p fun _ p' => p' = p := by
  refine Meets.bind (meets_peekIsType hp) ?_
  intro b p' h
  obtain rfl : p' = p := h
  cases b with
  | false => exact Meets.pure rfl
  | true =>
    refine Meets.bind (meets_typeTokenLen hp) ?_
    intro n p₂ h
    obtain ⟨rfl, hn, hne⟩ := h
    have hb : p₂.idx + n < p₂.toks.length := by
      by_cases h1 : n = 1
      · obtain ⟨t, ht, hk⟩ := hne h1
        have := (steps_advance hp ht hk).wf.bound
        rw [h1]
        exact this
      · have := hp.bound
        omega
    show Meets (tokenAt (p₂.idx + n) >>= _) p₂ _
    refine Meets.bind (meets_tokenAt hb) ?_
    intro t p₃ h
    obtain ⟨rfl, -⟩ := h
    split <;> exact Meets.pure rfl

theorem meets_parseOptionalSemantic (hp : p.Wf) : Consumes parseOptionalSemantic p 0 := by
  have h := Steps.refl hp
  refine h.bind_eat (by decide) (fun p₁ h1 _ => ?_) (Meets.pure h)
  refine Meets.bind (meets_bump h1.wf) ?_
  intro k p₂ hk
  have h2 := (h1.trans hk.2.1).weaken (Nat.zero_le _)
  split <;> exact Meets.pure h2

/-! ## Expressions -/

/-- The calls a level makes before it consumes a token, that of `parse_primary` included. -/
def Level.rank : Level → Nat
  | .or => 14
  | .and => 12
  | .equality => 10
  | .rel => 8
  | .add => 6
  | .mul => 4

/-- The same count for the function that reads the operands of a level. -/
def operandRank : Option Level → Nat
  | some level => level.rank + 1
  | none => 3

/-- Each level calls a tighter one, which is why the chain of calls before the first token is
    bounded. -/
theorem operandRank_operand (level : Level) : operandRank level.operand < level.rank := by
  cases level <;> decide

theorem Level.rank_le (level : Level) : level.rank ≤ 14 := by
  cases level <;> decide

/-- Every function of the expression parser meets its specification with this much fuel. -/
structure ExprTotal (fuel : Nat) : Prop where
  assign : ∀ p : Parser, p.Wf → 16 * p.rem + 15 ≤ fuel →
    Consumes (parseAssign fuel) p 1
  binary : ∀ (p : Parser) (level : Level), p.Wf → 16 * p.rem + level.rank ≤ fuel →
    Consumes (parseBinary fuel level) p 1
  loop : ∀ (p : Parser) (level : Level) (lhs : Expr), p.Wf → 16 * p.rem + 1 ≤ fuel →
    Consumes (binaryLoop fuel level lhs) p 0
  operand : ∀ (p : Parser) (o : Option Level), p.Wf → 16 * p.rem + operandRank o ≤ fuel →
    Consumes (parseOperand fuel o) p 1
  unary : ∀ p : Parser, p.Wf → 16 * p.rem + 2 ≤ fuel →
    Consumes (parseUnary fuel) p 1
  suffix : ∀ (p : Parser) (e : Expr), p.Wf → 16 * p.rem + 1 ≤ fuel →
    Consumes (postfixLoop fuel e) p 0
  primary : ∀ p : Parser, p.Wf → 16 * p.rem + 1 ≤ fuel →
    Consumes (parsePrimary fuel) p 1
  paren : ∀ p : Parser, p.Wf → 16 * p.rem + 16 ≤ fuel →
    Consumes (parseParen fuel) p 1
  args : ∀ p : Parser, p.Wf → 16 * p.rem + 17 ≤ fuel →
    Consumes (parseArgs fuel) p 0
  argsLoop : ∀ (p : Parser) (args : List Expr), p.Wf → 16 * p.rem + 16 ≤ fuel →
    Consumes (argsLoop fuel args) p 0

theorem Level.op_ne_eof {level : Level} {k : TokenKind} {op : BinaryOp}
    (h : level.op k = some op) : k ≠ .eof := by
  intro e
  subst e
  cases level <;> cases h

theorem assignOp_ne_eof {k : TokenKind} {op : BinaryOp} (h : assignOp k = some op) :
    k ≠ .eof := by
  intro e
  subst e
  cases h

theorem unaryOp_ne_eof {k : TokenKind} {op : UnaryOp} (h : unaryOp k = some op) : k ≠ .eof := by
  intro e
  subst e
  cases h

variable {fuel : Nat}

theorem ExprTotal.assign_succ (ih : ExprTotal fuel) (p : Parser) (hp : p.Wf)
    (hf : 16 * p.rem + 15 ≤ fuel + 1) : Consumes (parseAssign (fuel + 1)) p 1 := by
  unfold parseAssign
  have h := Steps.refl hp
  refine h.bind (ih.binary p .or hp (by simp only [Level.rank]; omega)) fun lhs p₁ h1 hr => ?_
  refine h1.bind_peek fun k hbump => ?_
  split
  · next op hop =>
    refine h1.bind (hbump (assignOp_ne_eof hop)) fun _ p₂ h2 hr => ?_
    refine h2.bind (ih.assign p₂ h2.wf (by omega)) fun rhs p₃ h3 _ => ?_
    exact h3.done (by omega)
  · exact Meets.pure h1

theorem ExprTotal.binary_succ (ih : ExprTotal fuel) (p : Parser) (level : Level) (hp : p.Wf)
    (hf : 16 * p.rem + level.rank ≤ fuel + 1) : Consumes (parseBinary (fuel + 1) level) p 1 := by
  unfold parseBinary
  have h := Steps.refl hp
  have hlt := operandRank_operand level
  refine h.bind (ih.operand p level.operand hp (by omega)) fun lhs p₁ h1 hr => ?_
  exact h1.last (ih.loop p₁ level lhs h1.wf (by omega)) (by omega)

/-- The loop consumes an operator before it goes round, and that pays for the next round's calls. -/
theorem ExprTotal.loop_succ (ih : ExprTotal fuel) (p : Parser) (level : Level) (lhs : Expr)
    (hp : p.Wf) (hf : 16 * p.rem + 1 ≤ fuel + 1) :
    Consumes (binaryLoop (fuel + 1) level lhs) p 0 := by
  unfold binaryLoop
  have h := Steps.refl hp
  refine h.bind_peek fun k hbump => ?_
  split
  · next op hop =>
    have hlt := operandRank_operand level
    have hle := level.rank_le
    refine h.bind (hbump (Level.op_ne_eof hop)) fun _ p₁ h1 hr => ?_
    refine h1.bind (ih.operand p₁ level.operand h1.wf (by omega)) fun rhs p₂ h2 hr => ?_
    exact h2.last (ih.loop p₂ level _ h2.wf (by omega)) (by omega)
  · exact Meets.pure h

theorem ExprTotal.operand_succ (ih : ExprTotal fuel) (p : Parser) (o : Option Level) (hp : p.Wf)
    (hf : 16 * p.rem + operandRank o ≤ fuel + 1) : Consumes (parseOperand (fuel + 1) o) p 1 := by
  cases o with
  | some level =>
    unfold parseOperand
    exact ih.binary p level hp (by simp only [operandRank] at hf; omega)
  | none =>
    unfold parseOperand
    exact ih.unary p hp (by simp only [operandRank] at hf; omega)

theorem ExprTotal.unary_succ (ih : ExprTotal fuel) (p : Parser) (hp : p.Wf)
    (hf : 16 * p.rem + 2 ≤ fuel + 1) : Consumes (parseUnary (fuel + 1)) p 1 := by
  unfold parseUnary
  have h := Steps.refl hp
  refine h.bind_peek fun k hbump => ?_
  split
  · next op hop =>
    refine h.bind (hbump (unaryOp_ne_eof hop)) fun _ p₁ h1 hr => ?_
    refine h1.bind (ih.unary p₁ h1.wf (by omega)) fun e p₂ h2 _ => ?_
    exact h2.done (by omega)
  · refine h.bind (ih.primary p hp (by omega)) fun e p₁ h1 hr => ?_
    exact h1.last (ih.suffix p₁ e h1.wf (by omega)) (by omega)

theorem ExprTotal.suffix_succ (ih : ExprTotal fuel) (p : Parser) (e : Expr) (hp : p.Wf)
    (hf : 16 * p.rem + 1 ≤ fuel + 1) : Consumes (postfixLoop (fuel + 1) e) p 0 := by
  unfold postfixLoop
  have h := Steps.refl hp
  refine h.bind_peek fun k hbump => ?_
  split
  · next hk =>
    refine h.bind (hbump (hk ▸ by decide)) fun _ p₁ h1 _ => ?_
    refine h1.bind (meets_expectIdent h1.wf _) fun member p₂ h2 hr => ?_
    refine h2.bind_eat (by decide) (fun p₃ h3 hr => ?_) ?_
    · refine h3.bind (ih.args p₃ h3.wf (by omega)) fun args p₄ h4 _ => ?_
      refine h4.bind (meets_expect .rParen (by decide) h4.wf _) fun _ p₅ h5 hr => ?_
      exact h5.last (ih.suffix p₅ _ h5.wf (by omega)) (by omega)
    · exact h2.last (ih.suffix p₂ _ h2.wf (by omega)) (by omega)
  · exact Meets.pure h

theorem ExprTotal.primary_paren (ih : ExprTotal fuel) (p : Parser) (hp : p.Wf)
    (hf : 16 * p.rem + 16 ≤ fuel) :
    Consumes (show P Expr from do
      if ← peekIsType then do
        let ty ← parseType fuel
        if ← eat .rParen then do
          let inner ← parseUnary fuel
          pure (.cast ty inner)
        else parseParen fuel
      else parseParen fuel) p 1 := by
  refine Meets.bind (meets_peekIsType hp) ?_
  intro b p' hb
  obtain rfl : p' = p := hb
  have h := Steps.refl hp
  cases b with
  | false => exact ih.paren p' hp hf
  | true =>
    refine h.bind (meets_parseType hp (by omega)) fun ty p₁ h1 hr => ?_
    refine h1.bind_eat (by decide) (fun p₂ h2 hr => ?_) ?_
    · refine h2.bind (ih.unary p₂ h2.wf (by omega)) fun e p₃ h3 _ => ?_
      exact h3.done (by omega)
    · exact h1.last (ih.paren p₁ h1.wf (by omega)) (by omega)

theorem ExprTotal.primary_ident (ih : ExprTotal fuel) (p : Parser) (s : String) (hp : p.Wf)
    (hf : 16 * p.rem + 16 ≤ fuel) :
    Consumes (show P Expr from do
      if ← eat .lParen then do
        let args ← parseArgs fuel
        expect .rParen ")"
        match decodeTypeWord s with
        | some ty => pure (.construct ty args)
        | none => pure (.call s args)
      else pure (.ident s)) p 0 := by
  have h := Steps.refl hp
  refine h.bind_eat (by decide) (fun p₁ h1 hr => ?_) (Meets.pure h)
  refine h1.bind (ih.args p₁ h1.wf (by omega)) fun args p₂ h2 _ => ?_
  refine h2.bind (meets_expect .rParen (by decide) h2.wf _) fun _ p₃ h3 _ => ?_
  split <;> exact h3.done (by omega)

theorem ExprTotal.primary_succ (ih : ExprTotal fuel) (p : Parser) (hp : p.Wf)
    (hf : 16 * p.rem + 1 ≤ fuel + 1) : Consumes (parsePrimary (fuel + 1)) p 1 := by
  show Meets (peek >>= _) p _
  have h := Steps.refl hp
  refine h.bind_peek fun k hbump => ?_
  cases k with
  | intLiteral _ | uintLiteral _ | floatLiteral _ | boolLiteral _ =>
    refine h.bind (hbump (fun e => nomatch e)) fun _ p₁ h1 _ => ?_
    exact Meets.pure h1
  | lParen =>
    refine h.bind (hbump (by decide)) fun _ p₁ h1 hr => ?_
    exact h1.last (ih.primary_paren p₁ h1.wf (by omega)) (by omega)
  | ident s =>
    refine h.bind (hbump (fun e => nomatch e)) fun _ p₁ h1 hr => ?_
    exact h1.last (ih.primary_ident p₁ s h1.wf (by omega)) (by omega)
  | _ => exact meets_unexpected hp _

theorem ExprTotal.paren_succ (ih : ExprTotal fuel) (p : Parser) (hp : p.Wf)
    (hf : 16 * p.rem + 16 ≤ fuel + 1) : Consumes (parseParen (fuel + 1)) p 1 := by
  unfold parseParen
  refine (Steps.refl hp).bind (ih.assign p hp (by omega)) fun e p₁ h1 _ => ?_
  refine h1.bind (meets_expect .rParen (by decide) h1.wf _) fun _ p₂ h2 _ => ?_
  exact h2.done (by omega)

theorem ExprTotal.args_succ (ih : ExprTotal fuel) (p : Parser) (hp : p.Wf)
    (hf : 16 * p.rem + 17 ≤ fuel + 1) : Consumes (parseArgs (fuel + 1)) p 0 := by
  unfold parseArgs
  have h := Steps.refl hp
  refine h.bind_peek fun k _ => ?_
  split
  · exact Meets.pure h
  · exact ih.argsLoop p [] hp (by omega)

theorem ExprTotal.argsLoop_succ (ih : ExprTotal fuel) (p : Parser) (args : List Expr) (hp : p.Wf)
    (hf : 16 * p.rem + 16 ≤ fuel + 1) : Consumes (WinCompat.Hlsl.argsLoop (fuel + 1) args) p 0 := by
  unfold WinCompat.Hlsl.argsLoop
  refine (Steps.refl hp).bind (ih.assign p hp (by omega)) fun e p₁ h1 _ => ?_
  refine h1.bind_eat (by decide) (fun p₂ h2 hr => ?_) ?_
  · exact h2.last (ih.argsLoop p₂ _ h2.wf (by omega)) (by omega)
  · exact h1.done (by omega)

/-- All functions of the expression parser at once, by induction on the fuel. -/
theorem exprTotal : ∀ fuel : Nat, ExprTotal fuel := by
  intro fuel
  induction fuel with
  | zero =>
    exact ⟨fun _ _ h => by omega,
      fun _ level _ h => by cases level <;> simp only [Level.rank] at h <;> omega,
      fun _ _ _ _ h => by omega, fun _ o _ h => by
        cases o <;> simp only [operandRank] at h <;> omega,
      fun _ _ h => by omega, fun _ _ _ h => by omega, fun _ _ h => by omega,
      fun _ _ h => by omega, fun _ _ h => by omega, fun _ _ _ h => by omega⟩
  | succ fuel ih =>
    exact ⟨ih.assign_succ, ih.binary_succ, ih.loop_succ, ih.operand_succ, ih.unary_succ,
      ih.suffix_succ, ih.primary_succ, ih.paren_succ, ih.args_succ, ih.argsLoop_succ⟩

theorem meets_parseExpr (hp : p.Wf) (hf : 16 * p.rem + 15 ≤ fuel) :
    Consumes (parseExpr fuel) p 1 := (exprTotal fuel).assign p hp hf

/-! ## Statements -/

theorem meets_parseVarDecl (hp : p.Wf) (hf : 16 * p.rem + 15 ≤ fuel) :
    Consumes (parseVarDecl fuel) p 1 := by
  refine (Steps.refl hp).bind (meets_parseType hp (by omega)) fun ty p₁ h1 _ => ?_
  refine h1.bind (meets_expectIdent h1.wf _) fun name p₂ h2 _ => ?_
  refine h2.bind (meets_parseOptionalSemantic h2.wf) fun semantic p₃ h3 hr => ?_
  have hinit : Consumes (show P (Option Expr) from do
      if ← eat .assign then do
        let e ← parseExpr fuel
        pure (some e)
      else pure none) p₃ 0 := by
    have h := Steps.refl h3.wf
    refine h.bind_eat (by decide) (fun p₄ h4 hr => ?_) (Meets.pure h)
    refine h4.bind (meets_parseExpr h4.wf (by omega)) fun e p₅ h5 _ => ?_
    exact h5.done (by omega)
  refine h3.bind hinit fun init p₄ h4 _ => ?_
  exact h4.done (by omega)

theorem meets_parseReturn (hp : p.Wf) (hf : 16 * p.rem ≤ fuel) :
    Consumes (parseReturn fuel) p 1 := by
  have h := Steps.refl hp
  refine h.bind (meets_expect (.keyword .return_) (by decide) hp _) fun _ p₁ h1 hr => ?_
  refine h1.bind_eat (by decide) (fun p₂ h2 _ => ?_) ?_
  · exact h2.done (by omega)
  · refine h1.bind (meets_parseExpr h1.wf (by omega)) fun e p₂ h2 _ => ?_
    refine h2.bind (meets_expect .semicolon (by decide) h2.wf _) fun _ p₃ h3 _ => ?_
    exact h3.done (by omega)

theorem meets_parseSimple (hp : p.Wf) (hf : 16 * p.rem + 15 ≤ fuel) :
    Consumes (parseSimple fuel) p 1 := by
  refine Meets.bind (meets_looksLikeVarDecl hp) ?_
  intro b p' hb
  obtain rfl : p' = p := hb
  cases b with
  | true =>
    refine Meets.bind (meets_parseVarDecl hp hf) ?_
    intro vd p₁ h1
    exact Meets.pure h1
  | false =>
    refine Meets.bind (meets_parseExpr hp hf) ?_
    intro e p₁ h1
    exact Meets.pure h1

/-- A clause of `for` that is empty or ends in `;`. -/
theorem meets_clause (hp : p.Wf) (x : P α) (f : α → β) (b : β)
    (hx : Consumes x p 1) :
    Consumes (show P β from do
      if ← eat .semicolon then pure b
      else do
        let a ← x
        expect .semicolon ";"
        pure (f a)) p 1 := by
  have h := Steps.refl hp
  refine h.bind_eat (by decide) (fun p₁ h1 _ => Meets.pure h1) ?_
  refine h.bind hx fun a p₁ h1 _ => ?_
  refine h1.bind (meets_expect .semicolon (by decide) h1.wf _) fun _ p₂ h2 _ => ?_
  exact h2.done (by omega)

theorem meets_parseForInit (hp : p.Wf) (hf : 16 * p.rem + 15 ≤ fuel) :
    Consumes (parseForInit fuel) p 1 :=
  meets_clause hp (parseSimple fuel) some none (meets_parseSimple hp hf)

theorem meets_parseForCond (hp : p.Wf) (hf : 16 * p.rem + 15 ≤ fuel) :
    Consumes (parseForCond fuel) p 1 :=
  meets_clause hp (parseExpr fuel) some none (meets_parseExpr hp hf)

theorem meets_parseForUpdate (hp : p.Wf) (hf : 16 * p.rem + 15 ≤ fuel) :
    Consumes (parseForUpdate fuel) p 0 := by
  have h := Steps.refl hp
  refine h.bind_peek fun k _ => ?_
  split
  · exact Meets.pure h
  · refine h.bind (meets_parseExpr hp hf) fun e p₁ h1 _ => ?_
    exact h1.done (Nat.zero_le _)

/-- Every function of the statement parser meets its specification with this much fuel. -/
structure StmtTotal (fuel : Nat) : Prop where
  stmts : ∀ (p : Parser) (acc : List Stmt), p.Wf → 16 * p.rem + 17 ≤ fuel →
    Consumes (parseStmts fuel acc) p 0
  stmt : ∀ p : Parser, p.Wf → 16 * p.rem + 16 ≤ fuel →
    Consumes (parseStmt fuel) p 1
  if_ : ∀ p : Parser, p.Wf → 16 * p.rem + 15 ≤ fuel →
    Consumes (parseIf fuel) p 1
  for_ : ∀ p : Parser, p.Wf → 16 * p.rem + 15 ≤ fuel →
    Consumes (parseFor fuel) p 1
  blockOrStmt : ∀ p : Parser, p.Wf → 16 * p.rem + 17 ≤ fuel →
    Consumes (parseBlockOrStmt fuel) p 1

theorem StmtTotal.stmts_succ (ih : StmtTotal fuel) (p : Parser) (acc : List Stmt) (hp : p.Wf)
    (hf : 16 * p.rem + 17 ≤ fuel + 1) : Consumes (parseStmts (fuel + 1) acc) p 0 := by
  unfold parseStmts
  have h := Steps.refl hp
  refine h.bind_peek fun k _ => ?_
  split
  · exact Meets.pure h
  · refine h.bind (ih.stmt p hp (by omega)) fun s p₁ h1 hr => ?_
    exact h1.last (ih.stmts p₁ _ h1.wf (by omega)) (Nat.zero_le _)

/-- The statements of a block and its closing brace. -/
theorem StmtTotal.block (ih : StmtTotal fuel) (p : Parser) (hp : p.Wf) (hf : 16 * p.rem + 17 ≤ fuel)
    (f : List Stmt → β) :
    Consumes (show P β from do
      let b ← parseStmts fuel []
      expect .rBrace "\x7d"
      pure (f b)) p 1 := by
  refine (Steps.refl hp).bind (ih.stmts p [] hp hf) fun b p₁ h1 _ => ?_
  refine h1.bind (meets_expect .rBrace (by decide) h1.wf _) fun _ p₂ h2 _ => ?_
  exact h2.done (by omega)

theorem StmtTotal.stmt_succ (ih : StmtTotal fuel) (p : Parser) (hp : p.Wf)
    (hf : 16 * p.rem + 16 ≤ fuel + 1) : Consumes (parseStmt (fuel + 1)) p 1 := by
  unfold parseStmt
  have h := Steps.refl hp
  refine h.bind_peek fun k hbump => ?_
  split
  · exact meets_parseReturn hp (by omega)
  · exact ih.if_ p hp (by omega)
  · exact ih.for_ p hp (by omega)
  · refine h.bind (hbump (by decide)) fun _ p₁ h1 hr => ?_
    exact h1.last (ih.block p₁ h1.wf (by omega) Stmt.block) (by omega)
  · refine h.bind (meets_parseSimple hp (by omega)) fun s p₁ h1 _ => ?_
    refine h1.bind (meets_expect .semicolon (by decide) h1.wf _) fun _ p₂ h2 _ => ?_
    exact h2.done (by omega)

theorem StmtTotal.if_succ (ih : StmtTotal fuel) (p : Parser) (hp : p.Wf)
    (hf : 16 * p.rem + 15 ≤ fuel + 1) : Consumes (parseIf (fuel + 1)) p 1 := by
  unfold parseIf
  have h := Steps.refl hp
  refine h.bind (meets_expect (.keyword .if_) (by decide) hp _) fun _ p₁ h1 _ => ?_
  refine h1.bind (meets_expect .lParen (by decide) h1.wf _) fun _ p₂ h2 hr => ?_
  refine h2.bind (meets_parseExpr h2.wf (by omega)) fun cond p₃ h3 _ => ?_
  refine h3.bind (meets_expect .rParen (by decide) h3.wf _) fun _ p₄ h4 hr => ?_
  refine h4.bind (ih.blockOrStmt p₄ h4.wf (by omega)) fun then_ p₅ h5 hr => ?_
  refine h5.bind_eat (by decide) (fun p₆ h6 hr => ?_) ?_
  · refine h6.bind (ih.blockOrStmt p₆ h6.wf (by omega)) fun e p₇ h7 _ => ?_
    exact h7.done (by omega)
  · exact h5.done (by omega)

theorem StmtTotal.for_succ (ih : StmtTotal fuel) (p : Parser) (hp : p.Wf)
    (hf : 16 * p.rem + 15 ≤ fuel + 1) : Consumes (parseFor (fuel + 1)) p 1 := by
  unfold parseFor
  have h := Steps.refl hp
  refine h.bind (meets_expect (.keyword .for_) (by decide) hp _) fun _ p₁ h1 _ => ?_
  refine h1.bind (meets_expect .lParen (by decide) h1.wf _) fun _ p₂ h2 hr => ?_
  refine h2.bind (meets_parseForInit h2.wf (by omega)) fun init p₃ h3 hr => ?_
  refine h3.bind (meets_parseForCond h3.wf (by omega)) fun cond p₄ h4 hr => ?_
  refine h4.bind (meets_parseForUpdate h4.wf (by omega)) fun update p₅ h5 _ => ?_
  refine h5.bind (meets_expect .rParen (by decide) h5.wf _) fun _ p₆ h6 hr => ?_
  refine h6.bind (ih.blockOrStmt p₆ h6.wf (by omega)) fun body p₇ h7 _ => ?_
  exact h7.done (by omega)

theorem StmtTotal.blockOrStmt_succ (ih : StmtTotal fuel) (p : Parser) (hp : p.Wf)
    (hf : 16 * p.rem + 17 ≤ fuel + 1) : Consumes (parseBlockOrStmt (fuel + 1)) p 1 := by
  unfold parseBlockOrStmt
  have h := Steps.refl hp
  refine h.bind_eat (by decide) (fun p₁ h1 hr => ?_) ?_
  · exact h1.last (ih.block p₁ h1.wf (by omega) id) (by omega)
  · refine h.bind (ih.stmt p hp (by omega)) fun s p₂ h2 _ => ?_
    exact Meets.pure h2

theorem stmtTotal : ∀ fuel : Nat, StmtTotal fuel := by
  intro fuel
  induction fuel with
  | zero =>
    exact ⟨fun _ _ _ h => by omega, fun _ _ h => by omega, fun _ _ h => by omega,
      fun _ _ h => by omega, fun _ _ h => by omega⟩
  | succ fuel ih =>
    exact ⟨ih.stmts_succ, ih.stmt_succ, ih.if_succ, ih.for_succ, ih.blockOrStmt_succ⟩

theorem Parser.rem_le_fuel (p : Parser) : 16 * p.rem + 17 ≤ p.fuel := by
  unfold Parser.rem Parser.fuel
  omega

theorem meets_parseBlockBody (hp : p.Wf) : Consumes parseBlockBody p 0 := by
  refine Meets.bind (Q := fun q p' => q = p ∧ p' = p) ⟨rfl, rfl⟩ ?_
  intro q p' h
  obtain ⟨rfl, rfl⟩ := h
  exact (stmtTotal p'.fuel).stmts p' [] hp p'.rem_le_fuel

/-! ## Declarations -/

theorem meets_parseOptionalRegister (hp : p.Wf) (hf : p.rem ≤ fuel) :
    Consumes (parseOptionalRegister fuel) p 0 := by
  have h := Steps.refl hp
  refine h.bind_eat (by decide) (fun p₁ h1 _ => ?_) (Meets.pure h)
  refine h1.bind_eat (by decide) (fun p₂ h2 _ => ?_) (h1.done (by omega))
  refine h2.bind_eat (by decide) (fun p₃ h3 hr => ?_) (h2.done (by omega))
  refine Meets.bind (meets_bump h3.wf) ?_
  intro k p₄ hk
  have h4 := h3.trans hk.2.1
  have hr := h4.rem
  split
  all_goals
    refine h4.bind (meets_skipUntil .rParen (by decide) fuel h4.wf (by omega)) fun _ p₅ h5 _ => ?_
    exact h5.done (by omega)

theorem meets_membersLoop (what : String) (fuel : Nat) :
    ∀ (p : Parser) (members : List StructMember), p.Wf → p.rem + 2 ≤ fuel →
      Consumes (membersLoop what fuel members) p 0 := by
  induction fuel with
  | zero => intro p _ _ hf; omega
  | succ fuel ih =>
    intro p members hp hf
    have h := Steps.refl hp
    refine h.bind_eat (by decide) (fun p₁ h1 _ => h1.done (by omega)) ?_
    refine h.bind (meets_parseType hp (by omega)) fun ty p₁ h1 _ => ?_
    refine h1.bind (meets_expectIdent h1.wf _) fun name p₂ h2 _ => ?_
    refine h2.bind (meets_parseOptionalSemantic h2.wf) fun semantic p₃ h3 _ => ?_
    refine h3.bind (meets_expect .semicolon (by decide) h3.wf _) fun _ p₄ h4 hr => ?_
    exact h4.last (ih p₄ _ h4.wf (by omega)) (by omega)

theorem meets_parseStruct (hp : p.Wf) (hf : p.rem + 2 ≤ fuel) :
    Consumes (parseStruct fuel) p 1 := by
  have h := Steps.refl hp
  refine h.bind (meets_expect (.keyword .struct) (by decide) hp _) fun _ p₁ h1 _ => ?_
  refine h1.bind (meets_expectIdent h1.wf _) fun name p₂ h2 _ => ?_
  refine h2.bind (meets_expect .lBrace (by decide) h2.wf _) fun _ p₃ h3 hr => ?_
  refine h3.bind (meets_membersLoop _ fuel p₃ [] h3.wf (by omega)) fun members p₄ h4 _ => ?_
  refine h4.bind (meets_expect .semicolon (by decide) h4.wf _) fun _ p₅ h5 _ => ?_
  exact h5.done (by omega)

theorem meets_parseCBuffer (hp : p.Wf) (hf : p.rem + 2 ≤ fuel) :
    Consumes (parseCBuffer fuel) p 1 := by
  have h := Steps.refl hp
  refine h.bind (meets_expect (.keyword .cbuffer) (by decide) hp _) fun _ p₁ h1 _ => ?_
  refine h1.bind (meets_expectIdent h1.wf _) fun name p₂ h2 hr => ?_
  refine h2.bind (meets_parseOptionalRegister h2.wf (by omega)) fun register p₃ h3 _ => ?_
  refine h3.bind (meets_expect .lBrace (by decide) h3.wf _) fun _ p₄ h4 hr => ?_
  refine h4.bind (meets_membersLoop _ fuel p₄ [] h4.wf (by omega)) fun members p₅ h5 _ => ?_
  refine h5.bind (meets_expect .semicolon (by decide) h5.wf _) fun _ p₆ h6 _ => ?_
  exact h6.done (by omega)

theorem meets_eatModifierWord (hp : p.Wf) : Consumes eatModifierWord p 0 := by
  have h := Steps.refl hp
  refine h.bind_peek fun k hbump => ?_
  split
  · split
    · refine h.bind (hbump (fun e => nomatch e)) fun _ p₁ h1 _ => ?_
      exact h1.done (by omega)
    · exact Meets.pure h
  · exact Meets.pure h

theorem meets_paramsLoop (fuel : Nat) :
    ∀ (p : Parser) (params : List Param), p.Wf → p.rem + 2 ≤ fuel →
      Consumes (paramsLoop fuel params) p 0 := by
  induction fuel with
  | zero => intro p _ _ hf; omega
  | succ fuel ih =>
    intro p params hp hf
    refine (Steps.refl hp).bind (meets_eatModifierWord hp) fun _ p₁ h1 hr => ?_
    refine h1.bind (meets_parseType h1.wf (by omega)) fun ty p₂ h2 _ => ?_
    refine h2.bind (meets_expectIdent h2.wf _) fun name p₃ h3 _ => ?_
    refine h3.bind (meets_parseOptionalSemantic h3.wf) fun semantic p₄ h4 _ => ?_
    refine h4.bind_eat (by decide) (fun p₅ h5 hr => ?_) (h4.done (by omega))
    exact h5.last (ih p₅ _ h5.wf (by omega)) (by omega)

theorem meets_parseParams (hp : p.Wf) (hf : p.rem + 2 ≤ fuel) :
    Consumes (parseParams fuel) p 0 := by
  have h := Steps.refl hp
  refine h.bind_peek fun k _ => ?_
  split
  · exact Meets.pure h
  · exact meets_paramsLoop fuel p [] hp hf

theorem meets_parseFunctionOrGlobalVar (hp : p.Wf) (hf : 16 * p.rem + 17 ≤ fuel) :
    Consumes (parseFunctionOrGlobalVar fuel) p 1 := by
  refine (Steps.refl hp).bind (meets_parseType hp (by omega)) fun ty p₁ h1 _ => ?_
  refine h1.bind (meets_expectIdent h1.wf _) fun name p₂ h2 hr => ?_
  refine h2.bind_peek fun k hbump => ?_
  split
  · refine h2.bind (hbump (by decide)) fun _ p₃ h3 hr => ?_
    refine h3.bind (meets_parseParams h3.wf (by omega)) fun params p₄ h4 _ => ?_
    refine h4.bind (meets_expect .rParen (by decide) h4.wf _) fun _ p₅ h5 _ => ?_
    refine h5.bind (meets_parseOptionalSemantic h5.wf) fun semantic p₆ h6 _ => ?_
    refine h6.bind_eat (by decide) (fun p₇ h7 _ => h7.done (by omega)) ?_
    refine h6.bind (meets_expect .lBrace (by decide) h6.wf _) fun _ p₇ h7 hr => ?_
    exact h7.last ((stmtTotal fuel).block p₇ h7.wf (by omega) _) (by omega)
  · refine h2.bind (meets_parseOptionalRegister h2.wf (by omega)) fun register p₃ h3 _ => ?_
    refine h3.bind (meets_expect .semicolon (by decide) h3.wf _) fun _ p₄ h4 _ => ?_
    exact h4.done (by omega)
  · refine h2.bind (hbump (by decide)) fun _ p₃ h3 _ => ?_
    exact h3.done (by omega)
  · exact meets_unexpected h2.wf _

theorem meets_parseDecl (hp : p.Wf) (hf : 16 * p.rem + 17 ≤ fuel) :
    Meets (parseDecl fuel) p fun _ p' => p'.Wf ∧ p'.toks = p.toks ∧ p'.rem + 1 ≤ p.rem := by
  have h := Steps.refl hp
  refine h.bind_peek fun k _ => ?_
  split
  · refine h.bind (meets_parseStruct hp (by omega)) fun s p₁ h1 hr => ?_
    exact ⟨⟨h1.wf.bound, h1.wf.last⟩, h1.toks, hr⟩
  · refine h.bind (meets_parseCBuffer hp (by omega)) fun c p₁ h1 hr => ?_
    exact Meets.pure ⟨h1.wf, h1.toks, hr⟩
  · exact (meets_parseFunctionOrGlobalVar hp hf).mono fun _ _ h1 => ⟨h1.wf, h1.toks, h1.rem⟩

theorem meets_unitLoop (fuel : Nat) :
    ∀ (p : Parser) (decls : List Decl), p.Wf → 16 * p.rem + 18 ≤ fuel →
      Meets (unitLoop fuel decls) p fun _ p' => ∃ t, p.toks[p'.idx]? = some t ∧ t.kind = .eof := by
  induction fuel with
  | zero => intro p _ _ hf; omega
  | succ fuel ih =>
    intro p decls hp hf
    refine Meets.bind (meets_peek hp) ?_
    rintro k p' ⟨rfl, ht⟩
    split
    · next hk => exact Meets.pure (hk ▸ ht)
    · refine Meets.bind (meets_parseDecl hp (by omega)) ?_
      rintro d p₁ ⟨h1, htoks, hr⟩
      exact htoks ▸ ih p₁ _ h1 (by omega)

theorem parse_of_wf {tokens : List Token} (h : (⟨tokens, 0, []⟩ : Parser).Wf) :
    (∃ e, parse tokens = .err e) ∨ ∃ unit p, parse tokens = .ok unit ∧
      unitLoop (16 * (tokens.length + 2)) [] ⟨tokens, 0, []⟩ = .ok (unit, p) ∧
      ∃ t, tokens[p.idx]? = some t ∧ t.kind = .eof := by
  have hfuel : 16 * (⟨tokens, 0, []⟩ : Parser).rem + 18 ≤ (⟨tokens, 0, []⟩ : Parser).fuel := by
    unfold Parser.rem Parser.fuel
    omega
  have hm := meets_unitLoop _ _ [] h hfuel
  unfold Meets at hm
  split at hm
  · next unit p heq => exact .inr ⟨unit, p, by simp only [parse, heq], heq, hm⟩
  · next e heq => exact .inl ⟨e, by simp only [parse, heq]⟩
  all_goals exact hm.elim

end WinCompat.Hlsl
