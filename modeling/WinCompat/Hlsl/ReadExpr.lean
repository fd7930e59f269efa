import WinCompat.Hlsl.Parser
import WinCompat.Hlsl.Print

/-!
# Reading an expression back

On the canonical tokens of an expression without `&`, `|` and `^`, followed by a token that ends an
expression, the expression parser returns that expression.

The levels and the member accesses are loops that grow the tree to the left, so the induction
hypothesis has to speak about a loop that is still running: reading `lhs` at a level is the same as
being in that level's loop with `lhs` in hand (`binary_loop`, `suffix_loop`).
-/

namespace WinCompat.Hlsl

open Lib Lib.Comp

/-! ## What the parser sees -/

/-- The kinds of the tokens from the cursor on, and the struct names. -/
structure Sees (names : List String) (ks : List TokenKind) (p : Parser) : Prop where
  names : p.structNames = names
  kinds : (p.toks.drop p.idx).map Token.kind = ks

section

variable {names : List String} {k : TokenKind} {ks : List TokenKind} {p : Parser}

theorem Sees.token (h : Sees names (k :: ks) p) :
    ∃ t, p.toks[p.idx]? = some t ∧ t.kind = k := by
  have hk := h.kinds
  cases hd : p.toks.drop p.idx with
  | nil =>
    rw [hd] at hk
    cases hk
  | cons t l =>
    rw [hd] at hk
    refine ⟨t, ?_, ?_⟩
    · rw [← Nat.add_zero p.idx, ← List.getElem?_drop, hd]
      rfl
    · simp only [List.map_cons, List.cons.injEq] at hk
      exact hk.1

theorem Sees.next (h : Sees names (k :: ks) p) : Sees names ks { p with idx := p.idx + 1 } := by
  refine ⟨h.names, ?_⟩
  have hk := h.kinds
  show (p.toks.drop (p.idx + 1)).map Token.kind = ks
  rw [← List.tail_drop, List.map_tail, hk]
  rfl

theorem peek_eq (h : Sees names (k :: ks) p) : peek p = .ok (k, p) := by
  obtain ⟨t, ht, rfl⟩ := h.token
  have hat : tokenAt p.idx p = .ok (t, p) := by
    unfold tokenAt
    rw [ht]
  unfold peek
  rw [bind_ok (show Comp.get p = .ok (p, p) from rfl), bind_ok hat]
  rfl

theorem only_peek (h : Sees names (k :: ks) p) : Only peek p k (· = p) :=
  .of_eq (peek_eq h) rfl

theorem only_bump (h : Sees names (k :: ks) p) (hk : k ≠ .eof) : Only bump p k (Sees names ks) := by
  refine (only_peek h).bind ?_
  rintro p' rfl
  rw [if_neg hk]
  exact .of_eq rfl h.next

/-- A matching token is consumed. -/
theorem only_eat (want : TokenKind) (h : Sees names (k :: ks) p) (hk : k ≠ .eof)
    (hd : k.discriminant = want.discriminant) : Only (eat want) p true (Sees names ks) := by
  refine (only_peek h).bind ?_
  rintro p' rfl
  rw [if_pos hd]
  exact (only_bump h hk).bind fun _ h' => .pure h'

theorem only_eat_not (want : TokenKind) (h : Sees names (k :: ks) p)
    (hd : k.discriminant ≠ want.discriminant) : Only (eat want) p false (· = p) := by
  refine (only_peek h).bind ?_
  rintro p' rfl
  rw [if_neg hd]
  exact .pure rfl

theorem only_expect (want : TokenKind) (what : String) (h : Sees names (want :: ks) p)
    (hk : want ≠ .eof) : Only (expect want what) p () (Sees names ks) := by
  refine (only_peek h).bind ?_
  rintro p' rfl
  rw [if_pos rfl]
  exact (only_bump h hk).bind fun _ h' => .pure h'

theorem only_expectIdent {s : String} (what : String) (h : Sees names (.ident s :: ks) p) :
    Only (expectIdent what) p s (Sees names ks) :=
  (only_bump h (fun e => nomatch e)).bind fun _ h' => .pure h'

end

/-! ## Operators and levels -/

/-- The precedence at which an operand is read. -/
def slotPrec : Option Level → Nat
  | some .or => 1
  | some .and => 2
  | some .equality => 6
  | some .rel => 7
  | some .add => 8
  | some .mul => 9
  | none => 10

theorem slotPrec_operand (level : Level) : slotPrec (some level) < slotPrec level.operand := by
  cases level <;> decide

theorem Level.op_token_iff (level : Level) (op : BinaryOp) (op' : BinaryOp) :
    level.op op.token = some op' → op' = op ∧ slotPrec (some level) = op.prec := by
  cases level <;> cases op <;> intro h <;> cases h <;> exact ⟨rfl, rfl⟩

/-- The slot that reads an operand of precedence `n`. There is no level for 3, 4 and 5, the bit
    operators. -/
def slotOf (n : Nat) : Option Level :=
  if n ≤ 1 then some .or
  else if n ≤ 2 then some .and
  else if n ≤ 6 then some .equality
  else if n ≤ 7 then some .rel
  else if n ≤ 8 then some .add
  else if n ≤ 9 then some .mul
  else none

theorem slotPrec_slotOf (level : Level) : slotOf (slotPrec (some level)) = some level := by
  cases level <;> rfl

theorem slotOf_operand (level : Level) : slotOf (slotPrec (some level) + 1) = level.operand := by
  cases level <;> rfl

theorem slotPrec_slotOf_mono {m n : Nat} (h : m ≤ n) :
    slotPrec (slotOf m) ≤ slotPrec (slotOf n) := by
  unfold slotOf
  repeat' split
  all_goals first | omega | decide

theorem exists_level (op : BinaryOp) (hop : 1 ≤ op.prec)
    (hb : op ≠ .bitAnd ∧ op ≠ .bitOr ∧ op ≠ .bitXor) :
    ∃ level : Level, level.op op.token = some op ∧ slotPrec (some level) = op.prec := by
  cases op
  case or => exact ⟨.or, rfl, rfl⟩
  case and => exact ⟨.and, rfl, rfl⟩
  case eq | ne => exact ⟨.equality, rfl, rfl⟩
  case lt | le | gt | ge => exact ⟨.rel, rfl, rfl⟩
  case add | sub => exact ⟨.add, rfl, rfl⟩
  case mul | div | mod => exact ⟨.mul, rfl, rfl⟩
  case bitAnd => exact absurd rfl hb.1
  case bitOr => exact absurd rfl hb.2.1
  case bitXor => exact absurd rfl hb.2.2
  all_goals exact absurd hop (by decide)

/-- `k` ends an operand read at `o`: no operator of `o`'s level or a tighter one continues it. -/
structure Stop (o : Option Level) (k : TokenKind) : Prop where
  dot : k ≠ .dot
  paren : k ≠ .lParen
  ops : ∀ level : Level, slotPrec o ≤ slotPrec (some level) → level.op k = none

variable {level : Level}

theorem Stop.operand {k : TokenKind} (h : Stop (some level) k) : Stop level.operand k :=
  ⟨h.dot, h.paren, fun l hl => h.ops l (Nat.le_trans (Nat.le_of_lt (slotPrec_operand level)) hl)⟩

variable {op : BinaryOp}

theorem stop_token {o : Option Level} (h : op.prec < slotPrec o) : Stop o op.token := by
  refine ⟨?_, ?_, ?_⟩
  · cases op <;> exact fun e => nomatch e
  · cases op <;> exact fun e => nomatch e
  · intro level hl
    cases hop : level.op op.token with
    | none => rfl
    | some op' =>
      have := (Level.op_token_iff level op op' hop).2
      omega

theorem BinaryOp.prec_le (op : BinaryOp) : op.prec ≤ 9 := by
  cases op <;> decide

theorem BinaryOp.token_ne_eof (op : BinaryOp) : op.token ≠ .eof := by
  cases op <;> exact fun e => nomatch e

/-! ## The levels -/

variable {names : List String}

/-- `o` reads `e` back wherever a token follows that ends it. -/
def ReadsAt (names : List String) (o : Option Level) (e : Expr) : Prop :=
  ∀ (fuel : Nat) (p : Parser) (k : TokenKind) (ks : List TokenKind),
    Sees names (e.tokens ++ k :: ks) p → Stop o k →
      Only (parseOperand fuel o) p e (Sees names (k :: ks))

/-- Reading `e` at a level comes to being in the level's loop with `e` in hand. -/
def LoopsAt (names : List String) (level : Level) (e : Expr) : Prop :=
  ∀ (fuel : Nat) (p : Parser) (k : TokenKind) (ks : List TokenKind) (v : Expr)
    (Q : Parser → Prop), Sees names (e.tokens ++ k :: ks) p → Stop level.operand k →
      (∀ fuel' p', Sees names (k :: ks) p' → Only (binaryLoop fuel' level e) p' v Q) →
        Only (parseBinary fuel level) p v Q

variable {e : Expr}

theorem LoopsAt.of_operand (h : ReadsAt names level.operand e) : LoopsAt names level e := by
  intro fuel p k ks v Q hp hk hloop
  cases fuel with
  | zero => exact .outOfFuel
  | succ fuel =>
    unfold parseBinary
    exact (h fuel p k ks hp hk).bind fun p' hp' => hloop fuel p' hp'

/-- The left operand is read by rounds of the same loop, so a chain of operators comes out
    left-nested. -/
theorem LoopsAt.binary {lhs rhs : Expr} (hop : level.op op.token = some op)
    (hl : LoopsAt names level lhs) (hr : ReadsAt names level.operand rhs) :
    LoopsAt names level (.binary op lhs rhs) := by
  intro fuel p k ks v Q hp hk hloop
  have hprec := (Level.op_token_iff level op op hop).2
  have hlt := slotPrec_operand level
  have hp : Sees names (lhs.tokens ++ op.token :: (rhs.tokens ++ k :: ks)) p := by
    simpa only [Expr.tokens, List.append_assoc, List.cons_append] using hp
  refine hl fuel p op.token _ v Q hp (stop_token (by omega)) ?_
  intro fuel' p' hp'
  cases fuel' with
  | zero => exact .outOfFuel
  | succ fuel' =>
    unfold binaryLoop
    refine (only_peek hp').bind ?_
    rintro p₁ rfl
    rw [hop]
    refine (only_bump hp' op.token_ne_eof).bind ?_
    intro p₂ hp₂
    refine (hr fuel' p₂ k ks hp₂ hk).bind ?_
    intro p₃ hp₃
    exact hloop fuel' p₃ hp₃

/-- The loop stops at a token that ends the operand. -/
theorem LoopsAt.reads (h : LoopsAt names level e) : ReadsAt names (some level) e := by
  intro fuel p k ks hp hk
  cases fuel with
  | zero => exact .outOfFuel
  | succ fuel =>
    unfold parseOperand
    refine h fuel p k ks e _ hp hk.operand ?_
    intro fuel' p' hp'
    cases fuel' with
    | zero => exact .outOfFuel
    | succ fuel' =>
      unfold binaryLoop
      refine (only_peek hp').bind ?_
      rintro p₁ rfl
      rw [hk.ops level (Nat.le_refl _)]
      exact .pure hp'

theorem slotPrec_le (o : Option Level) : slotPrec o ≤ 10 := by
  rcases o with _ | ⟨_ | _⟩ <;> decide

theorem ReadsAt.looser {o : Option Level} (h : ReadsAt names o e) (o' : Option Level)
    (hle : slotPrec o' ≤ slotPrec o) : ReadsAt names o' e := by
  generalize hn : 10 - slotPrec o' = n
  induction n using Nat.strongRecOn generalizing o' with
  | ind n ih =>
    have h10 := slotPrec_le o'
    by_cases heq : slotPrec o' = slotPrec o
    · have : o' = o := by
        rcases o with _ | ⟨_ | _⟩ <;> rcases o' with _ | ⟨_ | _⟩ <;> first | rfl | cases heq
      exact this ▸ h
    · cases o' with
      | none => exact absurd (Nat.le_antisymm hle (slotPrec_le o)) heq
      | some level =>
        have hlt := slotPrec_operand level
        have hnext : slotPrec level.operand ≤ slotPrec o := by
          cases level <;> rcases o with _ | ⟨_ | _⟩ <;> revert hle heq <;> decide
        have h10 := slotPrec_le level.operand
        exact (LoopsAt.of_operand (ih _ (by omega) level.operand hnext rfl)).reads

/-! ## Primary expressions -/

theorem Literal.token_facts (l : Literal) :
    unaryOp l.token = none ∧ ∀ (fuel : Nat) (ks : List TokenKind) (p : Parser),
      Sees names (l.token :: ks) p → Only (parsePrimary fuel) p (.literal l) (Sees names ks) := by
  refine ⟨by cases l <;> rfl, ?_⟩
  intro fuel ks p hp
  cases fuel with
  | zero => exact .outOfFuel
  | succ fuel =>
    cases l
    all_goals
      refine (only_peek hp).bind ?_
      rintro p' rfl
      exact (only_bump hp (fun e => nomatch e)).bind fun _ h => .pure h

theorem discriminant_lParen {k : TokenKind} (h : k ≠ .lParen) :
    k.discriminant ≠ TokenKind.lParen.discriminant := by
  cases k <;> first | exact absurd rfl h | exact fun e => nomatch e

theorem only_primary_ident {s : String} {k : TokenKind} {ks : List TokenKind} {p : Parser}
    (fuel : Nat) (hp : Sees names (.ident s :: k :: ks) p) (hk : k ≠ .lParen) :
    Only (parsePrimary fuel) p (.ident s) (Sees names (k :: ks)) := by
  cases fuel with
  | zero => exact .outOfFuel
  | succ fuel =>
    refine (only_peek hp).bind ?_
    rintro p' rfl
    refine (only_bump hp (fun e => nomatch e)).bind ?_
    intro p₁ h1
    refine (only_eat_not .lParen h1 (discriminant_lParen hk)).bind ?_
    rintro p₂ rfl
    exact .pure h1

theorem suffix_loop (he : Expr.Fits 11 e) :
    ∀ (fuel : Nat) (p : Parser) (k : TokenKind) (ks : List TokenKind) (v : Expr)
      (Q : Parser → Prop), Sees names (e.tokens ++ k :: ks) p → k ≠ .lParen →
        (∀ fuel' p', Sees names (k :: ks) p' → Only (postfixLoop fuel' e) p' v Q) →
          Only (parsePrimary fuel >>= postfixLoop fuel) p v Q := by
  generalize hn : 11 = n at he
  induction he with
  | literal _ l =>
    intro fuel p k ks v Q hp _ hloop
    exact (l.token_facts.2 fuel _ p hp).bind fun p' h => hloop fuel p' h
  | ident _ s =>
    intro fuel p k ks v Q hp hk hloop
    exact (only_primary_ident fuel hp hk).bind fun p' h => hloop fuel p' h
  | @member n base s _ ih =>
    intro fuel p k ks v Q hp hk hloop
    have hp : Sees names (base.tokens ++ .dot :: .ident s :: k :: ks) p := by
      simpa only [Expr.tokens, List.append_assoc, List.cons_append, List.nil_append] using hp
    refine ih rfl fuel p .dot _ v Q hp (fun e => nomatch e) ?_
    intro fuel' p' hp'
    cases fuel' with
    | zero => exact .outOfFuel
    | succ fuel' =>
      refine (only_peek hp').bind ?_
      rintro p₁ rfl
      rw [if_pos rfl]
      refine (only_bump hp' (fun e => nomatch e)).bind ?_
      intro p₂ h2
      refine (only_expectIdent _ h2).bind ?_
      intro p₃ h3
      refine (only_eat_not .lParen h3 (discriminant_lParen hk)).bind ?_
      rintro p₄ rfl
      exact hloop fuel' p₄ h3
  | unary _ h => omega
  | @binary n op _ _ hn' =>
    have := op.prec_le
    omega
  | assign => omega

theorem unaryOp_head (he : Expr.Fits 11 e) : ∃ k ks, e.tokens = k :: ks ∧ unaryOp k = none := by
  generalize hn : 11 = n at he
  induction he with
  | literal _ l => exact ⟨l.token, [], rfl, (@Literal.token_facts [] l).1⟩
  | ident _ s => exact ⟨.ident s, [], rfl, rfl⟩
  | @member n base s _ ih =>
    obtain ⟨k, ks, h, hk⟩ := ih rfl
    exact ⟨k, ks ++ [.dot, .ident s], by rw [Expr.tokens, h]; rfl, hk⟩
  | unary _ h => omega
  | @binary n op _ _ hn' =>
    have := op.prec_le
    omega
  | assign => omega

/-- Where nothing binds looser than a suffix, no parenthesis is needed and the suffix loop sees it
    all. -/
theorem readsAt_suffix (he : Expr.Fits 11 e) : ReadsAt names none e := by
  intro fuel p k ks hp hk
  cases fuel with
  | zero => exact .outOfFuel
  | succ fuel =>
    unfold parseOperand
    cases fuel with
    | zero => exact .outOfFuel
    | succ fuel =>
      unfold parseUnary
      obtain ⟨k', ks', hhead, hun⟩ := unaryOp_head he
      have hp' := hp
      rw [hhead] at hp'
      refine (only_peek hp').bind ?_
      rintro p₁ rfl
      rw [hun]
      refine suffix_loop he fuel p₁ k ks e _ hp hk.paren ?_
      intro fuel' p₂ h2
      cases fuel' with
      | zero => exact .outOfFuel
      | succ fuel' =>
        refine (only_peek h2).bind ?_
        rintro p₃ rfl
        rw [if_neg hk.dot]
        exact .pure h2

theorem ReadsAt.unary (op : UnaryOp) (h : ReadsAt names none e) :
    ReadsAt names none (.unary op e) := by
  intro fuel p k ks hp hk
  cases fuel with
  | zero => exact .outOfFuel
  | succ fuel =>
    unfold parseOperand
    cases fuel with
    | zero => exact .outOfFuel
    | succ fuel =>
      unfold parseUnary
      refine (only_peek hp).bind ?_
      rintro p₁ rfl
      have hop : unaryOp op.token = some op := by cases op <;> rfl
      have hne : op.token ≠ .eof := by cases op <;> exact fun e => nomatch e
      rw [hop]
      refine (only_bump hp hne).bind ?_
      intro p₂ h2
      refine (h (fuel + 1) p₂ k ks h2 hk).bind ?_
      intro p₃ h3
      exact .pure h3

/-! ## Expressions -/

theorem ReadsAt.all (h : ReadsAt names none e) (n : Nat) :
    (1 ≤ n → ReadsAt names (slotOf n) e) ∧
      ∀ level, slotPrec (some level) = n → LoopsAt names level e :=
  ⟨fun _ => h.looser _ (slotPrec_le _), fun _ _ => .of_operand (h.looser _ (slotPrec_le _))⟩

/-- An expression whose operators all bind tightly enough for the slot is read back there. -/
theorem reads_of_fits {n : Nat} (he : Expr.Fits n e) (hb : e.BitFree) :
    (1 ≤ n → ReadsAt names (slotOf n) e) ∧
      ∀ level, slotPrec (some level) = n → LoopsAt names level e := by
  induction he with
  | literal n l => exact (readsAt_suffix (.literal 11 l)).all n
  | ident n s => exact (readsAt_suffix (.ident 11 s)).all n
  | @member n base s hbase => exact (readsAt_suffix (.member s hbase)).all n
  | @unary n e op _ _ ih =>
    cases hb with
    | unary _ hb => exact (ReadsAt.unary op ((ih hb).1 (by decide))).all n
  | @binary n op lhs rhs hn hop _ _ ihl ihr =>
    cases hb with
    | binary hbit hbl hbr =>
      obtain ⟨level, hlevel, hprec⟩ := exists_level op hop hbit
      have hr := (ihr hbr).1 (Nat.le_add_left 1 _)
      rw [← hprec, slotOf_operand] at hr
      have hloop := LoopsAt.binary hlevel ((ihl hbl).2 level hprec) hr
      refine ⟨fun _ => hloop.reads.looser _ ?_, ?_⟩
      · rw [← slotPrec_slotOf level, hprec]
        exact slotPrec_slotOf_mono hn
      · intro level' hlevel'
        by_cases heq : level' = level
        · exact heq ▸ hloop
        · -- the operator binds tighter than the level, whose operand it then is
          refine .of_operand (hloop.reads.looser _ ?_)
          rw [← hprec, ← hlevel'] at hn
          cases level' <;> cases level <;> first | exact absurd rfl heq | (revert hn; decide)
  | assign => exact ⟨fun h => by omega, fun level h => by cases level <;> cases h⟩

theorem stop_end {k : TokenKind} (hk : k = .semicolon ∨ k = .rParen) (o : Option Level) :
    Stop o k := by
  rcases hk with rfl | rfl
  · exact ⟨nofun, nofun, fun level _ => by cases level <;> rfl⟩
  · exact ⟨nofun, nofun, fun level _ => by cases level <;> rfl⟩

theorem stop_assign (hop : op.prec = 0) (o : Option Level) : Stop o op.token := by
  refine stop_token ?_
  rcases o with _ | ⟨_ | _⟩ <;> rw [hop] <;> decide

theorem assignOp_token (hop : op.prec = 0) : assignOp op.token = some op := by
  cases op <;> first | rfl | cases hop

theorem Expr.Fits.cases_zero (he : Fits 0 e) :
    Fits 1 e ∨ ∃ op lhs rhs, e = .binary op lhs rhs ∧ op.prec = 0 ∧ Fits 1 lhs ∧ Fits 0 rhs := by
  cases he with
  | literal _ l => exact Or.inl (.literal 1 l)
  | ident _ s => exact Or.inl (.ident 1 s)
  | member s hb => exact Or.inl (.member s hb)
  | unary op _ he => exact Or.inl (.unary op (by decide) he)
  | binary _ hop hl hr => exact Or.inl (.binary hop hop hl hr)
  | assign hop hl hr => exact Or.inr ⟨_, _, _, rfl, hop, hl, hr⟩

theorem only_parseExpr (he : Expr.Fits 0 e) (hb : e.BitFree) (fuel : Nat) {p : Parser}
    {k : TokenKind} {ks : List TokenKind} (hp : Sees names (e.tokens ++ k :: ks) p)
    (hk : k = .semicolon ∨ k = .rParen) : Only (parseExpr fuel) p e (Sees names (k :: ks)) := by
  unfold parseExpr
  induction fuel generalizing e p with
  | zero => exact .outOfFuel
  | succ fuel ih =>
    have hor : ∀ {e : Expr} {p : Parser} {k : TokenKind} {ks : List TokenKind},
        Expr.Fits 1 e → e.BitFree → Sees names (e.tokens ++ k :: ks) p → Stop (some .or) k →
          Only (parseBinary fuel .or) p e (Sees names (k :: ks)) := by
      intro e p k ks he hb hp hk
      exact (reads_of_fits he hb).1 (Nat.le_refl 1) (fuel + 1) p k ks hp hk
    unfold parseAssign
    rcases he.cases_zero with he | ⟨op, lhs, rhs, rfl, hop, hl, hr⟩
    · refine (hor he hb hp (stop_end hk _)).bind ?_
      intro p₁ h1
      refine (only_peek h1).bind ?_
      rintro p₂ rfl
      have hnone : assignOp k = none := by rcases hk with rfl | rfl <;> rfl
      rw [hnone]
      exact .pure h1
    · cases hb with
      | binary _ hbl hbr =>
        have hp : Sees names (lhs.tokens ++ op.token :: (rhs.tokens ++ k :: ks)) p := by
          simpa only [Expr.tokens, List.append_assoc, List.cons_append] using hp
        refine (hor hl hbl hp (stop_assign hop _)).bind ?_
        intro p₁ h1
        refine (only_peek h1).bind ?_
        rintro p₂ rfl
        rw [assignOp_token hop]
        refine (only_bump h1 op.token_ne_eof).bind ?_
        intro p₃ h3
        exact (ih hr hbr h3).bind fun _ h => .pure h

/-! ## Every expression that is read is bit-free -/

theorem Level.op_bitFree {k : TokenKind} (h : level.op k = some op) :
    op ≠ .bitAnd ∧ op ≠ .bitOr ∧ op ≠ .bitXor := by
  cases level <;> cases k <;> cases h <;> exact ⟨nofun, nofun, nofun⟩

theorem assignOp_bitFree {k : TokenKind} (h : assignOp k = some op) :
    op ≠ .bitAnd ∧ op ≠ .bitOr ∧ op ≠ .bitXor := by
  cases k <;> cases h <;> exact ⟨nofun, nofun, nofun⟩

/-- With this much fuel, every function of the expression parser keeps to bit-free trees. -/
structure BitFreeAt (fuel : Nat) : Prop where
  assign : ∀ p, Partial (parseAssign fuel) p fun e _ => e.BitFree
  binary : ∀ p level, Partial (parseBinary fuel level) p fun e _ => e.BitFree
  loop : ∀ p level lhs, lhs.BitFree → Partial (binaryLoop fuel level lhs) p fun e _ => e.BitFree
  operand : ∀ p o, Partial (parseOperand fuel o) p fun e _ => e.BitFree
  unary : ∀ p, Partial (parseUnary fuel) p fun e _ => e.BitFree
  suffix : ∀ p e, e.BitFree → Partial (postfixLoop fuel e) p fun e' _ => e'.BitFree
  primary : ∀ p, Partial (parsePrimary fuel) p fun e _ => e.BitFree
  paren : ∀ p, Partial (parseParen fuel) p fun e _ => e.BitFree
  args : ∀ p, Partial (parseArgs fuel) p fun as _ => ∀ a ∈ as, a.BitFree
  argsLoop : ∀ p as, (∀ a ∈ as, a.BitFree) →
    Partial (argsLoop fuel as) p fun as' _ => ∀ a ∈ as', a.BitFree

variable {fuel : Nat}

theorem BitFreeAt.assign_succ (ih : BitFreeAt fuel) (p : Parser) :
    Partial (parseAssign (fuel + 1)) p fun e _ => e.BitFree := by
  unfold parseAssign
  refine .bind (ih.binary p .or) ?_
  intro lhs p₁ hl
  refine Partial.bind_any ?_
  intro k p₂
  split
  · next op hop =>
    refine Partial.bind_any ?_
    intro _ p₃
    refine .bind (ih.assign p₃) ?_
    intro rhs p₄ hr
    exact .pure (.binary (assignOp_bitFree hop) hl hr)
  · exact .pure hl

theorem BitFreeAt.loop_succ (ih : BitFreeAt fuel) (p : Parser) (level : Level) (lhs : Expr)
    (hl : lhs.BitFree) : Partial (binaryLoop (fuel + 1) level lhs) p fun e _ => e.BitFree := by
  unfold binaryLoop
  refine Partial.bind_any ?_
  intro k p₁
  split
  · next op hop =>
    refine Partial.bind_any ?_
    intro _ p₂
    refine .bind (ih.operand p₂ level.operand) ?_
    intro rhs p₃ hr
    exact ih.loop p₃ level _ (.binary (Level.op_bitFree hop) hl hr)
  · exact .pure hl

theorem BitFreeAt.unary_succ (ih : BitFreeAt fuel) (p : Parser) :
    Partial (parseUnary (fuel + 1)) p fun e _ => e.BitFree := by
  unfold parseUnary
  refine Partial.bind_any ?_
  intro k p₁
  split
  · refine Partial.bind_any ?_
    intro _ p₂
    exact .bind (ih.unary p₂) fun e _ he => .pure (.unary _ he)
  · exact .bind (ih.primary p₁) fun e p₂ he => ih.suffix p₂ e he

theorem BitFreeAt.suffix_succ (ih : BitFreeAt fuel) (p : Parser) (e : Expr) (he : e.BitFree) :
    Partial (postfixLoop (fuel + 1) e) p fun e' _ => e'.BitFree := by
  unfold postfixLoop
  refine Partial.bind_any ?_
  intro k p₁
  split
  · refine Partial.bind_any ?_
    intro _ p₂
    refine Partial.bind_any ?_
    intro member p₃
    refine Partial.bind_any ?_
    intro b p₄
    split
    · refine .bind (ih.args p₄) ?_
      intro as p₅ has
      refine Partial.bind_any ?_
      intro _ p₆
      exact ih.suffix p₆ _ (.methodCall member he has)
    · exact ih.suffix p₄ _ (.member member he)
  · exact .pure he

theorem BitFreeAt.primary_succ (ih : BitFreeAt fuel) (p : Parser) :
    Partial (parsePrimary (fuel + 1)) p fun e _ => e.BitFree := by
  show Partial (peek >>= _) p _
  refine Partial.bind_any ?_
  intro k p₁
  cases k with
  | intLiteral _ | uintLiteral _ | floatLiteral _ | boolLiteral _ =>
    exact Partial.bind_any fun _ _ => .pure (.literal _)
  | lParen =>
    refine Partial.bind_any ?_
    intro _ p₂
    refine Partial.bind_any ?_
    intro b p₃
    cases b with
    | false => exact ih.paren p₃
    | true =>
      refine Partial.bind_any ?_
      intro ty p₄
      refine Partial.bind_any ?_
      intro b p₅
      cases b with
      | false => exact ih.paren p₅
      | true => exact .bind (ih.unary p₅) fun e _ he => .pure (.cast ty he)
  | ident s =>
    refine Partial.bind_any ?_
    intro _ p₂
    refine Partial.bind_any ?_
    intro b p₃
    cases b with
    | false => exact .pure (.ident s)
    | true =>
      refine .bind (ih.args p₃) ?_
      intro as p₄ has
      refine Partial.bind_any ?_
      intro _ p₅
      split
      · exact .pure (.construct _ has)
      · exact .pure (.call s has)
  | _ =>
    exact Partial.bind_any fun _ _ => Partial.bind_any fun _ _ => .throw

theorem BitFreeAt.argsLoop_succ (ih : BitFreeAt fuel) (p : Parser) (as : List Expr)
    (has : ∀ a ∈ as, a.BitFree) :
    Partial (WinCompat.Hlsl.argsLoop (fuel + 1) as) p fun as' _ => ∀ a ∈ as', a.BitFree := by
  unfold WinCompat.Hlsl.argsLoop
  refine .bind (ih.assign p) ?_
  intro e p₁ he
  have has' : ∀ a ∈ as ++ [e], a.BitFree := by
    intro a ha
    rcases List.mem_append.1 ha with ha | ha
    · exact has a ha
    · exact List.mem_singleton.1 ha ▸ he
  refine Partial.bind_any ?_
  intro b p₂
  split
  · exact ih.argsLoop p₂ _ has'
  · exact .pure has'

/-- No level of the grammar has a bitwise operator, so none ever comes out of the parser. -/
theorem bitFreeAt : ∀ fuel : Nat, BitFreeAt fuel := by
  intro fuel
  induction fuel with
  | zero =>
    exact ⟨fun _ => .outOfFuel, fun _ _ => .outOfFuel, fun _ _ _ _ => .outOfFuel,
      fun _ _ => .outOfFuel, fun _ => .outOfFuel, fun _ _ _ => .outOfFuel, fun _ => .outOfFuel,
      fun _ => .outOfFuel, fun _ => .outOfFuel, fun _ _ _ => .outOfFuel⟩
  | succ fuel ih =>
    refine ⟨ih.assign_succ, ?_, ih.loop_succ, ?_, ih.unary_succ, ih.suffix_succ, ih.primary_succ,
      ?_, ?_, ih.argsLoop_succ⟩
    · intro p level
      exact .bind (ih.operand p level.operand) fun e p₁ he => ih.loop p₁ level e he
    · intro p o
      cases o with
      | some level => exact ih.binary p level
      | none => exact ih.unary p
    · intro p
      exact .bind (ih.assign p) fun e _ he => Partial.bind_any fun _ _ => .pure he
    · intro p
      refine Partial.bind_any ?_
      intro k p₁
      split
      · exact .pure fun _ h => nomatch h
      · exact ih.argsLoop p₁ [] fun _ h => nomatch h

theorem partial_parseExpr (fuel : Nat) (p : Parser) :
    Partial (parseExpr fuel) p fun e _ => e.BitFree := (bitFreeAt fuel).assign p

theorem exactly_parseExpr (he : Expr.Fits 0 e) (fuel : Nat) {p : Parser} {k : TokenKind}
    {ks : List TokenKind} (hp : Sees names (e.tokens ++ k :: ks) p)
    (hk : k = .semicolon ∨ k = .rParen) :
    Exactly (parseExpr fuel) p e (Sees names (k :: ks)) e.BitFree := by
  refine ⟨fun hb => only_parseExpr he hb fuel hp hk, ?_⟩
  intro e' p' h heq
  exact heq ▸ partial_parseExpr fuel p e' p' h

end WinCompat.Hlsl
