import WinCompat.Hlsl.Parens

/-!
# Reading parentheses back

A printed expression is read back when no pair of parentheses in it is followed by a type
(`reads_print`). As without parentheses, the levels and the suffixes are loops, and a part of an
expression is read when the parser is in the loop with that part in hand.
-/

namespace WinCompat.Hlsl

open Lib Lib.Comp

variable {names : List String}

/-! ## Reading at a precedence -/

/-- `o` reads `e` from the tokens `ts` wherever a token follows that ends it. -/
def Reads (names : List String) (o : Option Level) (ts : List TokenKind) (e : Expr) : Prop :=
  ∀ (fuel : Nat) (p : Parser) (k : TokenKind) (ks : List TokenKind),
    Sees names (ts ++ k :: ks) p → Stop o k →
      Only (parseOperand fuel o) p e (Sees names (k :: ks))

/-- At a level, the tokens `ts` lead into the level's loop with `e` in hand. -/
def Loops (names : List String) (level : Level) (ts : List TokenKind) (e : Expr) : Prop :=
  ∀ (fuel : Nat) (p : Parser) (k : TokenKind) (ks : List TokenKind),
    Sees names (ts ++ k :: ks) p → Stop level.operand k →
      Becomes (parseBinary fuel level) p (Sees names (k :: ks)) fun f => binaryLoop f level e

/-- The tokens `ts` lead into the loop of `parse_postfix` with `e` in hand. -/
def Suffixes (names : List String) (ts : List TokenKind) (e : Expr) : Prop :=
  ∀ (fuel : Nat) (p : Parser) (k : TokenKind) (ks : List TokenKind),
    Sees names (ts ++ k :: ks) p → k ≠ .lParen →
      Becomes (parsePrimary fuel >>= postfixLoop fuel) p (Sees names (k :: ks))
        fun f => postfixLoop f e

/-- `parse_expr` reads `e` from the tokens `ts`. -/
def ReadsExpr (names : List String) (ts : List TokenKind) (e : Expr) : Prop :=
  ∀ (fuel : Nat) (p : Parser) (k : TokenKind) (ks : List TokenKind),
    Sees names (ts ++ k :: ks) p → Stop (some .or) k → assignOp k = none →
      Only (parseAssign fuel) p e (Sees names (k :: ks))

section

variable {ts ts' : List TokenKind} {e : Expr} {level : Level} {o o' : Option Level}

theorem Loops.of_operand (h : Reads names level.operand ts e) : Loops names level ts e := by
  intro fuel p k ks hp hk
  cases fuel with
  | zero => exact .outOfFuel
  | succ fuel =>
    unfold parseBinary
    exact .bind_only (h fuel p k ks hp hk) fun p' hp' =>
      .refl (fun f => binaryLoop f level e) fuel hp'

variable {k : TokenKind} {op : BinaryOp} {lhs rhs : Expr}

/-- The loop takes one more operand. -/
theorem loop_next (hop : level.op op.token = some op) (hr : Reads names level.operand ts' rhs)
    (fuel : Nat) {p : Parser} {ks : List TokenKind}
    (hp : Sees names (op.token :: (ts' ++ k :: ks)) p) (hk : Stop level.operand k) :
    Becomes (binaryLoop fuel level lhs) p (Sees names (k :: ks))
      fun f => binaryLoop f level (.binary op lhs rhs) := by
  cases fuel with
  | zero => exact .outOfFuel
  | succ fuel =>
    rw [binaryLoop]
    refine .bind_only (only_peek hp) ?_
    rintro p₁ rfl
    rw [hop]
    refine .bind_only (only_bump hp op.token_ne_eof) fun p₂ h2 => ?_
    exact .bind_only (hr fuel p₂ k ks h2 hk) fun p₃ h3 =>
      .refl (fun f => binaryLoop f level (.binary op lhs rhs)) fuel h3

theorem Loops.binary (hop : level.op op.token = some op) (hl : Loops names level ts lhs)
    (hr : Reads names level.operand ts' rhs) :
    Loops names level (ts ++ op.token :: ts') (.binary op lhs rhs) := by
  intro fuel p k ks hp hk
  have hprec := (Level.op_token_iff level op op hop).2
  have hlt := slotPrec_operand level
  have hp : Sees names (ts ++ op.token :: (ts' ++ k :: ks)) p := by
    simpa only [List.append_assoc, List.cons_append] using hp
  refine (hl fuel p op.token _ hp (stop_token (by omega))).trans fun fuel' p' hp' => ?_
  exact loop_next hop hr fuel' hp' hk

theorem only_loop_stop (fuel : Nat) {p : Parser} {ks : List TokenKind} (hp : Sees names (k :: ks) p)
    (hk : Stop (some level) k) : Only (binaryLoop fuel level e) p e (Sees names (k :: ks)) := by
  cases fuel with
  | zero => exact .outOfFuel
  | succ fuel =>
    unfold binaryLoop
    refine (only_peek hp).bind ?_
    rintro p₁ rfl
    rw [hk.ops level (Nat.le_refl _)]
    exact .pure hp

theorem Loops.reads (h : Loops names level ts e) : Reads names (some level) ts e := by
  intro fuel p k ks hp hk
  cases fuel with
  | zero => exact .outOfFuel
  | succ fuel =>
    unfold parseOperand
    exact (h fuel p k ks hp hk.operand).only fun fuel' p' hp' => only_loop_stop fuel' hp' hk

theorem operand_le (h : slotPrec (some level) ≤ slotPrec o) (hne : some level ≠ o) :
    slotPrec level.operand ≤ slotPrec o := by
  cases level <;> rcases o with _ | ⟨_ | _⟩ <;> revert h hne <;> decide

/-- What holds of a slot holds of a looser one, if it passes from a level's operand to the level. -/
theorem looser_induction {motive : Option Level → Prop}
    (hstep : ∀ level : Level, motive level.operand → motive (some level))
    (h : motive o) (hle : slotPrec o' ≤ slotPrec o) : motive o' := by
  generalize hn : 10 - slotPrec o' = n
  induction n using Nat.strongRecOn generalizing o' with
  | ind n ih =>
    have h10 := slotPrec_le o'
    by_cases heq : o' = o
    · exact heq ▸ h
    · cases o' with
      | none =>
        have hsame : slotPrec o = 10 := Nat.le_antisymm (slotPrec_le o) hle
        rcases o with _ | ⟨_ | _⟩ <;> first | exact absurd rfl heq | cases hsame
      | some level =>
        have hlt := slotPrec_operand level
        have h10 := slotPrec_le level.operand
        exact hstep level (ih _ (by omega) (operand_le hle heq) rfl)

theorem Reads.looser (h : Reads names o ts e) (hle : slotPrec o' ≤ slotPrec o) :
    Reads names o' ts e :=
  looser_induction (motive := fun o => Reads names o ts e)
    (fun _ h => (Loops.of_operand h).reads) h hle

theorem only_suffix_stop (fuel : Nat) {p : Parser} {ks : List TokenKind}
    (hp : Sees names (k :: ks) p) (hk : k ≠ .dot) :
    Only (postfixLoop fuel e) p e (Sees names (k :: ks)) := by
  cases fuel with
  | zero => exact .outOfFuel
  | succ fuel =>
    refine (only_peek hp).bind ?_
    rintro p₁ rfl
    rw [if_neg hk]
    exact .pure hp

theorem reads_of_postfix (hhead : ∃ k ks, ts = k :: ks ∧ unaryOp k = none)
    (h : ∀ (fuel : Nat) (p : Parser) (k : TokenKind) (ks : List TokenKind),
      Sees names (ts ++ k :: ks) p → Stop none k →
        Only (parsePrimary fuel >>= postfixLoop fuel) p e (Sees names (k :: ks))) :
    Reads names none ts e := by
  intro fuel p k ks hp hk
  cases fuel with
  | zero => exact .outOfFuel
  | succ fuel =>
    unfold parseOperand
    cases fuel with
    | zero => exact .outOfFuel
    | succ fuel =>
      unfold parseUnary
      obtain ⟨k', ts', rfl, hun⟩ := hhead
      refine (only_peek hp).bind ?_
      rintro p₁ rfl
      rw [hun]
      exact h fuel p₁ k ks hp hk

theorem Suffixes.reads (h : Suffixes names ts e)
    (hhead : ∃ k ks, ts = k :: ks ∧ unaryOp k = none) : Reads names none ts e :=
  reads_of_postfix hhead fun fuel p k ks hp hk =>
    (h fuel p k ks hp hk.paren).only fun fuel' _ h' => only_suffix_stop fuel' h' hk.dot

theorem Reads.unary (op : UnaryOp) (h : Reads names none ts e) :
    Reads names none (op.token :: ts) (.unary op e) := by
  intro fuel p k ks hp hk
  cases fuel with
  | zero => exact .outOfFuel
  | succ fuel =>
    unfold parseOperand
    cases fuel with
    | zero => exact .outOfFuel
    | succ fuel =>
      unfold parseUnary
      refine (only_peek hp).bind ?_
      rintro p₁ rfl
      have hop : unaryOp op.token = some op := by cases op <;> rfl
      have hne : op.token ≠ .eof := by cases op <;> simp [UnaryOp.token]
      rw [hop]
      refine (only_bump hp hne).bind fun p₂ h2 => ?_
      exact (h (fuel + 1) p₂ k ks h2 hk).bind fun p₃ h3 => .pure h3

/-! ### Assignments -/

theorem Reads.expr (h : Reads names (some .or) ts e) : ReadsExpr names ts e := by
  intro fuel p k ks hp hk hassign
  cases fuel with
  | zero => exact .outOfFuel
  | succ fuel =>
    unfold parseAssign
    refine Only.bind (h (fuel + 1) p k ks hp hk) fun p₁ h1 => (only_peek h1).bind ?_
    rintro p₂ rfl
    rw [hassign]
    exact .pure h1

theorem ReadsExpr.assign (hop : op.prec = 0) (hl : Reads names (some .or) ts lhs)
    (hr : ReadsExpr names ts' rhs) :
    ReadsExpr names (ts ++ op.token :: ts') (.binary op lhs rhs) := by
  intro fuel p k ks hp hk hassign
  cases fuel with
  | zero => exact .outOfFuel
  | succ fuel =>
    unfold parseAssign
    have hp : Sees names (ts ++ op.token :: (ts' ++ k :: ks)) p := by
      simpa only [List.append_assoc, List.cons_append] using hp
    refine Only.bind (hl (fuel + 1) p _ _ hp (stop_assign hop _)) fun p₁ h1 => ?_
    refine (only_peek h1).bind ?_
    rintro p₂ rfl
    rw [assignOp_token hop]
    refine (only_bump h1 op.token_ne_eof).bind fun p₃ h3 => ?_
    exact (hr fuel p₃ k ks h3 hk hassign).bind fun p₄ h4 => .pure h4

end

/-! ## Types -/

section

variable {fuel : Nat} {p : Parser} {ks : List TokenKind} {ty : Ty}

theorem only_wordType {s : String} (hty : readWord names s = some ty)
    (hp : Sees names (.ident s :: ks) p) : Only (parseType fuel) p ty (Sees names ks) := by
  refine (only_bump hp (by simp)).bind fun p₁ h1 => ?_
  dsimp only
  unfold readWord at hty
  cases hd : decodeTypeWord s with
  | some ty' =>
    rw [hd] at hty
    cases hty
    exact .pure h1
  | none =>
    simp only [hd] at hty
    refine Only.bind (a := p₁) (Q := (· = p₁)) (.of_eq rfl rfl) ?_
    rintro p' rfl
    rw [h1.names]
    by_cases hs : s ∈ names
    · rw [if_pos hs] at hty ⊢
      cases hty
      exact .pure h1
    · rw [if_neg hs] at hty
      cases hty

theorem only_castType {k : TokenKind} (hty : readType names k = some ty)
    (hp : Sees names (k :: .rParen :: ks) p) :
    Only (parseType fuel) p ty (Sees names (.rParen :: ks)) := by
  cases k with
  | ident s => exact only_wordType hty hp
  | keyword w =>
    refine (only_bump hp nofun).bind fun p₁ h1 => ?_
    cases w with
    | texture2D =>
      cases hty
      refine (only_eat_not .lt h1 nofun).bind ?_
      rintro p₂ rfl
      exact .pure h1
    | void | float | int | uint | bool | samplerState =>
      cases hty
      exact .pure h1
    | _ => cases hty
  | _ => cases hty

end

/-! ## Casts and parentheses -/

section

variable {ts : List TokenKind} {e : Expr}

theorem Reads.cast {k : TokenKind} {ty : Ty} (hty : readType names k = some ty)
    (h : Reads names none ts e) :
    Reads names none (.lParen :: k :: .rParen :: ts) (.cast ty e) := by
  refine reads_of_postfix ⟨_, _, rfl, rfl⟩ fun fuel p k' ks hp hk => ?_
  cases fuel with
  | zero => exact .outOfFuel
  | succ fuel =>
    refine Only.bind (Q := Sees names (k' :: ks)) ?_ fun p₁ h1 =>
      only_suffix_stop (fuel + 1) h1 hk.dot
    refine (only_peek hp).bind ?_
    rintro p₁ rfl
    refine (only_bump hp nofun).bind fun p₂ h2 => ?_
    refine (only_peekIsType h2).bind ?_
    rintro p₃ rfl
    rw [hty]
    refine (only_castType hty h2).bind fun p₄ h4 => ?_
    refine (only_eat .rParen h4 nofun rfl).bind fun p₅ h5 => ?_
    exact (h (fuel + 1) p₅ k' ks h5 hk).bind fun p₆ h6 => .pure h6

theorem ReadsExpr.group (hts : ¬ StartsType names ts) (hne : ts ≠ []) (h : ReadsExpr names ts e) :
    Suffixes names (.lParen :: ts ++ [.rParen]) e := by
  intro fuel p k ks hp _
  cases fuel with
  | zero => exact .outOfFuel
  | succ fuel =>
    have hp : Sees names (.lParen :: (ts ++ .rParen :: k :: ks)) p := by
      simpa only [List.append_assoc, List.cons_append, List.nil_append] using hp
    refine Becomes.bind_only (Q := Sees names (k :: ks)) ?_ fun p₁ h1 =>
      .refl (fun f => postfixLoop f e) (fuel + 1) h1
    refine (only_peek hp).bind ?_
    rintro p₁ rfl
    refine (only_bump hp nofun).bind fun p₂ h2 => ?_
    obtain ⟨k', ts', rfl⟩ := List.exists_cons_of_ne_nil hne
    have hno : (readType names k').isSome = false :=
      Bool.eq_false_iff.2 fun hty => hts ⟨k', rfl, hty⟩
    refine (only_peekIsType h2).bind ?_
    rintro p₃ rfl
    rw [hno]
    cases fuel with
    | zero => exact .outOfFuel
    | succ fuel =>
      have hstop := stop_end (k := .rParen) (Or.inr rfl) (some .or)
      refine Only.bind (h fuel p₃ _ _ h2 hstop rfl) fun p₄ h4 => ?_
      exact (only_expect .rParen ")" h4 nofun).bind fun p₅ h5 => .pure h5

/-! ## Names, calls and members -/

/-- What the parser does after an argument: the next one, or the end. -/
def afterArg (fuel : Nat) (args : List Expr) : P (List Expr) := do
  if ← eat .comma then argsLoop fuel args
  else pure args

/-- The tokens `ts` are read as the arguments after the first. -/
def ReadsRest (names : List String) (ts : List TokenKind) (es : List Expr) : Prop :=
  ∀ (fuel : Nat) (args : List Expr) (p : Parser) (ks : List TokenKind),
    Sees names (ts ++ .rParen :: ks) p →
      Only (afterArg fuel args) p (args ++ es) (Sees names (.rParen :: ks))

/-- The tokens `ts` are read as arguments. -/
def ReadsArgs (names : List String) (ts : List TokenKind) (es : List Expr) : Prop :=
  ∀ (fuel : Nat) (p : Parser) (ks : List TokenKind), Sees names (ts ++ .rParen :: ks) p →
    Only (parseArgs fuel) p es (Sees names (.rParen :: ks))

theorem ReadsRest.nil : ReadsRest names [] [] := by
  intro fuel args _ ks hp
  refine (only_eat_not .comma hp nofun).bind ?_
  rintro p₁ rfl
  rw [List.append_nil]
  exact .pure hp

/-- The token after an argument. -/
theorem stop_arg {k : TokenKind} (hk : k = .comma ∨ k = .rParen) :
    Stop (some .or) k ∧ assignOp k = none := by
  rcases hk with rfl | rfl
  · exact ⟨⟨nofun, nofun, fun level _ => by cases level <;> rfl⟩, rfl⟩
  · exact ⟨stop_end (Or.inr rfl) _, rfl⟩

theorem printRest_head (sp : Spelling) (es : List Expr) (ks : List TokenKind) :
    ∃ k ks', printRest sp es ++ .rParen :: ks = k :: ks' ∧ (k = .comma ∨ k = .rParen) := by
  cases es with
  | nil => exact ⟨_, _, rfl, Or.inr rfl⟩
  | cons e es => exact ⟨_, _, rfl, Or.inl rfl⟩

variable {es : List Expr}

variable {sp : Spelling}

theorem only_argsLoop (he : ReadsExpr names ts e) (hes : ReadsRest names (printRest sp es) es)
    (fuel : Nat) (args : List Expr) {p : Parser} {ks : List TokenKind}
    (hp : Sees names (ts ++ (printRest sp es ++ .rParen :: ks)) p) :
    Only (argsLoop fuel args) p (args ++ e :: es) (Sees names (.rParen :: ks)) := by
  cases fuel with
  | zero => exact .outOfFuel
  | succ fuel =>
    obtain ⟨k, ks', hhead, hk⟩ := printRest_head sp es ks
    rw [hhead] at hp
    obtain ⟨hstop, hassign⟩ := stop_arg hk
    refine (he fuel p k ks' hp hstop hassign).bind fun p₁ h1 => ?_
    rw [← hhead] at h1
    have h := hes fuel (args ++ [e]) p₁ ks h1
    rwa [List.append_assoc] at h

theorem ReadsRest.cons (he : ReadsExpr names ts e) (hes : ReadsRest names (printRest sp es) es) :
    ReadsRest names (.comma :: ts ++ printRest sp es) (e :: es) := by
  intro fuel args p ks hp
  have hp : Sees names (.comma :: (ts ++ (printRest sp es ++ .rParen :: ks))) p := by
    simpa only [List.append_assoc, List.cons_append] using hp
  refine (only_eat .comma hp nofun rfl).bind fun p₁ h1 => ?_
  exact only_argsLoop he hes fuel args h1

theorem ReadsArgs.nil : ReadsArgs names [] [] := by
  intro fuel p ks hp
  cases fuel with
  | zero => exact .outOfFuel
  | succ fuel =>
    refine (only_peek hp).bind ?_
    rintro p₁ rfl
    exact .pure hp

theorem ReadsArgs.cons (he : ReadsExpr names ts e) (hhead : ∃ k ks, ts = k :: ks ∧ k ≠ .rParen)
    (hes : ReadsRest names (printRest sp es) es) :
    ReadsArgs names (ts ++ printRest sp es) (e :: es) := by
  intro fuel p ks hp
  cases fuel with
  | zero => exact .outOfFuel
  | succ fuel =>
    obtain ⟨k, ts', rfl, hk⟩ := hhead
    refine (only_peek hp).bind ?_
    rintro p₁ rfl
    rw [if_neg hk]
    rw [List.append_assoc] at hp
    exact only_argsLoop he hes fuel [] hp

theorem Suffixes.literal (l : Literal) : Suffixes names [l.token] (.literal l) :=
  fun fuel _ _ ks hp _ => .bind_only (l.token_facts.2 fuel (_ :: ks) _ hp) fun _ h =>
    .refl (fun f => postfixLoop f (.literal l)) fuel h

theorem Suffixes.ident (s : String) : Suffixes names [.ident s] (.ident s) :=
  fun fuel _ _ _ hp hk => .bind_only (only_primary_ident fuel hp hk) fun _ h =>
    .refl (fun f => postfixLoop f (.ident s)) fuel h

theorem Suffixes.call (s : String) (h : ReadsArgs names ts es) :
    Suffixes names (.ident s :: .lParen :: ts ++ [.rParen])
      (match decodeTypeWord s with
        | some ty => .construct ty es
        | none => .call s es) := by
  intro fuel p k ks hp _
  cases fuel with
  | zero => exact .outOfFuel
  | succ fuel =>
    have hp : Sees names (.ident s :: .lParen :: (ts ++ .rParen :: k :: ks)) p := by
      simpa only [List.append_assoc, List.cons_append, List.nil_append] using hp
    refine Becomes.bind_only (Q := Sees names (k :: ks)) ?_ fun p₁ h1 => .refl
      (fun f => postfixLoop f (match decodeTypeWord s with
        | some ty => .construct ty es
        | none => .call s es)) (fuel + 1) h1
    refine (only_peek hp).bind ?_
    rintro p₁ rfl
    refine (only_bump hp nofun).bind fun p₂ h2 => ?_
    refine (only_eat .lParen h2 nofun rfl).bind fun p₃ h3 => ?_
    refine (h fuel p₃ _ h3).bind fun p₄ h4 => ?_
    refine (only_expect .rParen ")" h4 nofun).bind fun p₅ h5 => ?_
    show Only (match decodeTypeWord s with
      | some ty => (pure (Expr.construct ty es) : P Expr)
      | none => pure (Expr.call s es)) p₅ _ _
    cases decodeTypeWord s with
    | some ty => exact .pure h5
    | none => exact .pure h5

theorem Suffixes.member (m : String) (h : Suffixes names ts e) :
    Suffixes names (ts ++ [.dot, .ident m]) (.member e m) := by
  intro fuel p k ks hp hk
  have hp : Sees names (ts ++ .dot :: .ident m :: k :: ks) p := by
    simpa only [List.append_assoc, List.cons_append, List.nil_append] using hp
  refine (h fuel p .dot _ hp nofun).trans fun fuel' p' h' => ?_
  cases fuel' with
  | zero => exact .outOfFuel
  | succ fuel' =>
    rw [postfixLoop]
    refine .bind_only (only_peek h') ?_
    rintro p₁ rfl
    rw [if_pos rfl]
    refine .bind_only (only_bump h' nofun) fun p₂ h2 => ?_
    refine .bind_only (only_expectIdent _ h2) fun p₃ h3 => ?_
    refine .bind_only (only_eat_not .lParen h3 (discriminant_lParen hk)) ?_
    rintro p₄ rfl
    exact .refl (fun f => postfixLoop f (.member e m)) fuel' h3

theorem Suffixes.methodCall (m : String) (h : Suffixes names ts e) {ts' : List TokenKind}
    (hes : ReadsArgs names ts' es) :
    Suffixes names (ts ++ .dot :: .ident m :: .lParen :: ts' ++ [.rParen])
      (.methodCall e m es) := by
  intro fuel p k ks hp hk
  have hp : Sees names (ts ++ .dot :: .ident m :: .lParen :: (ts' ++ .rParen :: k :: ks)) p := by
    simpa only [List.append_assoc, List.cons_append, List.nil_append] using hp
  refine (h fuel p .dot _ hp nofun).trans fun fuel' p' h' => ?_
  cases fuel' with
  | zero => exact .outOfFuel
  | succ fuel' =>
    rw [postfixLoop]
    refine .bind_only (only_peek h') ?_
    rintro p₁ rfl
    rw [if_pos rfl]
    refine .bind_only (only_bump h' nofun) fun p₂ h2 => ?_
    refine .bind_only (only_expectIdent _ h2) fun p₃ h3 => ?_
    refine .bind_only (only_eat .lParen h3 nofun rfl) fun p₄ h4 => ?_
    refine .bind_only (hes fuel' p₄ _ h4) fun p₅ h5 => ?_
    refine .bind_only (only_expect .rParen ")" h5 nofun) fun p₆ h6 => ?_
    exact .refl (fun f => postfixLoop f (.methodCall e m es)) fuel' h6

end

/-! ## First tokens -/

/-- An expression can begin with the token. -/
def TokenKind.begins : TokenKind → Bool
  | .intLiteral _ | .uintLiteral _ | .floatLiteral _ | .boolLiteral _ | .ident _ | .lParen => true
  | .minus | .bang | .tilde => true
  | _ => false

/-- How a printed expression begins: with a name alone, or with a token that no `)` follows. -/
def Begins (ts : List TokenKind) : Prop :=
  ∃ k ks, ts = k :: ks ∧ k.begins = true ∧
    ∀ s, k = .ident s → ∃ k' ks', ks = k' :: ks' ∧ k' ≠ .rParen

theorem Begins.append {ts : List TokenKind} (h : Begins ts) (ts' : List TokenKind) :
    Begins (ts ++ ts') := by
  obtain ⟨k, ks, rfl, hk, hnext⟩ := h
  refine ⟨k, ks ++ ts', rfl, hk, fun s hs => ?_⟩
  obtain ⟨k', ks', rfl, hk'⟩ := hnext s hs
  exact ⟨k', ks' ++ ts', rfl, hk'⟩

theorem Begins.of_token {k : TokenKind} {ks : List TokenKind} (hk : k.begins = true)
    (hs : ∀ s, k ≠ .ident s) : Begins (k :: ks) := ⟨k, ks, rfl, hk, fun s h => absurd h (hs s)⟩

theorem Begins.of_ident (s : String) {k : TokenKind} (ks : List TokenKind) (hk : k ≠ .rParen) :
    Begins (.ident s :: k :: ks) := ⟨_, _, rfl, rfl, fun _ _ => ⟨k, ks, rfl, hk⟩⟩

theorem Literal.begins (l : Literal) : Begins [l.token] := by
  cases l <;> exact .of_token rfl nofun

theorem UnaryOp.begins (op : UnaryOp) : op.token.begins = true ∧ ∀ s, op.token ≠ .ident s := by
  cases op <;> exact ⟨rfl, nofun⟩

theorem BinaryOp.token_ne_rParen (op : BinaryOp) : op.token ≠ .rParen := by
  cases op <;> exact nofun

/-- An operand and the token after it. -/
theorem begins_operand {sp : Spelling} {e : Expr}
    (he : (∃ s, e = .ident s) ∨ Begins (e.print sp)) (paren : Prop) [Decidable paren]
    {k : TokenKind} (ks : List TokenKind) (hk : k ≠ .rParen) :
    Begins (group paren (e.print sp) ++ k :: ks) := by
  unfold group
  by_cases hn : paren
  · rw [if_pos hn]
    exact .of_token rfl nofun
  · rw [if_neg hn]
    rcases he with ⟨s, he⟩ | he
    · rw [he]
      exact .of_ident s ks hk
    · exact he.append (k :: ks)

theorem begins_print (sp : Spelling) :
    ∀ e : Expr, (∃ s, e = .ident s) ∨ Begins (e.print sp)
  | .literal l => Or.inr l.begins
  | .ident s => Or.inl ⟨s, rfl⟩
  | .construct _ _ | .call _ _ => Or.inr (.of_ident _ _ nofun)
  | .methodCall base m args => by
      refine Or.inr ?_
      rw [Expr.print, List.append_assoc]
      exact begins_operand (begins_print sp base) _ _ nofun
  | .member base m => Or.inr (begins_operand (begins_print sp base) _ _ nofun)
  | .binary op lhs _ => Or.inr (begins_operand (begins_print sp lhs) _ _ op.token_ne_rParen)
  | .unary op _ => Or.inr (.of_token op.begins.1 op.begins.2)
  | .cast _ _ => Or.inr (.of_token rfl nofun)

theorem print_head (sp : Spelling) (e : Expr) :
    ∃ k ks, e.print sp = k :: ks ∧ k.begins = true := by
  rcases begins_print sp e with ⟨s, rfl⟩ | ⟨k, ks, h, hk, -⟩
  · exact ⟨_, _, rfl, rfl⟩
  · exact ⟨k, ks, h, hk⟩

theorem print_ne_nil (sp : Spelling) (e : Expr) : e.print sp ≠ [] := by
  obtain ⟨k, ks, h, -⟩ := print_head sp e
  rw [h]
  exact nofun

theorem ident_of_type {k : TokenKind} (hk : k.begins = true)
    (hty : (readType names k).isSome = true) : ∃ s, k = .ident s := by
  cases k <;> first | exact ⟨_, rfl⟩ | cases hty | cases hk

theorem Begins.name_of_type {ts : List TokenKind} (h : Begins ts) (hs : StartsType names ts) :
    ∃ s k ks, ts = .ident s :: k :: ks ∧ k ≠ .rParen := by
  obtain ⟨k, ks, rfl, hk, hnext⟩ := h
  obtain ⟨_, hhead, hty⟩ := hs
  cases hhead
  obtain ⟨s, rfl⟩ := ident_of_type hk hty
  obtain ⟨k', ks', rfl, hk'⟩ := hnext s rfl
  exact ⟨s, k', ks', rfl, hk'⟩

theorem Expr.prec_le (e : Expr) : e.prec ≤ 11 := by
  cases e with
  | binary op lhs rhs => exact Nat.le_trans op.prec_le (by decide)
  | _ => simp [Expr.prec]

/-- The tokens begin as `parse_postfix` does, with no operator. -/
def StartsPostfix (ts : List TokenKind) : Prop := ∃ k ks, ts = k :: ks ∧ unaryOp k = none

theorem StartsPostfix.append {ts : List TokenKind} (h : StartsPostfix ts) (ts' : List TokenKind) :
    StartsPostfix (ts ++ ts') := by
  obtain ⟨k, ks, rfl, hk⟩ := h
  exact ⟨k, ks ++ ts', rfl, hk⟩

theorem startsPostfix_group {sp : Spelling} {e : Expr}
    (h : e.prec = 11 → StartsPostfix (e.print sp)) :
    StartsPostfix (group (e.prec < 11) (e.print sp)) := by
  unfold group
  by_cases hlt : e.prec < 11
  · rw [if_pos hlt]
    exact ⟨_, _, rfl, rfl⟩
  · rw [if_neg hlt]
    exact h (Nat.le_antisymm e.prec_le (Nat.le_of_not_lt hlt))

theorem startsPostfix_print (sp : Spelling) :
    ∀ e : Expr, e.prec = 11 → StartsPostfix (e.print sp)
  | .literal l, _ => ⟨_, _, rfl, (@Literal.token_facts [] l).1⟩
  | .ident _, _ | .construct _ _, _ | .call _ _, _ => ⟨_, _, rfl, rfl⟩
  | .methodCall base m args, _ => by
      rw [Expr.print, List.append_assoc]
      exact (startsPostfix_group (startsPostfix_print sp base)).append _
  | .member base m, _ => (startsPostfix_group (startsPostfix_print sp base)).append _
  | .binary op _ _, h => absurd h (Nat.ne_of_lt (Nat.lt_of_le_of_lt op.prec_le (by decide)))

/-! ## Printed expressions are read back -/

/-- The tokens `ts` are read as `e` where precedence `n` is expected. -/
structure ReadsAs (names : List String) (ts : List TokenKind) (n : Nat) (e : Expr) : Prop where
  suffixes : n = 11 → Suffixes names ts e
  operand : 1 ≤ n → Reads names (slotOf n) ts e
  loops : ∀ level : Level, slotPrec (some level) = n → Loops names level ts e
  expr : ReadsExpr names ts e

section

variable {ts : List TokenKind} {e : Expr} {n m : Nat}

theorem slotPrec_operand_le {level : Level} (h : slotPrec (some level) < m) :
    slotPrec level.operand ≤ slotPrec (slotOf m) := by
  rw [← slotOf_operand level]
  exact slotPrec_slotOf_mono h

theorem ReadsAs.looser (h : ReadsAs names ts m e) (hm : m ≤ 11) (hle : n ≤ m) :
    ReadsAs names ts n e := by
  refine ⟨fun hn => h.suffixes (by omega), fun hn => ?_, ?_, h.expr⟩
  · exact (h.operand (by omega)).looser (slotPrec_slotOf_mono hle)
  · intro level hlevel
    rcases Nat.lt_or_ge n m with hlt | hge
    · refine .of_operand ((h.operand (by omega)).looser ?_)
      exact slotPrec_operand_le (by omega)
    · exact h.loops level (by omega)

theorem ReadsAs.of_unary (h : Reads names none ts e) : ReadsAs names ts 10 e := by
  refine ⟨nofun, fun _ => h, ?_, (h.looser (slotPrec_le _)).expr⟩
  intro level hlevel
  cases level <;> cases hlevel

theorem ReadsAs.of_suffixes (h : Suffixes names ts e)
    (hhead : StartsPostfix ts) : ReadsAs names ts 11 e := by
  have hreads := h.reads hhead
  refine ⟨fun _ => h, fun _ => hreads, ?_, (hreads.looser (slotPrec_le _)).expr⟩
  intro level hlevel
  cases level <;> cases hlevel

theorem ReadsAs.of_loops {level : Level} (h : Loops names level ts e) :
    ReadsAs names ts (slotPrec (some level)) e := by
  refine ⟨?_, fun _ => ?_, ?_, (h.reads.looser ?_).expr⟩
  · intro hn
    cases level <;> cases hn
  · rw [slotPrec_slotOf]
    exact h.reads
  · intro level' hlevel
    have heq : some level' = some level := by
      rw [← slotPrec_slotOf level', hlevel, slotPrec_slotOf]
    cases heq
    exact h
  · cases level <;> decide

/-- In parentheses if need be. -/
theorem ReadsAs.group (h : ReadsAs names ts m e) (hm : m ≤ 11) (hn : n ≤ 11) (hne : ts ≠ [])
    (hts : m < n → ¬ StartsType names ts) : ReadsAs names (group (m < n) ts) n e := by
  unfold WinCompat.Hlsl.group
  by_cases hlt : m < n
  · rw [if_pos hlt]
    exact (of_suffixes (h.expr.group (hts hlt) hne) ⟨_, _, rfl, rfl⟩).looser (Nat.le_refl _) hn
  · rw [if_neg hlt]
    exact h.looser hm (Nat.le_of_not_lt hlt)

end

theorem slotPrec_slotOf_operand {op : BinaryOp} {level : Level}
    (hprec : slotPrec (some level) = op.prec) :
    op.lhsPrec = slotPrec (some level) ∧ slotOf op.rhsPrec = level.operand := by
  have hne : op.prec ≠ 0 := by
    rw [← hprec]
    cases level <;> decide
  unfold BinaryOp.lhsPrec BinaryOp.rhsPrec
  rw [if_neg hne, if_neg hne, ← hprec]
  exact ⟨rfl, slotOf_operand level⟩

theorem slotOf_lhsPrec {op : BinaryOp} (hop : op.prec = 0) :
    slotOf op.lhsPrec = some .or ∧ 1 ≤ op.lhsPrec := by
  unfold BinaryOp.lhsPrec
  rw [if_pos hop]
  exact ⟨rfl, Nat.le_refl 1⟩

theorem one_le_rhsPrec {op : BinaryOp} (hop : op.prec ≠ 0) : 1 ≤ op.rhsPrec := by
  unfold BinaryOp.rhsPrec
  rw [if_neg hop]
  exact Nat.le_add_left 1 _

theorem ReadsAs.binary {op : BinaryOp} {lhs rhs : Expr} {ts ts' : List TokenKind}
    (hop : op ≠ .bitAnd ∧ op ≠ .bitOr ∧ op ≠ .bitXor) (hl : ReadsAs names ts op.lhsPrec lhs)
    (hr : ReadsAs names ts' op.rhsPrec rhs) :
    ReadsAs names (ts ++ op.token :: ts') op.prec (.binary op lhs rhs) := by
  by_cases hassign : op.prec = 0
  · obtain ⟨hlhs, hone⟩ := slotOf_lhsPrec hassign
    have h := ReadsExpr.assign hassign (hlhs ▸ hl.operand hone) hr.expr
    refine ⟨fun hn => ?_, fun hn => ?_, fun level hn => ?_, h⟩
    · omega
    · omega
    · rw [hassign] at hn
      cases level <;> cases hn
  · obtain ⟨level, hlevel, hprec⟩ := exists_level op (Nat.pos_of_ne_zero hassign) hop
    obtain ⟨hlhs, hrhs⟩ := slotPrec_slotOf_operand hprec
    have hone := one_le_rhsPrec hassign
    rw [← hprec]
    exact .of_loops (.binary hlevel (hl.loops level hlhs.symm) (hrhs ▸ hr.operand hone))

theorem BinaryOp.lhsPrec_le (op : BinaryOp) : op.lhsPrec ≤ 11 ∧ op.rhsPrec ≤ 11 := by
  cases op <;> decide

mutual

/-- A printed expression is read back when no parentheses in it begin with a type. -/
theorem reads_print (sp : Spelling) :
    ∀ e : Expr, e.Producible names sp → e.Clear names sp →
      ReadsAs names (e.print sp) e.prec e
  | .literal l, _, _ => .of_suffixes (.literal l) (startsPostfix_print sp (.literal l) rfl)
  | .ident s, _, _ => .of_suffixes (.ident s) (startsPostfix_print sp (.ident s) rfl)
  | .construct ty args, hp, hc => by
      have h := Suffixes.call (sp.word ty) (reads_printArgs sp args hp.2 hc)
      rw [hp.1] at h
      exact .of_suffixes h ⟨_, _, rfl, rfl⟩
  | .call s args, hp, hc => by
      have h := Suffixes.call s (reads_printArgs sp args hp.2 hc)
      rw [hp.1] at h
      exact .of_suffixes h ⟨_, _, rfl, rfl⟩
  | .methodCall base m args, hp, hc => by
      have h := (reads_print sp base hp.1 hc.2.1).group base.prec_le (Nat.le_refl 11)
        (print_ne_nil sp base) hc.1
      exact .of_suffixes ((h.suffixes rfl).methodCall m (reads_printArgs sp args hp.2 hc.2.2))
        (startsPostfix_print sp (.methodCall base m args) rfl)
  | .member base m, hp, hc => by
      have h := (reads_print sp base hp hc.2).group base.prec_le (Nat.le_refl 11)
        (print_ne_nil sp base) hc.1
      exact .of_suffixes ((h.suffixes rfl).member m)
        (startsPostfix_print sp (.member base m) rfl)
  | .binary op lhs rhs, hp, hc => by
      have hl := (reads_print sp lhs hp.2.1 hc.1.2).group lhs.prec_le op.lhsPrec_le.1
        (print_ne_nil sp lhs) hc.1.1
      have hr := (reads_print sp rhs hp.2.2 hc.2.2).group rhs.prec_le op.lhsPrec_le.2
        (print_ne_nil sp rhs) hc.2.1
      exact hl.binary hp.1 hr
  | .unary op e, hp, hc => by
      have h := (reads_print sp e hp hc.2).group (n := 10) e.prec_le (by decide)
        (print_ne_nil sp e) hc.1
      exact .of_unary (.unary op (h.operand (by decide)))
  | .cast ty e, hp, hc => by
      have h := (reads_print sp e hp.2 hc.2).group (n := 10) e.prec_le (by decide)
        (print_ne_nil sp e) hc.1
      exact .of_unary (.cast hp.1 (h.operand (by decide)))

theorem reads_printArgs (sp : Spelling) :
    ∀ es : List Expr, AllProducible names sp es → AllClear names sp es →
      ReadsArgs names (printArgs sp es) es
  | [], _, _ => .nil
  | e :: es, hp, hc => by
      obtain ⟨k, ks, hhead, hk⟩ := print_head sp e
      refine .cons (reads_print sp e hp.1 hc.1).expr ⟨k, ks, hhead, ?_⟩
        (reads_printRest sp es hp.2 hc.2)
      intro h
      rw [h] at hk
      cases hk

theorem reads_printRest (sp : Spelling) :
    ∀ es : List Expr, AllProducible names sp es → AllClear names sp es →
      ReadsRest names (printRest sp es) es
  | [], _, _ => .nil
  | e :: es, hp, hc =>
      .cons (reads_print sp e hp.1 hc.1).expr (reads_printRest sp es hp.2 hc.2)

end

end WinCompat.Hlsl
