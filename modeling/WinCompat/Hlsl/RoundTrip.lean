import WinCompat.Hlsl.ParserTotal
import WinCompat.Hlsl.ReadExpr

/-!
# Reading a statement list back

`parse_block_body` on the canonical tokens of a statement list. It does not always return the list:
`parse_if` looks for its `else` with `eat`, which compares discriminants, and every keyword has the
discriminant of `else`. `BlockKept` is the exact condition, and `parse_print` says so.
-/

namespace WinCompat.Hlsl

open Lib Lib.Comp

/-! ## The condition -/

/-- The type that an identifier names. -/
def readWord (names : List String) (w : String) : Option Ty :=
  match decodeTypeWord w with
  | some ty => some ty
  | none => if w ∈ names then some (.struct w) else none

/-- The type that the parser reads from one token. -/
def readType (names : List String) : TokenKind → Option Ty
  | .keyword .void => some .void
  | .keyword .float => some (.scalar .float)
  | .keyword .int => some (.scalar .int)
  | .keyword .uint => some (.scalar .uint)
  | .keyword .bool => some (.scalar .bool)
  | .keyword .samplerState => some .samplerState
  | .keyword .texture2D => some .texture2D
  | .ident w => readWord names w
  | _ => none

/-- The declared type is read back from its own word, and the initialiser is bit-free. -/
def VarDecl.Kept (names : List String) (vd : VarDecl) : Prop :=
  readType names (typeToken vd.ty) = some vd.ty ∧ ∀ e ∈ vd.init, e.BitFree

def SimpleKept (names : List String) : Stmt → Prop
  | .varDecl vd => vd.Kept names
  | .expr e => e.BitFree
  | _ => True

def TokenKind.isKeyword : TokenKind → Bool
  | .keyword _ => true
  | _ => false

variable {k : TokenKind}

theorem isKeyword_iff : k.isKeyword = true ↔ ∃ w, k = .keyword w := by
  cases k <;> simp [TokenKind.isKeyword]

/-- All keywords have the discriminant of `else`. -/
theorem keyword_of_discriminant (h : k.discriminant = (TokenKind.keyword .else_).discriminant) :
    k.isKeyword = true := by
  cases k <;> first | rfl | cases h

/-- The statement begins with a keyword. -/
def Stmt.startsKeyword : Stmt → Bool
  | .return_ _ | .if_ _ _ _ | .for_ _ _ _ _ => true
  | .varDecl vd => (typeToken vd.ty).isKeyword
  | .expr _ | .block _ => false

def startsKeyword : List Stmt → Bool
  | [] => false
  | s :: _ => s.startsKeyword

/-- An `if` without `else`. -/
def Stmt.openIf : Stmt → Bool
  | .if_ _ _ none => true
  | _ => false

mutual

/-- Nothing inside the statement keeps the parser from reading it back. -/
def Stmt.Kept (names : List String) : Stmt → Prop
  | .return_ e => ∀ x ∈ e, x.BitFree
  | .varDecl vd => vd.Kept names
  | .expr e => e.BitFree
  | .if_ cond then_ else_ => cond.BitFree ∧ BlockKept names then_ ∧ ElseKept names else_
  | .for_ init cond update body =>
      (∀ s ∈ init, SimpleKept names s) ∧ (∀ x ∈ cond, x.BitFree) ∧ (∀ x ∈ update, x.BitFree) ∧
        BlockKept names body
  | .block b => BlockKept names b

/-- Every statement is kept, and after an `if` without `else` there is no statement that begins
    with a keyword. -/
def BlockKept (names : List String) : List Stmt → Prop
  | [] => True
  | s :: l => s.Kept names ∧ (s.openIf = true → startsKeyword l = false) ∧ BlockKept names l

def ElseKept (names : List String) : Option (List Stmt) → Prop
  | none => True
  | some b => BlockKept names b

end

/-! ## First tokens -/

/-- The tokens an expression without parentheses can begin with. -/
def TokenKind.startsExpr : TokenKind → Bool
  | .intLiteral _ | .uintLiteral _ | .floatLiteral _ | .boolLiteral _ | .ident _ | .minus | .bang
  | .tilde => true
  | _ => false

theorem Expr.Fits.head {n : Nat} {e : Expr} (he : Fits n e) :
    ∃ k ks, e.tokens = k :: ks ∧ k.startsExpr = true := by
  induction he with
  | literal n l => exact ⟨l.token, [], rfl, by cases l <;> rfl⟩
  | ident n s => exact ⟨.ident s, [], rfl, rfl⟩
  | member s _ ih =>
    obtain ⟨k, ks, h, hk⟩ := ih
    exact ⟨k, ks ++ [.dot, .ident s], by rw [Expr.tokens, h]; rfl, hk⟩
  | unary op _ _ _ => exact ⟨op.token, _, rfl, by cases op <;> rfl⟩
  | @binary n op lhs rhs _ _ _ _ ih _ =>
    obtain ⟨k, ks, h, hk⟩ := ih
    exact ⟨k, ks ++ op.token :: rhs.tokens, by rw [Expr.tokens, h]; rfl, hk⟩
  | @assign op lhs rhs _ _ _ ih _ =>
    obtain ⟨k, ks, h, hk⟩ := ih
    exact ⟨k, ks ++ op.token :: rhs.tokens, by rw [Expr.tokens, h]; rfl, hk⟩

theorem Expr.Fits.no_decl {n : Nat} {e : Expr} (he : Fits n e) :
    ∀ {k : TokenKind} {ks : List TokenKind}, (∀ s, k ≠ .ident s) →
      ∃ k₁ k₂ ks', e.tokens ++ k :: ks = k₁ :: k₂ :: ks' ∧ k₁.startsExpr = true ∧
        (∀ s, k₁ = .ident s → ∀ s', k₂ ≠ .ident s') := by
  induction he with
  | literal n l =>
    intro k ks _
    exact ⟨l.token, k, ks, rfl, by cases l <;> rfl, fun s h => by cases l <;> cases h⟩
  | ident n s =>
    intro k ks hk
    exact ⟨.ident s, k, ks, rfl, rfl, fun _ _ => hk⟩
  | member s _ ih =>
    intro k ks _
    simp only [Expr.tokens, List.append_assoc, List.cons_append]
    exact ih (by simp)
  | @unary n e op _ he _ =>
    intro k ks _
    obtain ⟨k₂, ks₂, h, -⟩ := he.head
    refine ⟨op.token, k₂, ks₂ ++ k :: ks, by rw [Expr.tokens, h]; rfl, by cases op <;> rfl, ?_⟩
    exact fun s h => by cases op <;> cases h
  | @binary n op lhs rhs _ _ _ _ ih _ =>
    intro k ks _
    simp only [Expr.tokens, List.append_assoc, List.cons_append]
    exact ih fun s h => by cases op <;> cases h
  | @assign op lhs rhs _ _ _ ih _ =>
    intro k ks _
    simp only [Expr.tokens, List.append_assoc, List.cons_append]
    exact ih fun s h => by cases op <;> cases h

/-! ## Declarations -/

variable {names : List String} {p : Parser}

theorem readType_typeToken_ne (ty : Ty) : typeToken ty ≠ .eof := by
  rcases ty with _ | ⟨_ | _⟩ | _ | _ | _ | _ | _ <;> exact nofun

variable {ks : List TokenKind}

theorem exactly_parseType (ty : Ty) (fuel : Nat) {s : String}
    (hp : Sees names (typeToken ty :: .ident s :: ks) p) :
    Exactly (parseType fuel) p ty (Sees names (.ident s :: ks))
      (readType names (typeToken ty) = some ty) := by
  refine Exactly.bind_only (only_bump hp (readType_typeToken_ne ty)) ?_
  intro p₁ h1
  have hkeyword : ∀ {ty : Ty} {G : Prop}, G → Exactly (pure ty : P Ty) p₁ ty
      (Sees names (.ident s :: ks)) G := fun hg =>
    (Exactly.of_only (.pure h1)).congr (by simp only [hg])
  have hword : ∀ {ty : Ty} (w : String),
      Exactly (match decodeTypeWord w with
        | some ty => (pure ty : P Ty)
        | none => do
            let p ← Comp.get
            if w ∈ p.structNames then pure (.struct w)
            else errBefore [.text s!"unknown type `{w}`"]) p₁ ty (Sees names (.ident s :: ks))
        (readWord names w = some ty) := by
    intro ty w
    unfold readWord
    cases hd : decodeTypeWord w with
    | some ty' =>
      by_cases he : ty' = ty
      · subst he
        exact hkeyword rfl
      · exact .of_ne (.pure he) fun h => he (Option.some.inj h)
    | none =>
      refine Exactly.bind_only (a := p₁) (Q := (· = p₁)) (.of_eq rfl rfl) ?_
      rintro p' rfl
      rw [h1.names]
      by_cases hm : w ∈ names
      · simp only [if_pos hm]
        by_cases he : Ty.struct w = ty
        · subst he
          exact hkeyword rfl
        · exact .of_ne (.pure he) fun h => he (Option.some.inj h)
      · simp only [if_neg hm]
        exact .of_ne (Partial.bind_any fun _ _ => Partial.bind_any fun _ _ => .throw) fun h => nomatch h
  rcases ty with _ | ⟨_ | _⟩ | _ | _ | _ | _ | _
  any_goals exact hkeyword rfl
  any_goals exact hword _
  refine Exactly.bind_only (only_eat_not .lt h1 nofun) ?_
  rintro p' rfl
  exact hkeyword rfl

theorem Sees.token_next {k k' : TokenKind} (hp : Sees names (k :: k' :: ks) p) :
    Only (tokenAt (p.idx + 1)) p ⟨k', ((p.toks[p.idx + 1]?).getD ⟨k', ⟨0, 0⟩⟩).span⟩ (· = p) := by
  obtain ⟨t, ht, hk⟩ := hp.next.token
  have ht : p.toks[p.idx + 1]? = some t := ht
  refine .of_eq ?_ rfl
  unfold tokenAt
  rw [ht, ← hk]
  rfl

theorem isSome_readWord (w : String) :
    (readWord names w).isSome = true ↔ isTypeWord w = true ∨ w ∈ names := by
  unfold readWord isTypeWord
  cases decodeTypeWord w with
  | some ty => simp only [Option.isSome_some, true_or]
  | none =>
    by_cases h : w ∈ names
    · simp [h]
    · simp [h]

theorem only_typeTokenLen (hp : Sees names (k :: ks) p) :
    Only typeTokenLen p (if (readType names k).isSome then 1 else 0) (· = p) := by
  refine Only.bind (a := p) (Q := (· = p)) (.of_eq rfl rfl) ?_
  rintro p' rfl
  refine (only_peek hp).bind ?_
  rintro p₁ rfl
  cases k with
  | keyword w => cases w <;> exact .pure rfl
  | ident w =>
    show Only (pure (if isTypeWord w = true ∨ w ∈ p₁.structNames then 1 else 0)) p₁
      (if (readWord names w).isSome = true then 1 else 0) _
    rw [hp.names]
    simp only [isSome_readWord]
    exact .pure rfl
  | _ => exact .pure rfl

theorem only_peekIsType (hp : Sees names (k :: ks) p) :
    Only peekIsType p (readType names k).isSome (· = p) := by
  refine (only_typeTokenLen hp).bind ?_
  rintro p' rfl
  cases (readType names k).isSome <;> exact .pure rfl

def TokenKind.isIdent : TokenKind → Bool
  | .ident _ => true
  | _ => false

theorem only_looksLikeVarDecl {k k' : TokenKind} (hp : Sees names (k :: k' :: ks) p) :
    Only looksLikeVarDecl p ((readType names k).isSome && k'.isIdent) (· = p) := by
  refine (only_peekIsType hp).bind ?_
  rintro p' rfl
  cases hty : (readType names k).isSome with
  | false => exact .pure rfl
  | true =>
    refine (only_typeTokenLen hp).bind ?_
    rintro p₁ rfl
    refine Only.bind (a := p₁) (Q := (· = p₁)) (.of_eq rfl rfl) ?_
    rintro p₂ rfl
    rw [if_pos hty]
    refine hp.token_next.bind ?_
    rintro p₃ rfl
    cases k' <;> exact .pure rfl

theorem only_parseOptionalSemantic (semantic : Option String)
    (hp : Sees names (semanticTokens semantic ++ k :: ks) p) (hk : k = .assign ∨ k = .semicolon) :
    Only parseOptionalSemantic p semantic (Sees names (k :: ks)) := by
  cases semantic with
  | none =>
    refine (only_eat_not .colon hp (by rcases hk with rfl | rfl <;> exact nofun)).bind ?_
    rintro p' rfl
    exact .pure hp
  | some s =>
    refine (only_eat .colon hp nofun rfl).bind ?_
    intro p₁ h1
    refine (only_bump h1 nofun).bind ?_
    intro p₂ h2
    exact .pure h2

theorem exactly_parseVarDecl (vd : VarDecl) (hvd : ∀ e ∈ vd.init, Expr.Fits 0 e) (fuel : Nat)
    (hp : Sees names (vd.tokens ++ .semicolon :: ks) p) :
    Exactly (parseVarDecl fuel) p vd (Sees names (.semicolon :: ks)) (vd.Kept names) := by
  obtain ⟨ty, name, init, semantic⟩ := vd
  have hp : Sees names (typeToken ty :: .ident name :: (semanticTokens semantic ++
      (initTokens init ++ .semicolon :: ks))) p := by
    simpa only [VarDecl.tokens, List.append_assoc, List.cons_append] using hp
  refine Exactly.bind (exactly_parseType ty fuel hp) ?_ ?_
  · intro _ p₁ h1
    refine Exactly.bind_only (only_expectIdent _ h1) ?_
    intro p₂ h2
    have hnext : ∃ k' ks', initTokens init ++ .semicolon :: ks = k' :: ks' ∧
        (k' = .assign ∨ k' = .semicolon) := by
      cases init with
      | none => exact ⟨_, _, rfl, Or.inr rfl⟩
      | some e => exact ⟨_, _, rfl, Or.inl rfl⟩
    obtain ⟨k', ks', heq, hk'⟩ := hnext
    rw [heq] at h2
    refine Exactly.bind_only (only_parseOptionalSemantic semantic h2 hk') ?_
    intro p₃ h3
    rw [← heq] at h3
    cases init with
    | none =>
      refine Exactly.bind_only (a := none) (Q := Sees names (.semicolon :: ks)) ?_ ?_
      · refine (only_eat_not .assign h3 nofun).bind ?_
        rintro p₄ rfl
        exact .pure h3
      · intro p₄ h4
        exact (Exactly.of_only (.pure h4)).congr ⟨fun _ _ he => (nomatch he), fun _ => trivial⟩
    | some e =>
      have he := hvd e rfl
      refine (Exactly.bind (a := some e) (Q := Sees names (.semicolon :: ks)) (G := e.BitFree)
        (H := True) ?_ ?_ ?_).congr ?_
      · refine Exactly.bind_only (only_eat .assign h3 nofun rfl) ?_
        intro p₄ h4
        exact .bind_inj (fun _ _ => Option.some.inj) (exactly_parseExpr he fuel h4 (Or.inl rfl))
          (fun p₅ h5 => .pure h5) fun _ _ => .pure rfl
      · intro _ p₄ h4
        exact .of_only (.pure h4)
      · intro init' p₄ hne
        exact .pure fun h => hne (congrArg VarDecl.init h)
      · constructor
        · rintro ⟨hb, -⟩ e' he'
          cases he'
          exact hb
        · intro h
          exact ⟨h e rfl, trivial⟩
  · intro ty' p₁ hne
    refine Partial.bind_any fun _ _ => Partial.bind_any fun _ _ => Partial.bind_any fun _ _ => ?_
    exact .pure fun h => hne (congrArg VarDecl.ty h)

theorem exactly_parseSimple (s : Stmt) (hs : Simple s) (fuel : Nat)
    (hp : Sees names (simpleTokens s ++ .semicolon :: ks) p) :
    Exactly (parseSimple fuel) p s (Sees names (.semicolon :: ks)) (SimpleKept names s) := by
  cases s with
  | varDecl vd =>
    refine Exactly.bind_only (only_looksLikeVarDecl hp) ?_
    rintro p' rfl
    cases hty : readType names (typeToken vd.ty) with
    | none =>
      refine .of_ne ?_ ?_
      · exact Partial.bind_any fun e _ => .pure nofun
      · intro hk
        rw [hk.1] at hty
        cases hty
    | some ty =>
      exact .bind_inj (fun _ _ => Stmt.varDecl.inj) (exactly_parseVarDecl vd hs fuel hp)
        (fun p₁ h1 => .pure h1) fun _ _ => .pure rfl
  | expr e =>
    obtain ⟨k, k', ks', heq, hstart, hident⟩ := Expr.Fits.no_decl hs
      (show ∀ s, TokenKind.semicolon ≠ .ident s by nofun)
    have hp' := hp
    rw [show simpleTokens (.expr e) = e.tokens from rfl, heq] at hp'
    refine Exactly.bind_only (only_looksLikeVarDecl hp') ?_
    rintro p' rfl
    have hno : ((readType names k).isSome && k'.isIdent) = false := by
      cases k
      case ident s =>
        cases k'
        case ident s' => exact absurd rfl (hident s rfl s')
        all_goals exact Bool.and_false _
      all_goals first | rfl | cases hstart
    rw [hno]
    exact .bind_inj (fun _ _ => Stmt.expr.inj) (exactly_parseExpr hs fuel hp (Or.inl rfl))
      (fun p₁ h1 => .pure h1) fun _ _ => .pure rfl
  | return_ _ | if_ _ _ _ | for_ _ _ _ _ | block _ => exact hs.elim

/-! ## Clauses -/

/-- What a declaration or an expression begins with is no punctuation, and no keyword but that of
    a type. -/
structure StartsSimple (k : TokenKind) : Prop where
  semicolon : k.discriminant ≠ TokenKind.semicolon.discriminant
  rBrace : k ≠ .rBrace
  eof : k ≠ .eof
  lBrace : k ≠ .lBrace
  return_ : k ≠ .keyword .return_
  if_ : k ≠ .keyword .if_
  for_ : k ≠ .keyword .for_

theorem startsSimple (hk : k.startsExpr = true ∨ ∃ ty, k = typeToken ty) : StartsSimple k := by
  rcases hk with hk | ⟨ty, rfl⟩
  · cases k <;> first
      | (cases hk; done)
      | exact ⟨nofun, nofun, nofun, nofun, nofun, nofun, nofun⟩
  · rcases ty with _ | ⟨_ | _⟩ | _ | _ | _ | _ | _ <;>
      exact ⟨nofun, nofun, nofun, nofun, nofun, nofun, nofun⟩

theorem exactly_optExpr {β : Type} (f : Option Expr → β) (hf : Function.Injective f)
    (e : Option Expr) (he : ∀ x ∈ e, Expr.Fits 0 x) (fuel : Nat)
    (hp : Sees names (optTokens e ++ .semicolon :: ks) p) :
    Exactly (show P β from do
      if ← eat .semicolon then pure (f none)
      else do
        let x ← parseExpr fuel
        expect .semicolon ";"
        pure (f (some x))) p (f e) (Sees names ks) (∀ x ∈ e, x.BitFree) := by
  cases e with
  | none =>
    refine Exactly.bind_only (only_eat .semicolon hp nofun rfl) ?_
    intro p₁ h1
    exact (Exactly.of_only (.pure h1)).congr ⟨fun _ _ h => (nomatch h), fun _ => trivial⟩
  | some e =>
    have he := he e rfl
    obtain ⟨k, ks', heq, hk⟩ := he.head
    have hp' := hp
    rw [show optTokens (some e) = e.tokens from rfl, heq] at hp'
    refine Exactly.bind_only
      (only_eat_not .semicolon hp' (startsSimple (Or.inl hk)).semicolon) ?_
    rintro p' rfl
    refine (Exactly.bind_inj (hf.comp fun _ _ => Option.some.inj)
      (exactly_parseExpr he fuel hp (Or.inl rfl)) ?_ ?_).congr (by simp)
    · intro p₁ h1
      exact (only_expect .semicolon _ h1 nofun).bind fun p₂ h2 => .pure h2
    · exact fun _ _ => Partial.bind_any fun _ _ => .pure rfl

variable {s : Stmt}

theorem simpleTokens_head (hs : Simple s) :
    ∃ k ks, simpleTokens s = k :: ks ∧ (k.startsExpr = true ∨ ∃ ty, k = typeToken ty) := by
  cases s with
  | varDecl vd => exact ⟨_, _, rfl, Or.inr ⟨vd.ty, rfl⟩⟩
  | expr e =>
    obtain ⟨k, ks, h, hk⟩ := Expr.Fits.head hs
    exact ⟨k, ks, h, Or.inl hk⟩
  | return_ _ | if_ _ _ _ | for_ _ _ _ _ | block _ => exact hs.elim

theorem exactly_parseForInit (init : Option Stmt) (hi : ∀ s ∈ init, Simple s) (fuel : Nat)
    (hp : Sees names (forInitTokens init ++ .semicolon :: ks) p) :
    Exactly (parseForInit fuel) p init (Sees names ks) (∀ s ∈ init, SimpleKept names s) := by
  cases init with
  | none =>
    refine Exactly.bind_only (only_eat .semicolon hp nofun rfl) ?_
    intro p₁ h1
    exact (Exactly.of_only (.pure h1)).congr ⟨fun _ _ h => (nomatch h), fun _ => trivial⟩
  | some s =>
    have hs := hi s rfl
    obtain ⟨k, ks', heq, hk⟩ := simpleTokens_head hs
    have hp' := hp
    rw [show forInitTokens (some s) = simpleTokens s from rfl, heq] at hp'
    refine Exactly.bind_only (only_eat_not .semicolon hp' (startsSimple hk).semicolon) ?_
    rintro p' rfl
    refine (Exactly.bind_inj (fun _ _ => Option.some.inj) (exactly_parseSimple s hs fuel hp)
      ?_ ?_).congr (by simp)
    · intro p₁ h1
      exact (only_expect .semicolon _ h1 nofun).bind fun p₂ h2 => .pure h2
    · exact fun _ _ => Partial.bind_any fun _ _ => .pure rfl

theorem exactly_parseForUpdate (update : Option Expr) (hu : ∀ x ∈ update, Expr.Fits 0 x)
    (fuel : Nat) (hp : Sees names (optTokens update ++ .rParen :: ks) p) :
    Exactly (parseForUpdate fuel) p update (Sees names (.rParen :: ks))
      (∀ x ∈ update, x.BitFree) := by
  cases update with
  | none =>
    refine Exactly.bind_only (only_peek hp) ?_
    rintro p' rfl
    rw [if_pos rfl]
    exact (Exactly.of_only (.pure hp)).congr ⟨fun _ _ h => (nomatch h), fun _ => trivial⟩
  | some e =>
    have he := hu e rfl
    obtain ⟨k, ks', heq, hk⟩ := he.head
    have hp' := hp
    rw [show optTokens (some e) = e.tokens from rfl, heq] at hp'
    refine Exactly.bind_only (only_peek hp') ?_
    rintro p' rfl
    have hne : k ≠ .rParen := fun h => by
      subst h
      cases hk
    rw [if_neg hne]
    exact (Exactly.bind_inj (fun _ _ => Option.some.inj) (exactly_parseExpr he fuel hp (Or.inr rfl))
      (fun p₁ h1 => .pure h1) fun _ _ => .pure rfl).congr (by simp)

/-! ## Statements -/

/-- `parse_stmt` reads `s` back exactly when `s` is kept, and, where it is an `if` without `else`,
    no keyword follows. -/
def Stmt.ReadsBack (names : List String) (s : Stmt) : Prop :=
  ∀ (fuel : Nat) (p : Parser) (k : TokenKind) (ks : List TokenKind),
    Sees names (s.tokens ++ k :: ks) p →
      Exactly (parseStmt fuel) p s (Sees names (k :: ks))
        (s.Kept names ∧ (s.openIf = true → k.isKeyword = false))

def BlockReadsBack (names : List String) (l : List Stmt) : Prop :=
  ∀ (fuel : Nat) (p : Parser) (acc : List Stmt) (k : TokenKind) (ks : List TokenKind),
    Sees names (blockTokens l ++ k :: ks) p → k = .rBrace ∨ k = .eof →
      Exactly (parseStmts fuel acc) p (acc ++ l) (Sees names (k :: ks)) (BlockKept names l)

-- every constructor below reads its own equation of these two
attribute [local simp] Stmt.tokens Stmt.Kept

theorem partial_parseStmts (fuel : Nat) :
    ∀ (p : Parser) (acc : List Stmt), Partial (parseStmts fuel acc) p fun l _ => acc <+: l := by
  induction fuel with
  | zero => exact fun _ _ => .outOfFuel
  | succ fuel ih =>
    intro p acc
    refine Partial.bind_any ?_
    intro k p₁
    split
    · exact .pure List.prefix_rfl
    · refine Partial.bind_any ?_
      intro s p₂
      refine (ih p₂ (acc ++ [s])).mono ?_
      intro l _ h
      exact (List.prefix_append acc [s]).trans h

theorem readsBack_simple (hs : Simple s) (htok : s.tokens = simpleTokens s ++ [.semicolon])
    (hkept : s.Kept names ↔ SimpleKept names s) (hopen : s.openIf = false) : s.ReadsBack names := by
  intro fuel p k ks hp
  cases fuel with
  | zero => exact .outOfFuel
  | succ fuel =>
    have hp : Sees names (simpleTokens s ++ .semicolon :: k :: ks) p := by
      rw [htok] at hp
      simpa only [List.append_assoc, List.cons_append, List.nil_append] using hp
    obtain ⟨k₁, ks₁, heq, hk₁⟩ := simpleTokens_head hs
    have hp' := hp
    rw [heq] at hp'
    unfold parseStmt
    refine Exactly.bind_only (only_peek hp') ?_
    rintro p' rfl
    have hstart := startsSimple hk₁
    split
    · exact absurd rfl hstart.return_
    · exact absurd rfl hstart.if_
    · exact absurd rfl hstart.for_
    · exact absurd rfl hstart.lBrace
    -- the default arm of `parse_stmt`
    refine (Exactly.bind_inj Function.injective_id (exactly_parseSimple s hs fuel hp)
      ?_ ?_).congr ?_
    · intro p₁ h1
      exact (only_expect .semicolon _ h1 nofun).bind fun p₂ h2 => .pure h2
    · exact fun _ _ => Partial.bind_any fun _ _ => .pure rfl
    · rw [hkept, hopen]
      exact ⟨fun h => ⟨h, nofun⟩, fun h => h.1⟩

theorem readsBack_return (e : Option Expr) (he : ∀ x ∈ e, Expr.Fits 0 x) :
    (Stmt.return_ e).ReadsBack names := by
  intro fuel p k ks hp
  cases fuel with
  | zero => exact .outOfFuel
  | succ fuel =>
    have hp : Sees names (.keyword .return_ :: (optTokens e ++ .semicolon :: k :: ks)) p := by
      simpa only [Stmt.tokens, List.append_assoc, List.cons_append, List.nil_append] using hp
    unfold parseStmt
    refine Exactly.bind_only (only_peek hp) ?_
    rintro p' rfl
    refine Exactly.bind_only (only_expect _ _ hp (by simp)) ?_
    intro p₁ h1
    refine (exactly_optExpr Stmt.return_ (fun _ _ h => Stmt.return_.inj h) e he fuel h1).congr ?_
    exact ⟨fun h => ⟨h, by simp [Stmt.openIf]⟩, fun h => h.1⟩

variable {l : List Stmt}

/-- The statements of a block and the closing brace. -/
theorem exactly_block (hl : BlockReadsBack names l) {β : Type} (f : List Stmt → β)
    (hf : Function.Injective f) (fuel : Nat) (hp : Sees names (blockTokens l ++ .rBrace :: ks) p) :
    Exactly (show P β from do
      let b ← parseStmts fuel []
      expect .rBrace "\x7d"
      pure (f b)) p (f l) (Sees names ks) (BlockKept names l) := by
  refine Exactly.bind_inj hf (hl fuel p [] .rBrace ks hp (Or.inl rfl)) ?_ ?_
  · intro p₁ h1
    exact (only_expect .rBrace _ h1 nofun).bind fun p₂ h2 => .pure h2
  · exact fun _ _ => Partial.bind_any fun _ _ => .pure rfl

theorem readsBack_block (hl : BlockReadsBack names l) : (Stmt.block l).ReadsBack names := by
  intro fuel p k ks hp
  cases fuel with
  | zero => exact .outOfFuel
  | succ fuel =>
    have hp : Sees names (.lBrace :: (blockTokens l ++ .rBrace :: k :: ks)) p := by
      simpa only [Stmt.tokens, List.append_assoc, List.cons_append, List.nil_append] using hp
    unfold parseStmt
    refine Exactly.bind_only (only_peek hp) ?_
    rintro p' rfl
    refine Exactly.bind_only (only_bump hp (by simp)) ?_
    intro p₁ h1
    refine (exactly_block hl Stmt.block (fun _ _ h => Stmt.block.inj h) fuel h1).congr ?_
    exact ⟨fun h => ⟨h, by simp [Stmt.openIf]⟩, fun h => h.1⟩

theorem exactly_parseBlockOrStmt (hl : BlockReadsBack names l) (fuel : Nat)
    (hp : Sees names (.lBrace :: (blockTokens l ++ .rBrace :: ks)) p) :
    Exactly (parseBlockOrStmt fuel) p l (Sees names ks) (BlockKept names l) := by
  cases fuel with
  | zero => exact .outOfFuel
  | succ fuel =>
    unfold parseBlockOrStmt
    refine Exactly.bind_only (only_eat .lBrace hp (by simp) rfl) ?_
    intro p₁ h1
    exact exactly_block hl id Function.injective_id fuel h1

theorem exactly_else (cond : Expr) (then_ : List Stmt) (else_ : Option (List Stmt))
    (he : ∀ b ∈ else_, BlockReadsBack names b) (fuel : Nat)
    (hp : Sees names (elseTokens else_ ++ k :: ks) p) :
    Exactly (show P Stmt from do
      if ← eat (.keyword .else_) then do
        let e ← parseBlockOrStmt fuel
        pure (.if_ cond then_ (some e))
      else pure (.if_ cond then_ none)) p (.if_ cond then_ else_) (Sees names (k :: ks))
      (ElseKept names else_ ∧ (else_ = none → k.isKeyword = false)) := by
  cases else_ with
  | none =>
    have hp : Sees names (k :: ks) p := hp
    by_cases hk : k.isKeyword = true
    · obtain ⟨w, rfl⟩ := isKeyword_iff.1 hk
      refine Exactly.bind_only (only_eat (.keyword .else_) hp nofun rfl) ?_
      intro p₁ _
      refine .of_ne ?_ fun h => nomatch h.2 rfl
      exact Partial.bind_any fun _ _ => .pure nofun
    · have hne := mt keyword_of_discriminant hk
      refine Exactly.bind_only (only_eat_not (.keyword .else_) hp hne) ?_
      rintro p₁ rfl
      refine (Exactly.of_only (.pure hp)).congr ?_
      exact ⟨fun _ => ⟨trivial, fun _ => Bool.eq_false_iff.2 hk⟩, fun _ => trivial⟩
  | some b =>
    have hp : Sees names (.keyword .else_ :: .lBrace :: (blockTokens b ++ .rBrace :: k :: ks)) p := by
      simpa only [elseTokens, List.append_assoc, List.cons_append, List.nil_append] using hp
    refine Exactly.bind_only (only_eat (.keyword .else_) hp nofun rfl) ?_
    intro p₁ h1
    refine (Exactly.bind_inj (f := fun b => Stmt.if_ cond then_ (some b)) ?_
      (exactly_parseBlockOrStmt (he b rfl) fuel h1) (fun p₂ h2 => .pure h2)
      fun _ _ => .pure rfl).congr ?_
    · exact fun _ _ h => Option.some.inj (Stmt.if_.inj h).2.2
    · exact ⟨fun h => ⟨h, nofun⟩, fun h => h.1⟩

theorem partial_else (cond : Expr) (then_ : List Stmt) (fuel : Nat) (p : Parser) :
    Partial (show P Stmt from do
      if ← eat (.keyword .else_) then do
        let e ← parseBlockOrStmt fuel
        pure (.if_ cond then_ (some e))
      else pure (.if_ cond then_ none)) p fun s _ => ∃ else_, s = .if_ cond then_ else_ := by
  refine Partial.bind_any ?_
  intro b p₁
  cases b with
  | true => exact Partial.bind_any fun e _ => .pure ⟨some e, rfl⟩
  | false => exact .pure ⟨none, rfl⟩

theorem readsBack_if {cond : Expr} {then_ : List Stmt} {else_ : Option (List Stmt)}
    (hc : Expr.Fits 0 cond) (ht : BlockReadsBack names then_)
    (he : ∀ b ∈ else_, BlockReadsBack names b) : (Stmt.if_ cond then_ else_).ReadsBack names := by
  intro fuel p k ks hp
  cases fuel with
  | zero => exact .outOfFuel
  | succ fuel =>
    have hp : Sees names (.keyword .if_ :: .lParen :: (cond.tokens ++ .rParen :: .lBrace ::
        (blockTokens then_ ++ .rBrace :: (elseTokens else_ ++ k :: ks)))) p := by
      simpa only [Stmt.tokens, List.append_assoc, List.cons_append, List.nil_append] using hp
    unfold parseStmt
    refine Exactly.bind_only (only_peek hp) ?_
    rintro p' rfl
    cases fuel with
    | zero => exact .outOfFuel
    | succ fuel =>
      unfold parseIf
      refine Exactly.bind_only (only_expect _ _ hp (by simp)) ?_
      intro p₁ h1
      refine Exactly.bind_only (only_expect _ _ h1 (by simp)) ?_
      intro p₂ h2
      refine (Exactly.bind (exactly_parseExpr hc fuel h2 (Or.inr rfl)) (H := BlockKept names then_ ∧
        ElseKept names else_ ∧ (else_ = none → k.isKeyword = false)) ?_ ?_).congr ?_
      · intro _ p₃ h3
        refine Exactly.bind_only (only_expect _ _ h3 (by simp)) ?_
        intro p₄ h4
        refine Exactly.bind (exactly_parseBlockOrStmt ht fuel h4) ?_ ?_
        · intro _ p₅ h5
          exact exactly_else cond then_ else_ he fuel h5
        · intro then' p₅ hne
          refine (partial_else cond then' fuel p₅).mono ?_
          rintro s _ ⟨else', rfl⟩ h
          exact hne (Stmt.if_.inj h).2.1
      · intro cond' p₃ hne
        refine Partial.bind_any fun _ p₄ => Partial.bind_any fun then' p₅ => ?_
        refine (partial_else cond' then' fuel p₅).mono ?_
        rintro s _ ⟨else', rfl⟩ h
        exact hne (Stmt.if_.inj h).1
      · have hopen : (Stmt.if_ cond then_ else_).openIf = true ↔ else_ = none := by
          cases else_ <;> simp [Stmt.openIf]
        rw [hopen, Stmt.Kept]
        exact ⟨fun h => ⟨⟨h.1, h.2.1, h.2.2.1⟩, h.2.2.2⟩,
          fun h => ⟨h.1.1, h.1.2.1, h.1.2.2, h.2⟩⟩

theorem readsBack_for {init : Option Stmt} {cond update : Option Expr} {body : List Stmt}
    (hi : ∀ s ∈ init, Simple s) (hc : ∀ x ∈ cond, Expr.Fits 0 x)
    (hu : ∀ x ∈ update, Expr.Fits 0 x) (hb : BlockReadsBack names body) :
    (Stmt.for_ init cond update body).ReadsBack names := by
  intro fuel p k ks hp
  cases fuel with
  | zero => exact .outOfFuel
  | succ fuel =>
    have hp : Sees names (.keyword .for_ :: .lParen :: (forInitTokens init ++ .semicolon ::
        (optTokens cond ++ .semicolon :: (optTokens update ++ .rParen :: .lBrace ::
          (blockTokens body ++ .rBrace :: k :: ks))))) p := by
      simpa only [Stmt.tokens, List.append_assoc, List.cons_append, List.nil_append] using hp
    unfold parseStmt
    refine Exactly.bind_only (only_peek hp) ?_
    rintro p' rfl
    cases fuel with
    | zero => exact .outOfFuel
    | succ fuel =>
      unfold parseFor
      refine Exactly.bind_only (only_expect _ _ hp (by simp)) ?_
      intro p₁ h1
      refine Exactly.bind_only (only_expect _ _ h1 (by simp)) ?_
      intro p₂ h2
      refine (Exactly.bind (exactly_parseForInit init hi fuel h2) (H := (∀ x ∈ cond, x.BitFree) ∧
        (∀ x ∈ update, x.BitFree) ∧ BlockKept names body ∧ True) ?_ ?_).congr ?_
      · intro _ p₃ h3
        refine Exactly.bind (exactly_optExpr id Function.injective_id cond hc fuel h3) ?_ ?_
        · intro _ p₄ h4
          refine Exactly.bind (exactly_parseForUpdate update hu fuel h4) ?_ ?_
          · intro _ p₅ h5
            refine Exactly.bind_only (only_expect _ _ h5 (by simp)) ?_
            intro p₆ h6
            refine Exactly.bind (exactly_parseBlockOrStmt hb fuel h6) ?_ ?_
            · intro _ p₇ h7
              exact .of_only (.pure h7)
            · intro body' p₇ hne
              exact .pure fun h => hne (Stmt.for_.inj h).2.2.2
          · intro update' p₅ hne
            refine Partial.bind_any fun _ _ => Partial.bind_any fun _ _ => ?_
            exact .pure fun h => hne (Stmt.for_.inj h).2.2.1
        · intro cond' p₄ hne
          refine Partial.bind_any fun _ _ => Partial.bind_any fun _ _ =>
            Partial.bind_any fun _ _ => ?_
          exact .pure fun h => hne (Stmt.for_.inj h).2.1
      · intro init' p₃ hne
        refine Partial.bind_any fun _ _ => Partial.bind_any fun _ _ =>
          Partial.bind_any fun _ _ => Partial.bind_any fun _ _ => ?_
        exact .pure fun h => hne (Stmt.for_.inj h).1
      · rw [Stmt.Kept]
        exact ⟨fun h => ⟨⟨h.1, h.2.1, h.2.2.1, h.2.2.2.1⟩, by simp [Stmt.openIf]⟩,
          fun h => ⟨h.1.1, h.1.2.1, h.1.2.2.1, h.1.2.2.2, trivial⟩⟩

/-! ## Lists -/

theorem Stmt.tokens_head (hs : s.Printable) :
    ∃ k ks, s.tokens = k :: ks ∧ k.isKeyword = s.startsKeyword ∧ k ≠ .rBrace ∧ k ≠ .eof := by
  cases s with
  | return_ e => exact ⟨.keyword .return_, _, by rw [Stmt.tokens]; rfl, rfl, nofun, nofun⟩
  | varDecl vd =>
    have h := startsSimple (Or.inr ⟨vd.ty, rfl⟩)
    exact ⟨typeToken vd.ty, _, by rw [Stmt.tokens]; rfl, rfl, h.rBrace, h.eof⟩
  | expr e =>
    obtain ⟨k, ks, heq, hk⟩ := Expr.Fits.head (by rw [Stmt.Printable] at hs; exact hs)
    have h := startsSimple (Or.inl hk)
    refine ⟨k, ks ++ [.semicolon], by rw [Stmt.tokens, heq]; rfl, ?_, h.rBrace, h.eof⟩
    cases k <;> first | rfl | cases hk
  | if_ cond then_ else_ => exact ⟨.keyword .if_, _, by rw [Stmt.tokens]; rfl, rfl, nofun, nofun⟩
  | for_ init cond update body => exact ⟨.keyword .for_, _, by rw [Stmt.tokens]; rfl, rfl, nofun, nofun⟩
  | block b => exact ⟨.lBrace, _, by rw [Stmt.tokens]; rfl, rfl, nofun, nofun⟩

theorem blockTokens_head (hl : Printables l) (hk : k = .rBrace ∨ k = .eof) (ks : List TokenKind) :
    ∃ k' ks', blockTokens l ++ k :: ks = k' :: ks' ∧ k'.isKeyword = startsKeyword l := by
  cases l with
  | nil => exact ⟨k, ks, rfl, by rcases hk with rfl | rfl <;> rfl⟩
  | cons s l =>
    rw [Printables] at hl
    obtain ⟨k', ks', heq, hkey, -, -⟩ := Stmt.tokens_head hl.1
    refine ⟨k', ks' ++ (blockTokens l ++ k :: ks), ?_, hkey⟩
    rw [blockTokens, heq, List.append_assoc]
    rfl

theorem blockReadsBack_nil : BlockReadsBack names [] := by
  intro fuel p acc k ks hp hk
  cases fuel with
  | zero => exact .outOfFuel
  | succ fuel =>
    unfold parseStmts
    refine Exactly.bind_only (only_peek hp) ?_
    rintro p' rfl
    rw [if_pos hk, List.append_nil]
    exact (Exactly.of_only (.pure hp)).congr ⟨fun _ => by rw [BlockKept]; trivial, fun _ => trivial⟩

theorem blockReadsBack_cons (hp : Printables (s :: l)) (hs : s.ReadsBack names)
    (hl : BlockReadsBack names l) : BlockReadsBack names (s :: l) := by
  intro fuel p acc k ks hsees hk
  rw [Printables] at hp
  cases fuel with
  | zero => exact .outOfFuel
  | succ fuel =>
    rw [blockTokens, List.append_assoc] at hsees
    obtain ⟨k₁, ks₁, heq₁, -, hbrace, heof⟩ := Stmt.tokens_head hp.1
    obtain ⟨k₂, ks₂, heq₂, hkey₂⟩ := blockTokens_head hp.2 hk ks
    have hpeek := hsees
    rw [heq₁] at hpeek
    unfold parseStmts
    refine Exactly.bind_only (only_peek hpeek) ?_
    rintro p' rfl
    rw [if_neg (not_or.2 ⟨hbrace, heof⟩)]
    rw [heq₂] at hsees
    refine (Exactly.bind (hs fuel p' k₂ ks₂ hsees) (H := BlockKept names l) ?_ ?_).congr ?_
    · intro _ p₁ h1
      rw [← heq₂] at h1
      have := hl fuel p₁ (acc ++ [s]) k ks h1 hk
      rwa [List.append_assoc, List.singleton_append] at this
    · intro s' p₁ hne
      refine (partial_parseStmts fuel p₁ (acc ++ [s'])).mono ?_
      intro r _ hr heq
      subst heq
      rw [List.prefix_append_right_inj] at hr
      exact hne (List.cons_prefix_cons.1 hr).1
    · rw [BlockKept, hkey₂]
      exact and_assoc

mutual

theorem Stmt.readsBack (names : List String) : ∀ s : Stmt, s.Printable → s.ReadsBack names
  | .return_ e, hs => readsBack_return e (by rw [Stmt.Printable] at hs; exact hs)
  | .varDecl vd, hs =>
      readsBack_simple (s := .varDecl vd) (by rw [Stmt.Printable] at hs; exact hs)
        (by rw [Stmt.tokens]; rfl) (by rw [Stmt.Kept]; rfl) rfl
  | .expr e, hs =>
      readsBack_simple (s := .expr e) (by rw [Stmt.Printable] at hs; exact hs)
        (by rw [Stmt.tokens]; rfl) (by rw [Stmt.Kept]; rfl) rfl
  | .if_ cond then_ else_, hs => by
      rw [Stmt.Printable] at hs
      exact readsBack_if hs.1 (blockReadsBack names then_ hs.2.1)
        (elseReadsBack names else_ hs.2.2)
  | .for_ init cond update body, hs => by
      rw [Stmt.Printable] at hs
      exact readsBack_for hs.1 hs.2.1 hs.2.2.1 (blockReadsBack names body hs.2.2.2)
  | .block b, hs => by
      rw [Stmt.Printable] at hs
      exact readsBack_block (blockReadsBack names b hs)

theorem blockReadsBack (names : List String) :
    ∀ l : List Stmt, Printables l → BlockReadsBack names l
  | [], _ => blockReadsBack_nil
  | s :: l, hl => by
      have h := hl
      rw [Printables] at h
      exact blockReadsBack_cons hl (s.readsBack names h.1) (blockReadsBack names l h.2)

theorem elseReadsBack (names : List String) :
    ∀ e : Option (List Stmt), ElsePrintable e → ∀ b ∈ e, BlockReadsBack names b
  | none, _ => fun _ h => nomatch h
  | some b, he => by
      intro b' hb'
      cases hb'
      rw [ElsePrintable] at he
      exact blockReadsBack names b he

end

/-- Parsing the canonical tokens of a statement list, up to the brace or the end of file after it,
    gives the list back exactly when it is kept. -/
theorem parse_print {p : Parser} {l : List Stmt} {k : TokenKind} {ks : List TokenKind}
    (hwf : p.Wf) (hl : Printables l)
    (hp : (p.toks.drop p.idx).map Token.kind = blockTokens l ++ k :: ks)
    (hk : k = .rBrace ∨ k = .eof) :
    (∃ p', parseBlockBody p = .ok (l, p')) ↔ BlockKept p.structNames l := by
  have h : Exactly parseBlockBody p l (Sees p.structNames (k :: ks)) (BlockKept p.structNames l) := by
    refine Exactly.bind_only (a := p) (Q := (· = p)) (.of_eq rfl rfl) ?_
    rintro p' rfl
    exact blockReadsBack p'.structNames l hl p'.fuel p' [] k ks ⟨rfl, hp⟩ hk
  constructor
  · rintro ⟨p', hok⟩
    exact h.back l p' hok rfl
  · intro hkept
    obtain ⟨p', hok, -⟩ := (h.only hkept).eq (meets_parseBlockBody hwf)
    exact ⟨p', hok⟩

/-- A parser at the start of the canonical tokens of `l`, at the end of the file. -/
def canonical (l : List Stmt) : Parser :=
  ⟨(blockTokens l ++ [TokenKind.eof]).map fun k => ⟨k, ⟨0, 0⟩⟩, 0, []⟩

/-- `if (a) { } b;` -/
def ifExpr : List Stmt := [.if_ (.ident "a") [] none, .expr (.ident "b")]

theorem parse_print_ifExpr :
    (∃ p', parseBlockBody (canonical ifExpr) = .ok (ifExpr, p')) ↔ BlockKept [] ifExpr := by
  refine @parse_print (canonical ifExpr) ifExpr .eof [] ⟨by decide, ?_⟩ ?_ (by decide)
    (Or.inr rfl)
  · intro t ht
    cases ht
    rfl
  · simp only [ifExpr, Printables, Stmt.Printable, ElsePrintable, and_true]
    exact ⟨.ident 0 "a", .ident 0 "b"⟩

/-- `if (a) { } return b;` -/
def ifReturn : List Stmt := [.if_ (.ident "a") [] none, .return_ (some (.ident "b"))]

/-- The keyword is taken for an `else`, and what follows it for the statement of the `else`. -/
theorem ifReturn_misread :
    (canonical ifReturn).Wf ∧ Printables ifReturn ∧
      ((canonical ifReturn).toks.drop (canonical ifReturn).idx).map Token.kind =
        blockTokens ifReturn ++ [.eof] ∧
      ∀ p', parseBlockBody (canonical ifReturn) ≠ .ok (ifReturn, p') := by
  refine ⟨⟨by decide, ?_⟩, ?_, by decide, ?_⟩
  · intro t ht
    cases ht
    rfl
  · simp only [ifReturn, Printables, Stmt.Printable, ElsePrintable, and_true]
    refine ⟨.ident 0 "a", ?_⟩
    intro x hx
    cases hx
    exact .ident 0 "b"
  · have hread : parseBlockBody (canonical ifReturn) =
        .ok ([.if_ (.ident "a") [] (some [.expr (.ident "b")])],
          { canonical ifReturn with idx := 9 }) := by rfl
    intro p' h
    rw [hread] at h
    cases h

end WinCompat.Hlsl
