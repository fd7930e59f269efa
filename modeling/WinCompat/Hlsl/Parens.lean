import WinCompat.Hlsl.RoundTrip

/-!
# Expressions with their parentheses

The tokens of any expression that the parser can produce, with parentheses exactly where an operand
binds less tightly than its place asks for (`Expr.print`). How a type is spelled is left open: a
`Spelling` has a word for constructors and a token for casts.

`Expr.size` counts the tokens of an expression other than parentheses and commas. No parser function
returns more than it has consumed (`weighsAt`), and one that throws a token away returns less.
-/

namespace WinCompat.Hlsl

open Lib Lib.Comp

/-! ## Printing -/

/-- How types are written: in a constructor and in a cast. -/
structure Spelling where
  word : Ty → String
  token : Ty → TokenKind

/-- The precedence of an expression: `parse_postfix` reads 11, `parse_unary` reads 10. -/
def Expr.prec : Expr → Nat
  | .binary op _ _ => op.prec
  | .unary _ _ | .cast _ _ => 10
  | _ => 11

/-- The tokens `ts`, in parentheses if `paren` says so. -/
def group (paren : Prop) [Decidable paren] (ts : List TokenKind) : List TokenKind :=
  if paren then .lParen :: ts ++ [.rParen] else ts

/-- The precedences that the operands of an operator are read at. -/
def BinaryOp.lhsPrec (op : BinaryOp) : Nat := if op.prec = 0 then 1 else op.prec

def BinaryOp.rhsPrec (op : BinaryOp) : Nat := if op.prec = 0 then 0 else op.prec + 1

mutual

/-- The tokens of an expression, without parentheses around it. -/
def Expr.print (sp : Spelling) : Expr → List TokenKind
  | .literal l => [l.token]
  | .ident s => [.ident s]
  | .construct ty args => .ident (sp.word ty) :: .lParen :: printArgs sp args ++ [.rParen]
  | .call s args => .ident s :: .lParen :: printArgs sp args ++ [.rParen]
  | .methodCall base m args =>
      group (base.prec < 11) (base.print sp) ++ .dot :: .ident m :: .lParen :: printArgs sp args
        ++ [.rParen]
  | .member base m => group (base.prec < 11) (base.print sp) ++ [.dot, .ident m]
  | .binary op lhs rhs =>
      group (lhs.prec < op.lhsPrec) (lhs.print sp) ++
        op.token :: group (rhs.prec < op.rhsPrec) (rhs.print sp)
  | .unary op e => op.token :: group (e.prec < 10) (e.print sp)
  | .cast ty e => .lParen :: sp.token ty :: .rParen :: group (e.prec < 10) (e.print sp)

def printArgs (sp : Spelling) : List Expr → List TokenKind
  | [] => []
  | e :: es => e.print sp ++ printRest sp es

/-- The arguments after the first, each with its comma. -/
def printRest (sp : Spelling) : List Expr → List TokenKind
  | [] => []
  | e :: es => .comma :: e.print sp ++ printRest sp es

end

mutual

/-- The parser can produce the expression, from types spelled like this: the names are those of
    structs that have been declared. -/
def Expr.Producible (names : List String) (sp : Spelling) : Expr → Prop
  | .literal _ | .ident _ => True
  | .construct ty args => decodeTypeWord (sp.word ty) = some ty ∧ AllProducible names sp args
  | .call s args => decodeTypeWord s = none ∧ AllProducible names sp args
  | .methodCall base _ args => base.Producible names sp ∧ AllProducible names sp args
  | .member base _ => base.Producible names sp
  | .binary op lhs rhs =>
      (op ≠ .bitAnd ∧ op ≠ .bitOr ∧ op ≠ .bitXor) ∧ lhs.Producible names sp ∧
        rhs.Producible names sp
  | .unary _ e => e.Producible names sp
  | .cast ty e => readType names (sp.token ty) = some ty ∧ e.Producible names sp

def AllProducible (names : List String) (sp : Spelling) : List Expr → Prop
  | [] => True
  | e :: es => e.Producible names sp ∧ AllProducible names sp es

end

/-! ## The condition -/

/-- The first token is taken for a type: a type word, or the name of a struct. -/
def StartsType (names : List String) (ts : List TokenKind) : Prop :=
  ∃ k ∈ ts.head?, (readType names k).isSome = true

mutual

/-- No pair of parentheses in the printed expression is followed by a type. -/
def Expr.Clear (names : List String) (sp : Spelling) : Expr → Prop
  | .literal _ | .ident _ => True
  | .construct _ args | .call _ args => AllClear names sp args
  | .methodCall base _ args =>
      (base.prec < 11 → ¬ StartsType names (base.print sp)) ∧ base.Clear names sp ∧
        AllClear names sp args
  | .member base _ =>
      (base.prec < 11 → ¬ StartsType names (base.print sp)) ∧ base.Clear names sp
  | .binary op lhs rhs =>
      ((lhs.prec < op.lhsPrec → ¬ StartsType names (lhs.print sp)) ∧ lhs.Clear names sp) ∧
        (rhs.prec < op.rhsPrec → ¬ StartsType names (rhs.print sp)) ∧ rhs.Clear names sp
  | .unary _ e | .cast _ e =>
      (e.prec < 10 → ¬ StartsType names (e.print sp)) ∧ e.Clear names sp

def AllClear (names : List String) (sp : Spelling) : List Expr → Prop
  | [] => True
  | e :: es => e.Clear names sp ∧ AllClear names sp es

end

/-! ## Sizes -/

/-- Parentheses, commas and the end of the file do not count. -/
def TokenKind.weight : TokenKind → Nat
  | .lParen | .rParen | .comma | .eof => 0
  | _ => 1

def weight (ts : List TokenKind) : Nat := (ts.map TokenKind.weight).sum

@[simp] theorem weight_nil : weight [] = 0 := rfl

@[simp] theorem weight_cons (k : TokenKind) (ks : List TokenKind) :
    weight (k :: ks) = k.weight + weight ks := by
  simp [weight]

@[simp] theorem weight_append (ks ks' : List TokenKind) :
    weight (ks ++ ks') = weight ks + weight ks' := by
  simp [weight]

@[simp] theorem weight_group (paren : Prop) [Decidable paren] (ts : List TokenKind) :
    weight (group paren ts) = weight ts := by
  unfold group
  split <;> simp [TokenKind.weight]

mutual

def Expr.size : Expr → Nat
  | .literal _ | .ident _ => 1
  | .construct _ args | .call _ args => 1 + sizes args
  | .methodCall base _ args => base.size + 2 + sizes args
  | .member base _ => base.size + 2
  | .binary _ lhs rhs => lhs.size + 1 + rhs.size
  | .unary _ e | .cast _ e => 1 + e.size

def sizes : List Expr → Nat
  | [] => 0
  | e :: es => e.size + sizes es

end

@[simp] theorem sizes_append (es es' : List Expr) : sizes (es ++ es') = sizes es + sizes es' := by
  induction es with
  | nil => simp [sizes]
  | cons e es ih => simp [sizes, ih, Nat.add_assoc]

theorem Literal.token_weight (l : Literal) : l.token.weight = 1 := by
  cases l <;> rfl

theorem BinaryOp.token_weight (op : BinaryOp) : op.token.weight = 1 := by
  cases op <;> rfl

theorem UnaryOp.token_weight (op : UnaryOp) : op.token.weight = 1 := by
  cases op <;> rfl

variable {names : List String} {k : TokenKind}

theorem weight_of_readType (h : (readType names k).isSome = true) : k.weight = 1 := by
  cases k <;> first | rfl | cases h

mutual

variable {sp : Spelling}

theorem weight_print :
    ∀ e : Expr, e.Producible names sp → weight (e.print sp) = e.size
  | .literal l, _ => by simp [Expr.print, Expr.size, l.token_weight]
  | .ident s, _ => rfl
  | .construct ty args, h => by
      simp [Expr.print, Expr.size, TokenKind.weight, weight_printArgs args h.2]
  | .call s args, h => by
      simp [Expr.print, Expr.size, TokenKind.weight, weight_printArgs args h.2]
  | .methodCall base m args, h => by
      simp only [Expr.print, Expr.size, weight_append, weight_group, weight_cons, weight_nil,
        TokenKind.weight, weight_print base h.1, weight_printArgs args h.2]
      omega
  | .member base m, h => by
      simp [Expr.print, Expr.size, TokenKind.weight, weight_print base h]
  | .binary op lhs rhs, h => by
      simp [Expr.print, Expr.size, op.token_weight, weight_print lhs h.2.1,
        weight_print rhs h.2.2, Nat.add_assoc]
  | .unary op e, h => by
      simp [Expr.print, Expr.size, op.token_weight, weight_print e h]
  | .cast ty e, h => by
      have hty : (sp.token ty).weight = 1 := weight_of_readType (by rw [h.1]; rfl)
      have hparens : TokenKind.lParen.weight = 0 ∧ TokenKind.rParen.weight = 0 := ⟨rfl, rfl⟩
      simp [Expr.print, Expr.size, hparens, hty, weight_print e h.2]

theorem weight_printArgs :
    ∀ es : List Expr, AllProducible names sp es → weight (printArgs sp es) = sizes es
  | [], _ => rfl
  | e :: es, h => by
      simp [printArgs, sizes, weight_print e h.1, weight_printRest es h.2]

theorem weight_printRest :
    ∀ es : List Expr, AllProducible names sp es → weight (printRest sp es) = sizes es
  | [], _ => rfl
  | e :: es, h => by
      simp [printRest, sizes, TokenKind.weight, weight_print e h.1, weight_printRest es h.2]

end

/-! ## What a parser function can return -/

/-- The weight of the tokens from the cursor on. -/
def left (p : Parser) : Nat := weight ((p.toks.drop p.idx).map Token.kind)

theorem Sees.left {ks : List TokenKind} {p : Parser} (h : Sees names ks p) :
    left p = weight ks := congrArg weight h.kinds

/-- What `x` returns and what is then left weigh at most `n`. -/
def Within {α : Type} (x : P α) (size : α → Nat) (n : Nat) (p : Parser) : Prop :=
  Partial x p fun a p' => size a + left p' ≤ n

section

variable {α : Type} {p : Parser}

theorem peek_sees {p' : Parser} (h : peek p = .ok (k, p')) :
    p' = p ∧ ∃ ks, Sees p.structNames (k :: ks) p := by
  obtain ⟨q, p₁, h1, h⟩ := bind_eq_ok h
  cases h1
  obtain ⟨t, p₂, h2, h⟩ := bind_eq_ok h
  cases h
  unfold tokenAt at h2
  cases ht : p.toks[p.idx]? with
  | none =>
    rw [ht] at h2
    cases h2
  | some t' =>
    rw [ht] at h2
    cases h2
    obtain ⟨hlt, rfl⟩ := List.getElem?_eq_some_iff.mp ht
    refine ⟨rfl, (p.toks.drop (p.idx + 1)).map Token.kind, rfl, ?_⟩
    rw [List.drop_eq_getElem_cons hlt, List.map_cons]

theorem partial_peek : Partial peek p fun _ p' => p' = p :=
  fun _ _ h => (peek_sees h).1

theorem partial_bump : Partial bump p fun k p' => left p' + k.weight = left p := by
  intro k p' hok
  obtain ⟨k₁, p₁, h1, h⟩ := bind_eq_ok hok
  obtain ⟨rfl, ks, hs⟩ := peek_sees h1
  by_cases hk : k₁ = .eof
  · simp only [if_pos hk] at h
    cases h
    rw [hk]
    rfl
  · simp only [if_neg hk] at h
    obtain ⟨_, p₂, h2, h⟩ := bind_eq_ok h
    cases h2
    cases h
    rw [hs.left, hs.next.left, weight_cons, Nat.add_comm]

theorem partial_eat (want : TokenKind) : Partial (eat want) p fun _ p' => left p' ≤ left p := by
  refine Partial.bind partial_peek fun k p₁ h => ?_
  subst h
  split
  · exact Partial.bind partial_bump fun _ _ h => .pure (by omega)
  · exact .pure (Nat.le_refl _)

theorem partial_expect (want : TokenKind) (what : String) :
    Partial (expect want what) p fun _ p' => left p' ≤ left p := by
  refine Partial.bind partial_peek fun k p₁ h => ?_
  subst h
  split
  · exact Partial.bind partial_bump fun _ _ h => .pure (by omega)
  · exact Partial.bind_any fun _ _ => Partial.bind_any fun _ _ => .throw

theorem partial_errBefore {Q : α → Parser → Prop} (msg : List Piece) :
    Partial (errBefore msg : P α) p Q :=
  Partial.bind_any fun _ _ => Partial.bind_any fun _ _ => .throw

theorem partial_unexpected {Q : α → Parser → Prop} (what : List Piece) :
    Partial (unexpected what : P α) p Q :=
  Partial.bind_any fun _ _ => Partial.bind_any fun _ _ => .throw

theorem partial_expectIdent (what : String) :
    Partial (expectIdent what) p fun _ p' => left p' + 1 ≤ left p := by
  refine Partial.bind partial_bump fun k p₁ h => ?_
  cases k with
  | ident s => exact .pure (Nat.le_of_eq h)
  | _ => exact partial_errBefore _

theorem partial_skipUntil (stop : TokenKind) (fuel : Nat) :
    Partial (skipUntil stop fuel) p fun _ p' => left p' ≤ left p := by
  induction fuel generalizing p with
  | zero => exact .outOfFuel
  | succ fuel ih =>
    refine Partial.bind partial_peek fun k p₁ h => ?_
    subst h
    split
    · exact Partial.bind partial_bump fun _ _ h => .pure (by omega)
    · split
      · exact .pure (Nat.le_refl _)
      · exact Partial.bind partial_bump fun _ _ h => ih.mono fun _ _ h' => by omega

/-- A type is read from at least one token. -/
theorem partial_parseType (fuel : Nat) :
    Partial (parseType fuel) p fun _ p' => left p' + 1 ≤ left p := by
  refine Partial.bind partial_bump fun k p₁ h => ?_
  cases k with
  | keyword w =>
    have h : left p₁ + 1 = left p := h
    cases w with
    | texture2D =>
      refine (partial_eat .lt).bind fun b p₂ h2 => ?_
      cases b with
      | false => exact .pure (by omega)
      | true => exact (partial_skipUntil .gt fuel).bind fun _ _ h3 => .pure (by omega)
    | void | float | int | uint | bool | samplerState => exact .pure (Nat.le_of_eq h)
    | _ => exact partial_errBefore _
  | ident s =>
    have h : left p₁ + 1 = left p := h
    dsimp only
    cases decodeTypeWord s with
    | some ty => exact .pure (Nat.le_of_eq h)
    | none =>
      intro ty p' hok
      obtain ⟨q, p₂, hq, hok⟩ := bind_eq_ok hok
      cases hq
      by_cases hs : s ∈ p₁.structNames
      · rw [if_pos hs] at hok
        cases hok
        exact Nat.le_of_eq h
      · rw [if_neg hs] at hok
        exact absurd hok (fun hok => @partial_errBefore Ty p₁ (fun _ _ => False) _ ty p' hok)
  | _ => exact partial_errBefore _

theorem partial_typeTokenLen : Partial typeTokenLen p fun _ p' => p' = p := by
  intro n p' hok
  obtain ⟨q, p₁, h1, hok⟩ := bind_eq_ok hok
  cases h1
  obtain ⟨k, p₂, h2, hok⟩ := bind_eq_ok hok
  obtain rfl := partial_peek _ _ h2
  cases k with
  | keyword w => cases w <;> cases hok <;> rfl
  | _ =>
    cases hok
    rfl

theorem partial_peekIsType : Partial peekIsType p fun _ p' => p' = p :=
  partial_typeTokenLen.bind fun _ _ h => .pure h

end

/-- With this much fuel, no function of the expression parser returns more than it has consumed, and
    what it was given. -/
structure WeighsAt (fuel : Nat) : Prop where
  assign : ∀ p, Within (parseAssign fuel) Expr.size (left p) p
  binary : ∀ p level, Within (parseBinary fuel level) Expr.size (left p) p
  loop : ∀ p level lhs, Within (binaryLoop fuel level lhs) Expr.size (lhs.size + left p) p
  operand : ∀ p o, Within (parseOperand fuel o) Expr.size (left p) p
  unary : ∀ p, Within (parseUnary fuel) Expr.size (left p) p
  suffix : ∀ p e, Within (postfixLoop fuel e) Expr.size (e.size + left p) p
  primary : ∀ p, Within (parsePrimary fuel) Expr.size (left p) p
  paren : ∀ p, Within (parseParen fuel) Expr.size (left p) p
  args : ∀ p, Within (parseArgs fuel) sizes (left p) p
  argsLoop : ∀ p es, Within (argsLoop fuel es) sizes (sizes es + left p) p

section

variable {fuel : Nat}

theorem Within.mono {α : Type} {x : P α} {size : α → Nat} {n m : Nat} {p : Parser}
    (h : Within x size n p) (hle : n ≤ m) : Within x size m p :=
  Partial.mono h fun _ _ h => Nat.le_trans h hle

theorem assignOp_weight {op : BinaryOp} (h : assignOp k = some op) : k.weight = 1 := by
  cases k <;> first | rfl | cases h

theorem Level.op_weight {level : Level} {op : BinaryOp} (h : level.op k = some op) :
    k.weight = 1 := by
  cases level <;> cases k <;> first | rfl | cases h

theorem unaryOp_weight {op : UnaryOp} (h : unaryOp k = some op) : k.weight = 1 := by
  cases k <;> first | rfl | cases h

theorem partial_peek_bump {α : Type} {f : TokenKind → P α} {p : Parser} {Q : α → Parser → Prop}
    (hf : ∀ k p₁, peek p = .ok (k, p) → p₁ = p → Partial (f k) p₁ Q) :
    Partial (peek >>= f) p Q := by
  refine Partial.bind (Q := fun k p' => p' = p ∧ peek p = .ok (k, p)) ?_ ?_
  · intro k p' h
    obtain rfl := partial_peek _ _ h
    exact ⟨rfl, h⟩
  · rintro k p' ⟨rfl, h⟩
    exact hf k p' h rfl

theorem partial_bump_seen {p : Parser} (h : peek p = .ok (k, p)) :
    Partial bump p fun _ p' => left p' + k.weight = left p := by
  intro k' p' hok
  have hweight := partial_bump _ _ hok
  obtain ⟨k₁, p₁, h1, hok⟩ := bind_eq_ok hok
  rw [h] at h1
  cases h1
  split at hok
  · cases hok
    exact hweight
  · obtain ⟨_, p₂, h2, hok⟩ := bind_eq_ok hok
    cases hok
    exact hweight

theorem WeighsAt.assign_succ (ih : WeighsAt fuel) (p : Parser) :
    Within (parseAssign (fuel + 1)) Expr.size (left p) p := by
  unfold Within parseAssign
  refine .bind (ih.binary p .or) fun lhs p₁ hl => ?_
  refine partial_peek_bump fun k p₂ hk h2 => ?_
  subst h2
  split
  · next op hop =>
    have hw := assignOp_weight hop
    refine (partial_bump_seen hk).bind fun _ p₃ h3 => ?_
    refine .bind (ih.assign p₃) fun rhs p₄ hr => .pure ?_
    simp only [Expr.size]
    omega
  · exact .pure hl

theorem WeighsAt.loop_succ (ih : WeighsAt fuel) (p : Parser) (level : Level) (lhs : Expr) :
    Within (binaryLoop (fuel + 1) level lhs) Expr.size (lhs.size + left p) p := by
  unfold Within binaryLoop
  refine partial_peek_bump fun k p₁ hk h1 => ?_
  subst h1
  split
  · next op hop =>
    have hw := Level.op_weight hop
    refine (partial_bump_seen hk).bind fun _ p₂ h2 => ?_
    refine .bind (ih.operand p₂ level.operand) fun rhs p₃ hr => ?_
    refine (ih.loop p₃ level _).mono ?_
    simp only [Expr.size]
    omega
  · exact .pure (Nat.le_refl _)

theorem WeighsAt.unary_succ (ih : WeighsAt fuel) (p : Parser) :
    Within (parseUnary (fuel + 1)) Expr.size (left p) p := by
  unfold Within parseUnary
  refine partial_peek_bump fun k p₁ hk h1 => ?_
  subst h1
  split
  · next op hop =>
    have hw := unaryOp_weight hop
    refine (partial_bump_seen hk).bind fun _ p₂ h2 => ?_
    refine .bind (ih.unary p₂) fun e p₃ he => .pure ?_
    simp only [Expr.size]
    omega
  · exact .bind (ih.primary p₁) fun e p₂ he => (ih.suffix p₂ e).mono he

theorem WeighsAt.suffix_succ (ih : WeighsAt fuel) (p : Parser) (e : Expr) :
    Within (postfixLoop (fuel + 1) e) Expr.size (e.size + left p) p := by
  unfold Within postfixLoop
  refine partial_peek_bump fun k p₁ hk h1 => ?_
  subst h1
  split
  · next hdot =>
    subst hdot
    refine (partial_bump_seen hk).bind fun _ p₂ h2 => ?_
    have h2 : left p₂ + 1 = left p₁ := h2
    refine (partial_expectIdent _).bind fun member p₃ h3 => ?_
    refine (partial_eat _).bind fun b p₄ h4 => ?_
    cases b with
    | true =>
      refine .bind (ih.args p₄) fun as p₅ has => ?_
      refine (partial_expect _ _).bind fun _ p₆ h6 => ?_
      refine (ih.suffix p₆ _).mono ?_
      simp only [Expr.size]
      omega
    | false =>
      refine (ih.suffix p₄ _).mono ?_
      simp only [Expr.size]
      omega
  · exact .pure (Nat.le_refl _)

theorem WeighsAt.primary_paren (ih : WeighsAt fuel) (p : Parser) :
    Within (do
      if ← peekIsType then do
        let ty ← parseType fuel
        if ← eat .rParen then do
          let inner ← parseUnary fuel
          pure (.cast ty inner)
        else parseParen fuel
      else parseParen fuel) Expr.size (left p) p := by
  refine partial_peekIsType.bind fun b p₁ h1 => ?_
  subst h1
  cases b with
  | false => exact ih.paren p₁
  | true =>
    refine (partial_parseType fuel).bind fun ty p₂ h2 => ?_
    refine (partial_eat _).bind fun b p₃ h3 => ?_
    cases b with
    | false => exact (ih.paren p₃).mono (by omega)
    | true =>
      refine .bind (ih.unary p₃) fun e p₄ he => .pure ?_
      simp only [Expr.size]
      omega

theorem WeighsAt.primary_succ (ih : WeighsAt fuel) (p : Parser) :
    Within (parsePrimary (fuel + 1)) Expr.size (left p) p := by
  show Partial (peek >>= _) p _
  refine partial_peek_bump fun k p₁ hk h1 => ?_
  subst h1
  cases k with
  | intLiteral _ | uintLiteral _ | floatLiteral _ | boolLiteral _ =>
    refine (partial_bump_seen hk).bind fun _ p₂ h2 => .pure ?_
    have h2 : left p₂ + 1 = left p₁ := h2
    simp only [Expr.size]
    omega
  | lParen =>
    refine (partial_bump_seen hk).bind fun _ p₂ h2 => ?_
    exact (ih.primary_paren p₂).mono (Nat.le_of_eq h2)
  | ident s =>
    refine (partial_bump_seen hk).bind fun _ p₂ h2 => ?_
    have h2 : left p₂ + 1 = left p₁ := h2
    refine (partial_eat _).bind fun b p₃ h3 => ?_
    cases b with
    | false =>
      refine .pure ?_
      simp only [Expr.size]
      omega
    | true =>
      refine .bind (ih.args p₃) fun as p₄ has => ?_
      refine (partial_expect _ _).bind fun _ p₅ h5 => ?_
      split
      · refine .pure ?_
        simp only [Expr.size]
        omega
      · refine .pure ?_
        simp only [Expr.size]
        omega
  | _ => exact partial_unexpected _

theorem WeighsAt.argsLoop_succ (ih : WeighsAt fuel) (p : Parser) (es : List Expr) :
    Within (WinCompat.Hlsl.argsLoop (fuel + 1) es) sizes (sizes es + left p) p := by
  unfold Within WinCompat.Hlsl.argsLoop
  refine .bind (ih.assign p) fun e p₁ he => ?_
  have hsize : sizes (es ++ [e]) = sizes es + e.size := by simp [sizes]
  refine (partial_eat _).bind fun b p₂ h2 => ?_
  cases b with
  | true => exact (ih.argsLoop p₂ _).mono (by omega)
  | false => exact .pure (by omega)

theorem weighsAt (fuel : Nat) : WeighsAt fuel := by
  induction fuel with
  | zero =>
    exact ⟨fun _ => .outOfFuel, fun _ _ => .outOfFuel, fun _ _ _ => .outOfFuel,
      fun _ _ => .outOfFuel, fun _ => .outOfFuel, fun _ _ => .outOfFuel, fun _ => .outOfFuel,
      fun _ => .outOfFuel, fun _ => .outOfFuel, fun _ _ => .outOfFuel⟩
  | succ fuel ih =>
    refine ⟨ih.assign_succ, ?_, ih.loop_succ, ?_, ih.unary_succ, ih.suffix_succ, ih.primary_succ,
      ?_, ?_, ih.argsLoop_succ⟩
    · intro p level
      exact .bind (ih.operand p level.operand) fun e p₁ he => (ih.loop p₁ level e).mono he
    · intro p o
      cases o with
      | some level => exact ih.binary p level
      | none => exact ih.unary p
    · intro p
      refine .bind (ih.assign p) fun e p₁ he => (partial_expect _ _).bind fun _ p₂ h2 => .pure ?_
      exact Nat.le_trans (Nat.add_le_add_left h2 _) he
    · intro p
      refine partial_peek_bump fun k p₁ hk h1 => ?_
      subst h1
      split
      · exact .pure (by simp [sizes])
      · exact (ih.argsLoop p₁ []).mono (by simp [sizes])

end

end WinCompat.Hlsl
