import WinCompat.Hlsl.Token
import WinCompat.Lib.Comp

/-!
# The parser

`hlsl-compiler/src/parser.rs`. The parser state is the token array, the index of the next token and
the struct names seen so far; indexing past the end of the array is a crash. Recursion is by fuel.
`Parser.fuel` is what the entry points start with.

The five precedence levels of left-associative operators, from `||` to `*`, are one definition over
`Level`, as their source is one loop five times over.
-/

namespace WinCompat.Hlsl

open Lib

/-- A message is text with described tokens in it: `TokenKind::describe` prints a token for a
    reader. -/
inductive Piece
  | text (s : String)
  | described (k : TokenKind)
  deriving DecidableEq

structure ParseError where
  span : Span
  msg : List Piece
  deriving DecidableEq

structure Parser where
  toks : List Token
  idx : Nat
  structNames : List String

abbrev P := Comp Parser ParseError

/-! ## Token helpers -/

def tokenAt (i : Nat) : P Token := fun p =>
  match p.toks[i]? with
  | some t => .ok (t, p)
  | none => .panic

def peek : P TokenKind := do
  let p ← Comp.get
  let t ← tokenAt p.idx
  pure t.kind

def spanHere : P Span := do
  let p ← Comp.get
  let t ← tokenAt p.idx
  pure t.span

def advance : P Unit := Comp.modify fun p => { p with idx := p.idx + 1 }

def bump : P TokenKind := do
  let k ← peek
  if k = .eof then pure k
  else do
    advance
    pure k

def eat (want : TokenKind) : P Bool := do
  let k ← peek
  if k.discriminant = want.discriminant then do
    let _ ← bump
    pure true
  else pure false

def unexpected {α : Type} (what : List Piece) : P α := do
  let span ← spanHere
  let got ← peek
  Comp.throw ⟨span, .text "expected " :: what ++ [.text ", got ", .described got]⟩

def expect (want : TokenKind) (what : String) : P Unit := do
  let k ← peek
  if k.discriminant = want.discriminant then do
    let _ ← bump
    pure ()
  else unexpected [.text what]

/-- An error at the token before the cursor, `self.toks[self.idx.saturating_sub(1)].span`. -/
def errBefore {α : Type} (msg : List Piece) : P α := do
  let p ← Comp.get
  let t ← tokenAt (p.idx - 1)
  Comp.throw ⟨t.span, msg⟩

def expectIdent (what : String) : P String := do
  match ← bump with
  | .ident s => pure s
  | other => errBefore [.text s!"expected {what}, got ", .described other]

/-- Consume tokens up to `stop` or the end, and `stop` itself: `skip_until_rparen`,
    `skip_until_gt`. -/
def skipUntil (stop : TokenKind) : Nat → P Unit
  | 0 => Comp.outOfFuel
  | fuel + 1 => do
      let k ← peek
      if k = stop then do
        let _ ← bump
        pure ()
      else if k = .eof then pure ()
      else do
        let _ ← bump
        skipUntil stop fuel

/-! ## Types -/

def parseType (fuel : Nat) : P Ty := do
  match ← bump with
  | .keyword .void => pure .void
  | .keyword .float => pure (.scalar .float)
  | .keyword .int => pure (.scalar .int)
  | .keyword .uint => pure (.scalar .uint)
  | .keyword .bool => pure (.scalar .bool)
  | .keyword .samplerState => pure .samplerState
  | .keyword .texture2D => do
      if ← eat .lt then skipUntil .gt fuel
      pure .texture2D
  | .ident s =>
      match decodeTypeWord s with
      | some ty => pure ty
      | none => do
          let p ← Comp.get
          if s ∈ p.structNames then pure (.struct s)
          else errBefore [.text s!"unknown type `{s}`"]
  | other => errBefore [.text "expected type, got ", .described other]

/-- `type_token_len`. -/
def typeTokenLen : P Nat := do
  let p ← Comp.get
  match ← peek with
  | .keyword .void | .keyword .float | .keyword .int | .keyword .uint | .keyword .bool
  | .keyword .samplerState | .keyword .texture2D => pure 1
  | .ident s => pure (if isTypeWord s = true ∨ s ∈ p.structNames then 1 else 0)
  | _ => pure 0

def peekIsType : P Bool := do
  let n ← typeTokenLen
  pure (decide (0 < n))

def looksLikeVarDecl : P Bool := do
  if ← peekIsType then do
    let j ← typeTokenLen
    let p ← Comp.get
    let t ← tokenAt (p.idx + j)
    match t.kind with
    | .ident _ => pure true
    | _ => pure false
  else pure false

def parseOptionalSemantic : P (Option String) := do
  if ← eat .colon then
    match ← bump with
    | .semantic s => pure (some s)
    | .ident s => pure (some s)
    | _ => pure none
  else pure none

/-! ## Expressions -/

/-- The left-associative levels of the precedence ladder, loosest first. -/
inductive Level
  | or
  | and
  | equality
  | rel
  | add
  | mul
  deriving DecidableEq

/-- The level whose parser reads the operands; `none` is `parse_unary`. -/
def Level.operand : Level → Option Level
  | .or => some .and
  | .and => some .equality
  | .equality => some .rel
  | .rel => some .add
  | .add => some .mul
  | .mul => none

/-- The operators of a level. -/
def Level.op : Level → TokenKind → Option BinaryOp
  | .or, .orOr => some .or
  | .and, .andAnd => some .and
  | .equality, .eqEq => some .eq
  | .equality, .neq => some .ne
  | .rel, .lt => some .lt
  | .rel, .le => some .le
  | .rel, .gt => some .gt
  | .rel, .ge => some .ge
  | .add, .plus => some .add
  | .add, .minus => some .sub
  | .mul, .star => some .mul
  | .mul, .slash => some .div
  | .mul, .percent => some .mod
  | _, _ => none

def assignOp : TokenKind → Option BinaryOp
  | .assign => some .assign
  | .plusEq => some .addAssign
  | .minusEq => some .subAssign
  | .starEq => some .mulAssign
  | .slashEq => some .divAssign
  | _ => none

def unaryOp : TokenKind → Option UnaryOp
  | .minus => some .neg
  | .bang => some .not
  | .tilde => some .bitNot
  | _ => none

mutual

/-- `parse_assign`, which is all that `parse_expr` calls. -/
def parseAssign : Nat → P Expr
  | 0 => Comp.outOfFuel
  | fuel + 1 => do
      let lhs ← parseBinary fuel .or
      match assignOp (← peek) with
      | some op => do
          let _ ← bump
          let rhs ← parseAssign fuel
          pure (.binary op lhs rhs)
      | none => pure lhs

def parseBinary : Nat → Level → P Expr
  | 0, _ => Comp.outOfFuel
  | fuel + 1, level => do
      let lhs ← parseOperand fuel level.operand
      binaryLoop fuel level lhs

/-- The `while` or `loop` of a level. -/
def binaryLoop : Nat → Level → Expr → P Expr
  | 0, _, _ => Comp.outOfFuel
  | fuel + 1, level, lhs => do
      match level.op (← peek) with
      | some op => do
          let _ ← bump
          let rhs ← parseOperand fuel level.operand
          binaryLoop fuel level (.binary op lhs rhs)
      | none => pure lhs

def parseOperand : Nat → Option Level → P Expr
  | 0, _ => Comp.outOfFuel
  | fuel + 1, some level => parseBinary fuel level
  | fuel + 1, none => parseUnary fuel

def parseUnary : Nat → P Expr
  | 0 => Comp.outOfFuel
  | fuel + 1 => do
      match unaryOp (← peek) with
      | some op => do
          let _ ← bump
          let e ← parseUnary fuel
          pure (.unary op e)
      | none => do
          let e ← parsePrimary fuel
          postfixLoop fuel e

/-- The `while` of `parse_postfix`. -/
def postfixLoop : Nat → Expr → P Expr
  | 0, _ => Comp.outOfFuel
  | fuel + 1, e => do
      if (← peek) = .dot then do
        let _ ← bump
        let member ← expectIdent "member name"
        if ← eat .lParen then do
          let args ← parseArgs fuel
          expect .rParen ")"
          postfixLoop fuel (.methodCall e member args)
        else postfixLoop fuel (.member e member)
      else pure e

def parsePrimary : Nat → P Expr
  | 0 => Comp.outOfFuel
  | fuel + 1 => do
      match ← peek with
      | .intLiteral v => do
          let _ ← bump
          pure (.literal (.int v))
      | .uintLiteral v => do
          let _ ← bump
          pure (.literal (.uint v))
      | .floatLiteral v => do
          let _ ← bump
          pure (.literal (.float v))
      | .boolLiteral v => do
          let _ ← bump
          pure (.literal (.bool v))
      | .lParen => do
          let _ ← bump
          if ← peekIsType then do
            let ty ← parseType fuel
            if ← eat .rParen then do
              let inner ← parseUnary fuel
              pure (.cast ty inner)
            else parseParen fuel
          else parseParen fuel
      | .ident s => do
          let _ ← bump
          if ← eat .lParen then do
            let args ← parseArgs fuel
            expect .rParen ")"
            match decodeTypeWord s with
            | some ty => pure (.construct ty args)
            | none => pure (.call s args)
          else pure (.ident s)
      | other => unexpected [.text "expression, got ", .described other]

/-- The rest of a parenthesised expression. -/
def parseParen : Nat → P Expr
  | 0 => Comp.outOfFuel
  | fuel + 1 => do
      let e ← parseAssign fuel
      expect .rParen ")"
      pure e

def parseArgs : Nat → P (List Expr)
  | 0 => Comp.outOfFuel
  | fuel + 1 => do
      if (← peek) = .rParen then pure []
      else argsLoop fuel []

def argsLoop : Nat → List Expr → P (List Expr)
  | 0, _ => Comp.outOfFuel
  | fuel + 1, args => do
      let e ← parseAssign fuel
      if ← eat .comma then argsLoop fuel (args ++ [e])
      else pure (args ++ [e])

end

def parseExpr (fuel : Nat) : P Expr := parseAssign fuel

def parseOr (fuel : Nat) : P Expr := parseBinary fuel .or
def parseAnd (fuel : Nat) : P Expr := parseBinary fuel .and
def parseEquality (fuel : Nat) : P Expr := parseBinary fuel .equality
def parseRel (fuel : Nat) : P Expr := parseBinary fuel .rel
def parseAdd (fuel : Nat) : P Expr := parseBinary fuel .add
def parseMul (fuel : Nat) : P Expr := parseBinary fuel .mul

/-! ## Statements -/

def parseVarDecl (fuel : Nat) : P VarDecl := do
  let ty ← parseType fuel
  let name ← expectIdent "variable name"
  let semantic ← parseOptionalSemantic
  let init ← (do
    if ← eat .assign then do
      let e ← parseExpr fuel
      pure (some e)
    else pure none)
  pure { ty, name, init, semantic }

def parseReturn (fuel : Nat) : P Stmt := do
  expect (.keyword .return_) "return"
  if ← eat .semicolon then pure (.return_ none)
  else do
    let e ← parseExpr fuel
    expect .semicolon ";"
    pure (.return_ (some e))

/-- A declaration or an expression, as a statement without its `;`: the default arm of `parse_stmt`
    and the init clause of `parse_for`. -/
def parseSimple (fuel : Nat) : P Stmt := do
  if ← looksLikeVarDecl then do
    let vd ← parseVarDecl fuel
    pure (.varDecl vd)
  else do
    let e ← parseExpr fuel
    pure (.expr e)

/-- The three clauses of `parse_for`, each with the token that ends it. -/
def parseForInit (fuel : Nat) : P (Option Stmt) := do
  if ← eat .semicolon then pure none
  else do
    let s ← parseSimple fuel
    expect .semicolon ";"
    pure (some s)

def parseForCond (fuel : Nat) : P (Option Expr) := do
  if ← eat .semicolon then pure none
  else do
    let e ← parseExpr fuel
    expect .semicolon ";"
    pure (some e)

def parseForUpdate (fuel : Nat) : P (Option Expr) := do
  if (← peek) = .rParen then pure none
  else do
    let e ← parseExpr fuel
    pure (some e)

mutual

def parseStmts : Nat → List Stmt → P (List Stmt)
  | 0, _ => Comp.outOfFuel
  | fuel + 1, stmts => do
      let k ← peek
      if k = .rBrace ∨ k = .eof then pure stmts
      else do
        let s ← parseStmt fuel
        parseStmts fuel (stmts ++ [s])

def parseStmt : Nat → P Stmt
  | 0 => Comp.outOfFuel
  | fuel + 1 => do
      match ← peek with
      | .keyword .return_ => parseReturn fuel
      | .keyword .if_ => parseIf fuel
      | .keyword .for_ => parseFor fuel
      | .lBrace => do
          let _ ← bump
          let b ← parseStmts fuel []
          expect .rBrace "\x7d"
          pure (.block b)
      | _ => do
          let s ← parseSimple fuel
          expect .semicolon ";"
          pure s

def parseIf : Nat → P Stmt
  | 0 => Comp.outOfFuel
  | fuel + 1 => do
      expect (.keyword .if_) "if"
      expect .lParen "("
      let cond ← parseExpr fuel
      expect .rParen ")"
      let then_ ← parseBlockOrStmt fuel
      if ← eat (.keyword .else_) then do
        let e ← parseBlockOrStmt fuel
        pure (.if_ cond then_ (some e))
      else pure (.if_ cond then_ none)

def parseFor : Nat → P Stmt
  | 0 => Comp.outOfFuel
  | fuel + 1 => do
      expect (.keyword .for_) "for"
      expect .lParen "("
      let init ← parseForInit fuel
      let cond ← parseForCond fuel
      let update ← parseForUpdate fuel
      expect .rParen ")"
      let body ← parseBlockOrStmt fuel
      pure (.for_ init cond update body)

def parseBlockOrStmt : Nat → P (List Stmt)
  | 0 => Comp.outOfFuel
  | fuel + 1 => do
      if ← eat .lBrace then do
        let b ← parseStmts fuel []
        expect .rBrace "\x7d"
        pure b
      else do
        let s ← parseStmt fuel
        pure [s]

end

/-- Enough fuel for the tokens from the cursor on. -/
def Parser.fuel (p : Parser) : Nat := 16 * (p.toks.length + 2)

/-- `parse_block_body`. -/
def parseBlockBody : P (List Stmt) := do
  let p ← Comp.get
  parseStmts p.fuel []

/-! ## Declarations -/

def parseOptionalRegister (fuel : Nat) : P (Option String) := do
  if ← eat .colon then
    if ← eat (.keyword .register) then
      if ← eat .lParen then
        match ← bump with
        | .ident s => do
            skipUntil .rParen fuel
            pure (some s)
        | _ => do
            skipUntil .rParen fuel
            pure none
      else pure none
    else pure none
  else pure none

/-- The member loop of `parse_struct` and `parse_cbuffer`. -/
def membersLoop (what : String) : Nat → List StructMember → P (List StructMember)
  | 0, _ => Comp.outOfFuel
  | fuel + 1, members => do
      if ← eat .rBrace then pure members
      else do
        let ty ← parseType fuel
        let name ← expectIdent what
        let semantic ← parseOptionalSemantic
        expect .semicolon ";"
        membersLoop what fuel (members ++ [⟨ty, name, semantic⟩])

def parseStruct (fuel : Nat) : P StructDecl := do
  expect (.keyword .struct) "struct"
  let name ← expectIdent "struct name"
  expect .lBrace "\x7b"
  let members ← membersLoop "member name" fuel []
  expect .semicolon "; after struct"
  pure { name, members }

def parseCBuffer (fuel : Nat) : P CBufferDecl := do
  expect (.keyword .cbuffer) "cbuffer"
  let name ← expectIdent "cbuffer name"
  let register ← parseOptionalRegister fuel
  expect .lBrace "\x7b"
  let members ← membersLoop "cbuffer member name" fuel []
  expect .semicolon "; after cbuffer"
  pure { name, register, members }

def eatModifierWord : P Unit := do
  match ← peek with
  | .ident s =>
      if s = "in" ∨ s = "out" ∨ s = "inout" ∨ s = "uniform" then do
        let _ ← bump
        pure ()
      else pure ()
  | _ => pure ()

def paramsLoop : Nat → List Param → P (List Param)
  | 0, _ => Comp.outOfFuel
  | fuel + 1, params => do
      eatModifierWord
      let ty ← parseType fuel
      let name ← expectIdent "parameter name"
      let semantic ← parseOptionalSemantic
      if ← eat .comma then paramsLoop fuel (params ++ [⟨ty, name, semantic⟩])
      else pure (params ++ [⟨ty, name, semantic⟩])

def parseParams (fuel : Nat) : P (List Param) := do
  if (← peek) = .rParen then pure []
  else paramsLoop fuel []

def parseFunctionOrGlobalVar (fuel : Nat) : P Decl := do
  let ty ← parseType fuel
  let name ← expectIdent "function or variable name"
  match ← peek with
  | .lParen => do
      let _ ← bump
      let params ← parseParams fuel
      expect .rParen ")"
      let semantic ← parseOptionalSemantic
      if ← eat .semicolon then
        pure (.function { returnType := ty, name, params, semantic, body := none })
      else do
        expect .lBrace "\x7b"
        let body ← parseStmts fuel []
        expect .rBrace "\x7d"
        pure (.function { returnType := ty, name, params, semantic, body := some body })
  | .colon => do
      let register ← parseOptionalRegister fuel
      expect .semicolon ";"
      pure (.globalVar { ty, name, register })
  | .semicolon => do
      let _ ← bump
      pure (.globalVar { ty, name, register := none })
  | other => unexpected [.text s!"`(`, `:`, or `;` after `{name}`, got ", .described other]

def parseDecl (fuel : Nat) : P Decl := do
  match ← peek with
  | .keyword .struct => do
      let s ← parseStruct fuel
      Comp.modify fun p => { p with structNames := s.name :: p.structNames }
      pure (.struct s)
  | .keyword .cbuffer => do
      let c ← parseCBuffer fuel
      pure (.cbuffer c)
  | _ => parseFunctionOrGlobalVar fuel

def unitLoop : Nat → List Decl → P TranslationUnit
  | 0, _ => Comp.outOfFuel
  | fuel + 1, decls => do
      if (← peek) = .eof then pure ⟨decls⟩
      else do
        let d ← parseDecl fuel
        unitLoop fuel (decls ++ [d])

/-- `parse`. -/
def parse (tokens : List Token) : Outcome ParseError TranslationUnit :=
  let p : Parser := ⟨tokens, 0, []⟩
  match unitLoop p.fuel [] p with
  | .ok (unit, _) => .ok unit
  | .err e => .err e
  | .panic => .panic
  | .outOfFuel => .outOfFuel

end WinCompat.Hlsl
