import WinCompat.Hlsl.Token

/-!
# The canonical tokens of a statement list

What a printer writes for a tree: types by their own word (`Display` of `Type`), operators with no
parentheses, and braces around the body of every `if`, `else` and `for`.

Not every tree can be written without parentheses. `Expr.Fits n e` says that `e` can stand where an
operand of precedence `n` is expected, with the precedences and associativity of C.
-/

namespace WinCompat.Hlsl

/-! ## Types -/

/-- The word of a type that is one identifier. -/
def typeWord : Ty → List Char
  | .vector k n => k.name ++ Nat.toDigits 10 n
  | .matrix k r c => k.name ++ Nat.toDigits 10 r ++ 'x' :: Nat.toDigits 10 c
  | .struct name => name.toList
  | _ => []

def typeToken : Ty → TokenKind
  | .void => .keyword .void
  | .scalar .float => .keyword .float
  | .scalar .int => .keyword .int
  | .scalar .uint => .keyword .uint
  | .scalar .bool => .keyword .bool
  | .texture2D => .keyword .texture2D
  | .samplerState => .keyword .samplerState
  | ty => .ident (String.ofList (typeWord ty))

/-! ## Expressions -/

def Literal.token : Literal → TokenKind
  | .int v => .intLiteral v
  | .uint v => .uintLiteral v
  | .float bits => .floatLiteral bits
  | .bool v => .boolLiteral v

def BinaryOp.token : BinaryOp → TokenKind
  | .add => .plus
  | .sub => .minus
  | .mul => .star
  | .div => .slash
  | .mod => .percent
  | .assign => .assign
  | .addAssign => .plusEq
  | .subAssign => .minusEq
  | .mulAssign => .starEq
  | .divAssign => .slashEq
  | .eq => .eqEq
  | .ne => .neq
  | .lt => .lt
  | .le => .le
  | .gt => .gt
  | .ge => .ge
  | .and => .andAnd
  | .or => .orOr
  | .bitAnd => .amp
  | .bitOr => .pipe
  | .bitXor => .caret

def UnaryOp.token : UnaryOp → TokenKind
  | .neg => .minus
  | .not => .bang
  | .bitNot => .tilde

/-- The precedence of an operator: 0 for the assignments, which associate to the right. -/
def BinaryOp.prec : BinaryOp → Nat
  | .assign | .addAssign | .subAssign | .mulAssign | .divAssign => 0
  | .or => 1
  | .and => 2
  | .bitOr => 3
  | .bitXor => 4
  | .bitAnd => 5
  | .eq | .ne => 6
  | .lt | .le | .gt | .ge => 7
  | .add | .sub => 8
  | .mul | .div | .mod => 9

/-- The expression is made of literals, identifiers, member accesses and operators, and needs no
    parentheses where precedence `n` is expected. -/
inductive Expr.Fits : Nat → Expr → Prop
  | literal (n : Nat) (l : Literal) : Fits n (.literal l)
  | ident (n : Nat) (s : String) : Fits n (.ident s)
  | member {n : Nat} {base : Expr} (s : String) (hb : Fits 11 base) : Fits n (.member base s)
  | unary {n : Nat} {e : Expr} (op : UnaryOp) (hn : n ≤ 10) (he : Fits 10 e) :
      Fits n (.unary op e)
  | binary {n : Nat} {op : BinaryOp} {lhs rhs : Expr} (hn : n ≤ op.prec) (hop : 1 ≤ op.prec)
      (hl : Fits op.prec lhs) (hr : Fits (op.prec + 1) rhs) : Fits n (.binary op lhs rhs)
  | assign {op : BinaryOp} {lhs rhs : Expr} (hop : op.prec = 0) (hl : Fits 1 lhs)
      (hr : Fits 0 rhs) : Fits 0 (.binary op lhs rhs)

/-- The tokens of an expression. Constructors, calls and casts, which need parentheses, have none
    here. -/
def Expr.tokens : Expr → List TokenKind
  | .literal l => [l.token]
  | .ident s => [.ident s]
  | .member base s => base.tokens ++ [.dot, .ident s]
  | .binary op lhs rhs => lhs.tokens ++ op.token :: rhs.tokens
  | .unary op e => op.token :: e.tokens
  | .construct _ _ | .call _ _ | .methodCall _ _ _ | .cast _ _ => []

/-- No `&`, `|` or `^` anywhere in the expression. -/
inductive Expr.BitFree : Expr → Prop
  | literal (l : Literal) : BitFree (.literal l)
  | ident (s : String) : BitFree (.ident s)
  | construct (ty : Ty) {args : List Expr} (h : ∀ a ∈ args, BitFree a) : BitFree (.construct ty args)
  | call (s : String) {args : List Expr} (h : ∀ a ∈ args, BitFree a) : BitFree (.call s args)
  | methodCall {base : Expr} (s : String) {args : List Expr} (hb : BitFree base)
      (h : ∀ a ∈ args, BitFree a) : BitFree (.methodCall base s args)
  | member {base : Expr} (s : String) (hb : BitFree base) : BitFree (.member base s)
  | binary {op : BinaryOp} {lhs rhs : Expr} (hop : op ≠ .bitAnd ∧ op ≠ .bitOr ∧ op ≠ .bitXor)
      (hl : BitFree lhs) (hr : BitFree rhs) : BitFree (.binary op lhs rhs)
  | unary (op : UnaryOp) {e : Expr} (he : BitFree e) : BitFree (.unary op e)
  | cast (ty : Ty) {e : Expr} (he : BitFree e) : BitFree (.cast ty e)

/-! ## Statements -/

def optTokens : Option Expr → List TokenKind
  | none => []
  | some e => e.tokens

def initTokens : Option Expr → List TokenKind
  | none => []
  | some e => .assign :: e.tokens

def semanticTokens : Option String → List TokenKind
  | none => []
  | some s => [.colon, .semantic s]

def VarDecl.tokens (vd : VarDecl) : List TokenKind :=
  typeToken vd.ty :: .ident vd.name :: semanticTokens vd.semantic ++ initTokens vd.init

/-- A declaration or an expression, without its `;`. -/
def simpleTokens : Stmt → List TokenKind
  | .varDecl vd => vd.tokens
  | .expr e => e.tokens
  | _ => []

def forInitTokens : Option Stmt → List TokenKind
  | none => []
  | some s => simpleTokens s

mutual

def Stmt.tokens : Stmt → List TokenKind
  | .return_ e => .keyword .return_ :: optTokens e ++ [.semicolon]
  | .varDecl vd => vd.tokens ++ [.semicolon]
  | .expr e => e.tokens ++ [.semicolon]
  | .if_ cond then_ else_ =>
      .keyword .if_ :: .lParen :: cond.tokens ++ .rParen :: .lBrace :: blockTokens then_
        ++ .rBrace :: elseTokens else_
  | .for_ init cond update body =>
      .keyword .for_ :: .lParen :: forInitTokens init ++ .semicolon :: optTokens cond
        ++ .semicolon :: optTokens update ++ .rParen :: .lBrace :: blockTokens body ++ [.rBrace]
  | .block b => .lBrace :: blockTokens b ++ [.rBrace]

def blockTokens : List Stmt → List TokenKind
  | [] => []
  | s :: l => s.tokens ++ blockTokens l

def elseTokens : Option (List Stmt) → List TokenKind
  | none => []
  | some b => .keyword .else_ :: .lBrace :: blockTokens b ++ [.rBrace]

end

/-! ## Printable statements -/

/-- What an init clause of `for` can be: a declaration or an expression. -/
def Simple : Stmt → Prop
  | .varDecl vd => ∀ e ∈ vd.init, Expr.Fits 0 e
  | .expr e => Expr.Fits 0 e
  | _ => False

mutual

/-- Every expression of the statement can be written without parentheses, and every init clause of
    a `for` is a declaration or an expression. -/
def Stmt.Printable : Stmt → Prop
  | .return_ e => ∀ x ∈ e, Expr.Fits 0 x
  | .varDecl vd => ∀ x ∈ vd.init, Expr.Fits 0 x
  | .expr e => Expr.Fits 0 e
  | .if_ cond then_ else_ => Expr.Fits 0 cond ∧ Printables then_ ∧ ElsePrintable else_
  | .for_ init cond update body =>
      (∀ s ∈ init, Simple s) ∧ (∀ x ∈ cond, Expr.Fits 0 x) ∧ (∀ x ∈ update, Expr.Fits 0 x) ∧
        Printables body
  | .block b => Printables b

def Printables : List Stmt → Prop
  | [] => True
  | s :: l => s.Printable ∧ Printables l

def ElsePrintable : Option (List Stmt) → Prop
  | none => True
  | some b => Printables b

end

end WinCompat.Hlsl
