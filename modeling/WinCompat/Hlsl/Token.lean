import WinCompat.Hlsl.Ast

/-!
# Tokens and type words

The token types of `hlsl-compiler/src/lexer.rs`, and the decoding of type words that the parser
does on identifiers (`decode_type_word`, `decode_shape` of `parser.rs`).

Rust compares tokens in two ways: with a pattern, which looks at the payload, and by
`mem::discriminant`, which looks at the variant alone. `TokenKind.discriminant` is the second. All
keywords are one variant.
-/

namespace WinCompat.Hlsl

structure Span where
  start : Nat
  stop : Nat
  deriving DecidableEq

inductive Keyword
  | void
  | float
  | int
  | uint
  | bool
  | struct
  | return_
  | if_
  | else_
  | for_
  | samplerState
  | texture2D
  | cbuffer
  | register
  deriving DecidableEq

inductive TokenKind
  | ident (s : String)
  | keyword (k : Keyword)
  | semantic (s : String)
  | intLiteral (v : BitVec 64)
  | uintLiteral (v : BitVec 64)
  | floatLiteral (bits : BitVec 64)
  | boolLiteral (v : Bool)
  | lParen
  | rParen
  | lBrace
  | rBrace
  | lBracket
  | rBracket
  | comma
  | semicolon
  | colon
  | dot
  | assign
  | eqEq
  | neq
  | lt
  | le
  | gt
  | ge
  | plus
  | minus
  | star
  | slash
  | percent
  | bang
  | tilde
  | amp
  | pipe
  | caret
  | andAnd
  | orOr
  | plusEq
  | minusEq
  | starEq
  | slashEq
  | eof
  deriving DecidableEq

/-- `mem::discriminant`. -/
def TokenKind.discriminant (k : TokenKind) : Nat := k.ctorIdx

structure Token where
  kind : TokenKind
  span : Span
  deriving DecidableEq

/-! ## Type words -/

/-- `str::strip_prefix`. -/
def stripPrefix : List Char → List Char → Option (List Char)
  | [], s => some s
  | c :: rest, d :: s => if c = d then stripPrefix rest s else none
  | _ :: _, [] => none

/-- `str::split_once`. -/
def splitOnce (c : Char) : List Char → Option (List Char × List Char)
  | [] => none
  | d :: s =>
      if d = c then some ([], s)
      else (splitOnce c s).map fun r => (d :: r.1, r.2)

/-- The value of a string of decimal digits. -/
def digitsValue : List Char → Nat → Option Nat
  | [], n => some n
  | c :: s, n => if c.isDigit then digitsValue s (n * 10 + (c.toNat - 48)) else none

/-- Decimal digits with at most a leading `+`, as `from_str` reads an unsigned integer type with
    values below `bound`. -/
def parseUnsigned (bound : Nat) (s : List Char) : Option Nat :=
  let digits := match s with
    | '+' :: rest => rest
    | _ => s
  if digits = [] then none
  else (digitsValue digits 0).filter (· < bound)

/-- `str::parse::<u32>`. -/
def parseU32 (s : List Char) : Option Nat := parseUnsigned (2 ^ 32) s

/-- `decode_shape`. -/
def decodeShape (rest : List Char) : Option (Nat × Nat) :=
  if rest = [] then some (1, 1)
  else
    match splitOnce 'x' rest with
    | some (r, c) =>
        match parseU32 r, parseU32 c with
        | some r, some c => if 1 ≤ r ∧ 1 ≤ c then some (r, c) else none
        | _, _ => none
    | none =>
        match parseU32 rest with
        | some n => if 2 ≤ n ∧ n ≤ 4 then some (n, 1) else none
        | none => none

/-- The type of a decoded shape. -/
def shapeType (k : ScalarKind) : Nat × Nat → Ty
  | (1, 1) => .scalar k
  | (n, 1) => .vector k n
  | (r, c) => .matrix k r c

/-- `Display` of `ScalarKind`. -/
def ScalarKind.name : ScalarKind → List Char
  | .float => "float".toList
  | .int => "int".toList
  | .uint => "uint".toList
  | .bool => "bool".toList

/-- `decode_type_word`: the prefixes are tried in order, and the first that fits decides. -/
def decodeTypeWord (s : String) : Option Ty :=
  match stripPrefix ScalarKind.float.name s.toList with
  | some rest => (decodeShape rest).map (shapeType .float)
  | none =>
      match stripPrefix ScalarKind.int.name s.toList with
      | some rest => (decodeShape rest).map (shapeType .int)
      | none =>
          match stripPrefix ScalarKind.uint.name s.toList with
          | some rest => (decodeShape rest).map (shapeType .uint)
          | none =>
              match stripPrefix ScalarKind.bool.name s.toList with
              | some rest => (decodeShape rest).map (shapeType .bool)
              | none => none

/-- `is_type_word`. -/
def isTypeWord (s : String) : Bool := (decodeTypeWord s).isSome

example : decodeTypeWord "float4x4" = some (.matrix .float 4 4) := by decide

end WinCompat.Hlsl
