import Mathlib
import WinCompat.Hlsl.Token
import WinCompat.Lib.Assoc
import WinCompat.Lib.Utf8

/-!
# The lexer

`hlsl-compiler/src/lexer.rs`, on the bytes of a source text. A method of the lexer is a function of
the cursor `pos` and of the bytes `rest` from there on, and returns how many of them the cursor goes
past; a token is what it emits on the way.

`lex_loses_nothing` says that the spans of the tokens cover all of the source but white space and
comments, and that a word or an operator is the text of its span.
-/

namespace WinCompat.Hlsl

open Lib

structure LexError where
  span : Span
  msg : String
  deriving DecidableEq

/-! ## What a token is the text of -/

def Keyword.text : Keyword → String
  | .void => "void"
  | .float => "float"
  | .int => "int"
  | .uint => "uint"
  | .bool => "bool"
  | .struct => "struct"
  | .return_ => "return"
  | .if_ => "if"
  | .else_ => "else"
  | .for_ => "for"
  | .samplerState => "SamplerState"
  | .texture2D => "Texture2D"
  | .cbuffer => "cbuffer"
  | .register => "register"

/-- The text of a word or an operator. -/
def TokenKind.text : TokenKind → Option String
  | .ident s => some s
  | .keyword k => some k.text
  | .semantic s => some s
  | .boolLiteral true => some "true"
  | .boolLiteral false => some "false"
  | .lParen => some "("
  | .rParen => some ")"
  | .lBrace => some "\x7b"
  | .rBrace => some "\x7d"
  | .lBracket => some "["
  | .rBracket => some "]"
  | .comma => some ","
  | .semicolon => some ";"
  | .colon => some ":"
  | .dot => some "."
  | .assign => some "="
  | .eqEq => some "=="
  | .neq => some "!="
  | .lt => some "<"
  | .le => some "<="
  | .gt => some ">"
  | .ge => some ">="
  | .plus => some "+"
  | .minus => some "-"
  | .star => some "*"
  | .slash => some "/"
  | .percent => some "%"
  | .bang => some "!"
  | .tilde => some "~"
  | .amp => some "&"
  | .pipe => some "|"
  | .caret => some "^"
  | .andAnd => some "&&"
  | .orOr => some "||"
  | .plusEq => some "+="
  | .minusEq => some "-="
  | .starEq => some "*="
  | .slashEq => some "/="
  | .intLiteral _ | .uintLiteral _ | .floatLiteral _ | .eof => none

namespace Lexer

/-! ## Bytes -/

/-- `b as char`. -/
def chr (b : UInt8) : Char := Char.ofNat b.toNat

/-- `u8::is_ascii_whitespace`. -/
def isAsciiWhitespace (b : UInt8) : Bool :=
  b = 0x20 || b = 0x09 || b = 0x0A || b = 0x0C || b = 0x0D

/-- `u8::is_ascii_digit`. -/
def isAsciiDigit (b : UInt8) : Bool := (chr b).isDigit

/-- `u8::is_ascii_hexdigit`. -/
def isAsciiHexdigit (b : UInt8) : Bool :=
  (chr b).isDigit || ('a' ≤ chr b && chr b ≤ 'f') || ('A' ≤ chr b && chr b ≤ 'F')

/-- A byte that an identifier goes on with. -/
def isIdent (b : UInt8) : Bool := (chr b).isAlphanum || chr b = '_'

/-- `std::str::from_utf8(bytes).unwrap_or("")`. -/
def str (bytes : List UInt8) : String := (Utf8.decode? bytes).getD ""

/-- The first byte, as a character. -/
def peek (rest : List UInt8) : Option Char := rest.head?.map chr

/-- How often a loop goes round that moves on while the next byte is such. -/
def count (p : UInt8 → Bool) (rest : List UInt8) : Nat := (rest.takeWhile p).length

/-! ## White space and comments -/

/-- The length of a block comment's body and its end. -/
def blockEnd : List UInt8 → Option Nat
  | a :: b :: rest =>
      if chr a = '*' ∧ chr b = '/' then some 2 else (blockEnd (b :: rest)).map (· + 1)
  | _ => none

def skipWsAndComments (pos : Nat) (rest : List UInt8) : Except LexError Nat :=
  match rest with
  | [] => .ok 0
  | c :: cs =>
    if isAsciiWhitespace c then
      (skipWsAndComments (pos + 1) cs).map (1 + ·)
    else if chr c = '/' ∧ peek cs = some '/' then
      let n := 2 + count (fun b => chr b ≠ '\n') (cs.drop 1)
      (skipWsAndComments (pos + n) (cs.drop (n - 1))).map (n + ·)
    else if chr c = '/' ∧ peek cs = some '*' then
      match blockEnd (cs.drop 1) with
      | none => .error ⟨⟨pos, pos + rest.length⟩, "unterminated block comment"⟩
      | some n => (skipWsAndComments (pos + (2 + n)) (cs.drop (1 + n))).map (2 + n + ·)
    else
      .ok 0
  termination_by rest.length
  decreasing_by
    · exact Nat.lt_succ_self _
    · rw [List.length_drop, List.length_cons]
      omega
    · rw [List.length_drop, List.length_cons]
      omega

/-! ## Numbers -/

/-- The loop over a decimal number: how far it goes, and whether it meets a point, an exponent. -/
def decimal : List UInt8 → Bool → Bool → Nat × Bool × Bool
  | [], hadDot, hadExp => (0, hadDot, hadExp)
  | c :: cs, hadDot, hadExp =>
      if isAsciiDigit c then
        let r := decimal cs hadDot hadExp
        (r.1 + 1, r.2)
      else if chr c = '.' ∧ hadDot = false ∧ hadExp = false then
        let r := decimal cs true hadExp
        (r.1 + 1, r.2)
      else if (chr c = 'e' ∨ chr c = 'E') ∧ hadExp = false then
        match cs with
        | s :: cs' =>
            if chr s = '+' ∨ chr s = '-' then
              let r := decimal cs' true true
              (r.1 + 2, r.2)
            else
              let r := decimal (s :: cs') true true
              (r.1 + 1, r.2)
        | [] => (1, true, true)
      else
        (0, hadDot, hadExp)

/-- `consume_uint_suffix`. -/
def consumeUintSuffix (rest : List UInt8) : Bool := peek rest = some 'u' || peek rest = some 'U'

/-- `consume_float_suffix`. -/
def consumeFloatSuffix (rest : List UInt8) : Nat :=
  if peek rest = some 'f' ∨ peek rest = some 'F' then 1 else 0

/-- The double nearest to a fraction, of two nearest the even one, as its bits. -/
def nearestDouble (num den : Nat) : BitVec 64 :=
  let e : Int := Nat.log2 num - Nat.log2 den
  let e := if den * 2 ^ e.toNat ≤ num * 2 ^ (-e).toNat then e else e - 1
  -- The exponent of the last place.
  let q := max e (-1022) - 52
  let a := num * 2 ^ (-q).toNat
  let b := den * 2 ^ q.toNat
  let n := if b < 2 * (a % b) ∨ b = 2 * (a % b) ∧ a / b % 2 = 1 then a / b + 1 else a / b
  BitVec.ofNat 64 (min ((q + 1074).toNat * 2 ^ 52 + n) 0x7FF0000000000000)

/-- `m * 10 ^ e` as a double. -/
def scaleDouble (m : Nat) (e : Int) : BitVec 64 :=
  if m = 0 then 0 else nearestDouble (m * 10 ^ e.toNat) (10 ^ (-e).toNat)

/-- A sign, if there is one. -/
def splitSign : List Char → Bool × List Char
  | '-' :: s => (true, s)
  | '+' :: s => (false, s)
  | s => (false, s)

/-- The digits behind a point, if there is one, and what is behind them. -/
def splitFraction : List Char → List Char × List Char
  | '.' :: s => (s.takeWhile Char.isDigit, s.dropWhile Char.isDigit)
  | s => ([], s)

/-- An exponent, if there is one. -/
def parseExponent : List Char → Option Int
  | [] => some 0
  | c :: s =>
      if c = 'e' ∨ c = 'E' then
        let r := splitSign s
        if r.2 = [] then none
        else (digitsValue r.2 0).map fun (n : Nat) => if r.1 then -(n : Int) else n
      else none

/-- Digits with or without a point, and with or without an exponent. -/
def parseDecimal (s : List Char) : Option (BitVec 64) :=
  let whole := s.takeWhile Char.isDigit
  let r := splitFraction (s.dropWhile Char.isDigit)
  if whole = [] ∧ r.1 = [] then none
  else
    match parseExponent r.2, digitsValue (whole ++ r.1) 0 with
    | some e, some m => some (scaleDouble m (e - r.1.length))
    | _, _ => none

/-- The numbers that are words. -/
def parseNonFinite (s : List Char) : Option (BitVec 64) :=
  let word := s.map Char.toLower
  if word = "inf".toList ∨ word = "infinity".toList then some 0x7FF0000000000000
  else if word = "nan".toList then some 0x7FF8000000000000
  else none

/-- `str::parse::<f64>`. -/
def parseF64 (s : List Char) : Option (BitVec 64) :=
  let r := splitSign s
  ((parseNonFinite r.2).or (parseDecimal r.2)).map fun bits =>
    if r.1 then bits ||| 0x8000000000000000 else bits

/-- `str::parse::<i64>`. -/
def parseI64 (s : List Char) : Option (BitVec 64) :=
  let r := splitSign s
  if r.2 = [] then none
  else
    (digitsValue r.2 0).bind fun n =>
      if r.1 then if n ≤ 2 ^ 63 then some (-BitVec.ofNat 64 n) else none
      else if n < 2 ^ 63 then some (BitVec.ofNat 64 n) else none

/-- `str::parse::<u64>`. -/
def parseU64 (s : List Char) : Option (BitVec 64) :=
  (parseUnsigned (2 ^ 64) s).map (BitVec.ofNat 64)

/-- The value of a hexadecimal digit. -/
def hexDigit (c : Char) : Option Nat :=
  if c.isDigit then some (c.toNat - 48)
  else if 'a' ≤ c ∧ c ≤ 'f' then some (c.toNat - 87)
  else if 'A' ≤ c ∧ c ≤ 'F' then some (c.toNat - 55)
  else none

def hexValue : List Char → Nat → Option Nat
  | [], n => some n
  | c :: s, n => (hexDigit c).bind fun d => hexValue s (n * 16 + d)

/-- `u64::from_str_radix(s, 16)`. -/
def parseHex (s : List Char) : Option (BitVec 64) :=
  let digits := match s with
    | '+' :: rest => rest
    | _ => s
  if digits = [] then none
  else ((hexValue digits 0).filter (· < 2 ^ 64)).map (BitVec.ofNat 64)

/-- `number`: the literal, and how many bytes it has. -/
def number (start : Nat) (rest : List UInt8) : Except LexError (TokenKind × Nat) :=
  if peek rest = some '0' ∧ (peek (rest.drop 1) = some 'x' ∨ peek (rest.drop 1) = some 'X') then
    let digits := count isAsciiHexdigit (rest.drop 2)
    if digits = 0 then .error ⟨⟨start, start + 2⟩, "empty hex literal"⟩
    else
      let text := str ((rest.drop 2).take digits)
      let isUint := consumeUintSuffix (rest.drop (2 + digits))
      let n := 2 + digits + if isUint then 1 else 0
      match parseHex text.toList with
      | none => .error ⟨⟨start, start + n⟩, "invalid hex literal"⟩
      | some val => .ok (if isUint then .uintLiteral val else .intLiteral val, n)
  else
    let (m, hadDot, hadExp) := decimal rest false false
    if hadDot || hadExp then
      let n := m + consumeFloatSuffix (rest.drop m)
      match parseF64 (str (rest.take n)).toList with
      | none => .error ⟨⟨start, start + n⟩, "invalid float literal"⟩
      | some val => .ok (.floatLiteral val, n)
    else
      let isUint := consumeUintSuffix (rest.drop m)
      let n := m + if isUint then 1 else 0
      if isUint then
        match parseU64 (str (rest.take n)).toList with
        | none => .error ⟨⟨start, start + n⟩, "invalid integer literal"⟩
        | some val => .ok (.uintLiteral val, n)
      else
        match parseI64 (str (rest.take n)).toList with
        | none => .error ⟨⟨start, start + n⟩, "invalid integer literal"⟩
        | some val => .ok (.intLiteral val, n)

/-! ## Words -/

/-- The words that are not identifiers. -/
def words : List (String × TokenKind) :=
  [("void", .keyword .void), ("int", .keyword .int), ("uint", .keyword .uint),
    ("bool", .keyword .bool), ("struct", .keyword .struct), ("return", .keyword .return_),
    ("if", .keyword .if_), ("else", .keyword .else_), ("for", .keyword .for_),
    ("SamplerState", .keyword .samplerState), ("Texture2D", .keyword .texture2D),
    ("cbuffer", .keyword .cbuffer), ("register", .keyword .register),
    ("true", .boolLiteral true), ("false", .boolLiteral false)]

/-- The legacy semantics. -/
def bases : List String :=
  ["POSITION", "POSITIONT", "PSIZE", "COLOR", "FOG", "TEXCOORD", "TANGENT", "BINORMAL", "NORMAL",
    "DEPTH", "VPOS", "VFACE", "BLENDWEIGHT", "BLENDINDICES"]

/-- `is_semantic`. -/
def isSemantic (text : String) : Bool :=
  (stripPrefix "SV_".toList text.toList).isSome ||
    bases.any fun base =>
      text = base ||
        (stripPrefix base.toList text.toList).any fun rest => rest ≠ [] && rest.all Char.isDigit

/-- `classify_ident`. -/
def classifyIdent (text : String) : TokenKind :=
  match words.lookup text with
  | some kind => kind
  | none =>
    match stripPrefix "float".toList text.toList with
    | some [] => .keyword .float
    | some (c :: rest) =>
      if (c :: rest).all (fun c => c.isDigit || c = 'x') ∧ (c :: rest).any Char.isDigit then
        .ident text
      else if isSemantic text then .semantic text
      else .ident text
    | none => if isSemantic text then .semantic text else .ident text

def ident (rest : List UInt8) : TokenKind × Nat :=
  let n := count isIdent rest
  (classifyIdent (str (rest.take n)), n)

/-! ## Operators -/

def twoChar : List ((Char × Char) × TokenKind) :=
  [(('=', '='), .eqEq), (('!', '='), .neq), (('<', '='), .le), (('>', '='), .ge),
    (('&', '&'), .andAnd), (('|', '|'), .orOr), (('+', '='), .plusEq), (('-', '='), .minusEq),
    (('*', '='), .starEq), (('/', '='), .slashEq)]

def oneChar : List (Char × TokenKind) :=
  [('(', .lParen), (')', .rParen), ('{', .lBrace), ('}', .rBrace), ('[', .lBracket),
    (']', .rBracket), (',', .comma), (';', .semicolon), (':', .colon), ('.', .dot),
    ('=', .assign), ('<', .lt), ('>', .gt), ('+', .plus), ('-', .minus), ('*', .star),
    ('/', .slash), ('%', .percent), ('!', .bang), ('~', .tilde), ('&', .amp), ('|', .pipe),
    ('^', .caret)]

/-- `op`. At the end of the source the second byte is taken for zero. -/
def op (start : Nat) (c : UInt8) (cs : List UInt8) : Except LexError (TokenKind × Nat) :=
  match twoChar.lookup (chr c, (peek cs).getD (chr 0)) with
  | some kind => .ok (kind, 2)
  | none =>
    match oneChar.lookup (chr c) with
    | some kind => .ok (kind, 1)
    | none => .error ⟨⟨start, start + 1⟩, s!"unexpected character {c.toNat}"⟩

/-! ## The loop -/

/-- One token, from its first byte. -/
def token (start : Nat) (c : UInt8) (cs : List UInt8) : Except LexError (TokenKind × Nat) :=
  if isAsciiDigit c ∨ chr c = '.' ∧ (cs.head?.any isAsciiDigit) then
    number start (c :: cs)
  else if chr c = '"' then
    .error ⟨⟨start, start + 1⟩, "string literals are not supported yet"⟩
  else if (chr c).isAlpha ∨ chr c = '_' then
    .ok (ident (c :: cs))
  else
    op start c cs

/-! ### What a token takes -/

theorem count_le (p : UInt8 → Bool) (rest : List UInt8) : count p rest ≤ rest.length :=
  (List.takeWhile_sublist p).length_le

theorem take_count (p : UInt8 → Bool) (rest : List UInt8) :
    rest.take (count p rest) = rest.takeWhile p :=
  (List.prefix_iff_eq_take.mp (List.takeWhile_prefix p)).symm

theorem peek_some {rest : List UInt8} {ch : Char} (h : peek rest = some ch) :
    ∃ b bs, rest = b :: bs ∧ chr b = ch := by
  cases rest with
  | nil => cases h
  | cons b bs => exact ⟨b, bs, rfl, Option.some.inj h⟩

section

variable {c : UInt8} {cs : List UInt8} {hadDot hadExp : Bool}

attribute [local simp] decimal

theorem decimal_digit (hc : isAsciiDigit c) : decimal (c :: cs) hadDot hadExp =
    ((decimal cs hadDot hadExp).1 + 1, (decimal cs hadDot hadExp).2) := by
  cases cs with
  | nil => simp [decimal, hc]
  | cons s cs => simp [decimal, hc]

theorem decimal_dot (hc : ¬ isAsciiDigit c)
    (hdot : chr c = '.' ∧ hadDot = false ∧ hadExp = false) : decimal (c :: cs) hadDot hadExp =
    ((decimal cs true hadExp).1 + 1, (decimal cs true hadExp).2) := by
  cases cs with
  | nil => simp [decimal, hc, hdot]
  | cons s cs => simp [decimal, hc, hdot]

theorem decimal_sign {s : UInt8} (hc : ¬ isAsciiDigit c)
    (hdot : ¬ (chr c = '.' ∧ hadDot = false ∧ hadExp = false))
    (hexp : (chr c = 'e' ∨ chr c = 'E') ∧ hadExp = false) (hs : chr s = '+' ∨ chr s = '-') :
    decimal (c :: s :: cs) hadDot hadExp =
      ((decimal cs true true).1 + 2, (decimal cs true true).2) := by
  rw [decimal.eq_def]
  dsimp only
  rw [if_neg hc, if_neg hdot, if_pos hexp]
  exact if_pos hs

theorem decimal_exp {s : UInt8} (hc : ¬ isAsciiDigit c)
    (hdot : ¬ (chr c = '.' ∧ hadDot = false ∧ hadExp = false))
    (hexp : (chr c = 'e' ∨ chr c = 'E') ∧ hadExp = false) (hs : ¬ (chr s = '+' ∨ chr s = '-')) :
    decimal (c :: s :: cs) hadDot hadExp =
      ((decimal (s :: cs) true true).1 + 1, (decimal (s :: cs) true true).2) := by
  rw [decimal.eq_def]
  dsimp only
  rw [if_neg hc, if_neg hdot, if_pos hexp]
  exact if_neg hs

theorem decimal_end (hc : ¬ isAsciiDigit c)
    (hdot : ¬ (chr c = '.' ∧ hadDot = false ∧ hadExp = false))
    (hexp : (chr c = 'e' ∨ chr c = 'E') ∧ hadExp = false) :
    decimal [c] hadDot hadExp = (1, true, true) := by
  unfold decimal
  rw [if_neg hc, if_neg hdot, if_pos hexp]

theorem decimal_stop (hc : ¬ isAsciiDigit c)
    (hdot : ¬ (chr c = '.' ∧ hadDot = false ∧ hadExp = false))
    (hexp : ¬ ((chr c = 'e' ∨ chr c = 'E') ∧ hadExp = false)) :
    decimal (c :: cs) hadDot hadExp = (0, hadDot, hadExp) := by
  rw [decimal.eq_def]
  dsimp only
  rw [if_neg hc, if_neg hdot, if_neg hexp]

end

theorem decimal_le (rest : List UInt8) (d e : Bool) : (decimal rest d e).1 ≤ rest.length := by
  induction rest, d, e using decimal.induct with
  | case1 => exact Nat.le_refl _
  | case2 c cs d e hc ih =>
    rw [decimal_digit hc]
    exact Nat.succ_le_succ ih
  | case3 c cs d e hc hdot ih =>
    rw [decimal_dot hc hdot]
    exact Nat.succ_le_succ ih
  | case4 c d e hc hdot hexp s cs hs ih =>
    rw [decimal_sign hc hdot hexp hs]
    exact Nat.succ_le_succ (Nat.succ_le_succ ih)
  | case5 c d e hc hdot hexp s cs hs ih =>
    rw [decimal_exp hc hdot hexp hs]
    exact Nat.succ_le_succ ih
  | case6 c d e hc hdot hexp =>
    rw [decimal_end hc hdot hexp]
    exact Nat.le_refl _
  | case7 c cs d e hc hdot hexp =>
    rw [decimal_stop hc hdot hexp]
    exact Nat.zero_le _

/-- A number has its first byte. -/
theorem decimal_pos {c : UInt8} {cs : List UInt8} (h : isAsciiDigit c ∨ chr c = '.') :
    0 < (decimal (c :: cs) false false).1 := by
  by_cases hc : isAsciiDigit c
  · rw [decimal_digit hc]
    exact Nat.succ_pos _
  · rw [decimal_dot hc ⟨h.resolve_left hc, rfl, rfl⟩]
    exact Nat.succ_pos _

/-! ### Words -/

theorem isIdent_ascii {b : UInt8} (h : isIdent b) : b.toNat < 0x80 := by
  by_contra hhigh
  have hchr : (chr b).toNat = b.toNat :=
    Utf8.toNat_charOfNat (Nat.lt_trans b.toNat_lt (by decide))
  have hval : (chr b).val.toNat = (chr b).toNat := rfl
  simp only [isIdent, Char.isAlphanum, Char.isAlpha, Char.isUpper, Char.isLower, Char.isDigit,
    Bool.or_eq_true, Bool.and_eq_true, decide_eq_true_eq, UInt32.le_iff_toNat_le, ge_iff_le] at h
  rcases h with h | h
  · have hZ : 'Z'.val.toNat = 90 := rfl
    have hz : 'z'.val.toNat = 122 := rfl
    have h9 : '9'.val.toNat = 57 := rfl
    omega
  · rw [h] at hchr
    have h_ : '_'.toNat = 95 := rfl
    omega

variable {bytes : List UInt8}

theorem str_ascii (h : ∀ b ∈ bytes, b.toNat < 0x80) : (str bytes).toList = bytes.map chr := by
  have hmap := Utf8.encode_map_ascii h
  unfold str
  rw [← hmap, Utf8.decode?_encode, hmap]
  exact String.toList_ofList

theorem encode_str (h : ∀ b ∈ bytes, b.toNat < 0x80) : Utf8.encode (str bytes).toList = bytes := by
  rw [str_ascii h]
  exact Utf8.encode_map_ascii h

theorem words_text : ∀ p ∈ words, p.2.text = some p.1 ∧ p.2 ≠ .eof := by
  simp [words, TokenKind.text, Keyword.text]

theorem stripPrefix_nil {p s : List Char} (h : stripPrefix p s = some []) : s = p := by
  induction p generalizing s with
  | nil => exact Option.some.inj h
  | cons c p ih =>
    cases s with
    | nil => cases h
    | cons d s =>
      unfold stripPrefix at h
      split at h
      case isTrue hcd => rw [ih h, hcd]
      case isFalse => cases h

theorem classifyIdent_text (text : String) :
    (classifyIdent text).text = some text ∧ classifyIdent text ≠ .eof := by
  have hname : (if isSemantic text then TokenKind.semantic text else .ident text).text = some text ∧
      (if isSemantic text then TokenKind.semantic text else .ident text) ≠ .eof := by
    split <;> exact ⟨rfl, by simp⟩
  unfold classifyIdent
  split
  case h_1 kind hkind => exact words_text _ (Assoc.mem_of_lookup hkind)
  case h_2 =>
    split
    case h_1 hfloat =>
      have htext := congrArg String.ofList (stripPrefix_nil hfloat)
      rw [String.ofList_toList, String.ofList_toList] at htext
      rw [htext]
      exact ⟨rfl, by simp⟩
    case h_2 =>
      split
      case isTrue => exact ⟨rfl, by simp⟩
      case isFalse => exact hname
    case h_3 => exact hname

/-! ### Tokens -/

/-- The first `n` bytes are a token. -/
structure Takes (rest : List UInt8) (kind : TokenKind) (n : Nat) : Prop where
  pos : 0 < n
  le : n ≤ rest.length
  notEof : kind ≠ .eof
  text : ∀ s, kind.text = some s → Utf8.encode s.toList = rest.take n

variable {kind : TokenKind}

theorem Takes.literal {rest : List UInt8} {n : Nat} (hpos : 0 < n) (hle : n ≤ rest.length)
    (htext : kind.text = none) (hkind : kind ≠ .eof) :
    Takes rest kind n where
  pos := hpos
  le := hle
  notEof := hkind
  text := by
    intro s hs
    rw [htext] at hs
    cases hs

/-- A suffix is a byte. -/
theorem suffix_le {rest : List UInt8} {m : Nat} {ch : Char} (h : peek (rest.drop m) = some ch) :
    m + 1 ≤ rest.length := by
  obtain ⟨b, bs, hdrop, -⟩ := peek_some h
  have hlen := congrArg List.length hdrop
  rw [List.length_drop, List.length_cons] at hlen
  omega

theorem uintSuffix_le {rest : List UInt8} {m : Nat} (hm : m ≤ rest.length) :
    m + (if consumeUintSuffix (rest.drop m) then 1 else 0) ≤ rest.length := by
  by_cases h : consumeUintSuffix (rest.drop m)
  · rw [if_pos h]
    simp only [consumeUintSuffix, Bool.or_eq_true, decide_eq_true_eq] at h
    exact h.elim suffix_le suffix_le
  · rw [if_neg h]
    exact hm

theorem floatSuffix_le {rest : List UInt8} {m : Nat} (hm : m ≤ rest.length) :
    m + consumeFloatSuffix (rest.drop m) ≤ rest.length := by
  unfold consumeFloatSuffix
  split
  case isTrue h => exact h.elim suffix_le suffix_le
  case isFalse => exact hm

/-- A number begins so that is hexadecimal. -/
abbrev HexStart (rest : List UInt8) : Prop :=
  peek rest = some '0' ∧ (peek (rest.drop 1) = some 'x' ∨ peek (rest.drop 1) = some 'X')

variable {start : Nat}

theorem number_ok {rest : List UInt8} {n : Nat} (h : number start rest = .ok (kind, n)) :
    (HexStart rest ∧ (∃ val, kind = .uintLiteral val ∨ kind = .intLiteral val) ∧
      n = 2 + count isAsciiHexdigit (rest.drop 2) +
        if consumeUintSuffix (rest.drop (2 + count isAsciiHexdigit (rest.drop 2))) then 1 else 0) ∨
    (¬ HexStart rest ∧ ∃ m d e, decimal rest false false = (m, d, e) ∧
      (((d || e) ∧ n = m + consumeFloatSuffix (rest.drop m) ∧
          ∃ bits, kind = .floatLiteral bits ∧
            parseF64 (str (rest.take n)).toList = some bits) ∨
        ((∃ val, kind = .uintLiteral val ∨ kind = .intLiteral val) ∧
          n = m + if consumeUintSuffix (rest.drop m) then 1 else 0))) := by
  unfold number at h
  split at h
  case isTrue hhex =>
    dsimp only at h
    split at h
    case isTrue => cases h
    case isFalse =>
      split at h
      case h_1 => cases h
      case h_2 val _ =>
        cases h
        refine Or.inl ⟨hhex, ⟨val, ?_⟩, rfl⟩
        split
        · exact Or.inl rfl
        · exact Or.inr rfl
  case isFalse hhex =>
    refine Or.inr ⟨hhex, ?_⟩
    generalize decimal rest false false = r at h
    obtain ⟨m, d, e⟩ := r
    refine ⟨m, d, e, rfl, ?_⟩
    dsimp only at h
    split at h
    case isTrue hfloat =>
      split at h
      case h_1 => cases h
      case h_2 bits hparse =>
        cases h
        exact Or.inl ⟨hfloat, rfl, bits, rfl, hparse⟩
    case isFalse =>
      refine Or.inr ?_
      generalize consumeUintSuffix (rest.drop m) = isUint at h
      cases isUint
      all_goals
        simp only [Bool.false_eq_true, if_false, if_true] at h ⊢
        split at h
        case h_1 => cases h
        case h_2 val _ =>
          cases h
          exact ⟨⟨val, by simp⟩, rfl⟩

theorem number_takes {c : UInt8} {cs : List UInt8} {n : Nat} (hc : isAsciiDigit c ∨ chr c = '.')
    (h : number start (c :: cs) = .ok (kind, n)) : Takes (c :: cs) kind n := by
  have hle := decimal_le (c :: cs) false false
  have hpos := @decimal_pos c cs hc
  rcases number_ok h with ⟨hhex, ⟨val, hkind⟩, rfl⟩ | ⟨-, m, d, e, hdecimal, hrest⟩
  · have hdrop : 2 ≤ (c :: cs).length := hhex.2.elim suffix_le suffix_le
    have hdigits : 2 + count isAsciiHexdigit ((c :: cs).drop 2) ≤ (c :: cs).length := by
      have := count_le isAsciiHexdigit ((c :: cs).drop 2)
      rw [List.length_drop] at this
      omega
    refine Takes.literal (by omega) (uintSuffix_le hdigits) ?_ ?_
    · rcases hkind with rfl | rfl <;> rfl
    · rcases hkind with rfl | rfl <;> simp
  · rw [hdecimal] at hle hpos
    dsimp only at hle hpos
    rcases hrest with ⟨-, rfl, bits, rfl, -⟩ | ⟨⟨val, hkind⟩, rfl⟩
    · exact Takes.literal (by omega) (floatSuffix_le hle) rfl (by simp)
    · refine Takes.literal (by omega) (uintSuffix_le hle) ?_ ?_
      · rcases hkind with rfl | rfl <;> rfl
      · rcases hkind with rfl | rfl <;> simp

theorem ident_takes {c : UInt8} {cs : List UInt8} (hc : isIdent c) :
    Takes (c :: cs) (ident (c :: cs)).1 (ident (c :: cs)).2 := by
  have hident : ident (c :: cs) =
      (classifyIdent (str ((c :: cs).takeWhile isIdent)), count isIdent (c :: cs)) := by
    rw [ident, take_count]
  have hall : ∀ b ∈ (c :: cs).takeWhile isIdent, b.toNat < 0x80 := fun b hb =>
    isIdent_ascii (List.mem_takeWhile_imp hb)
  obtain ⟨htext, heof⟩ := classifyIdent_text (str ((c :: cs).takeWhile isIdent))
  rw [hident]
  refine ⟨?_, count_le _ _, heof, ?_⟩
  · rw [count, List.takeWhile_cons_of_pos hc]
    exact Nat.succ_pos _
  · intro s hs
    rw [take_count, ← Option.some.inj (htext.symm.trans hs)]
    exact encode_str hall

theorem twoChar_text : ∀ p ∈ twoChar, p.2.text = some (String.ofList [p.1.1, p.1.2]) ∧
    p.2 ≠ .eof ∧ p.1.1.toNat < 0x80 ∧ p.1.2.toNat < 0x80 ∧ p.1.2 ≠ chr 0 := by
  decide

theorem oneChar_text : ∀ p ∈ oneChar, p.2.text = some (String.ofList [p.1]) ∧ p.2 ≠ .eof ∧
    p.1.toNat < 0x80 := by
  decide

theorem ascii_of_chr {b : UInt8} {ch : Char} (h : chr b = ch) (hch : ch.toNat < 0x80) :
    b.toNat < 0x80 := by
  have hchr : (chr b).toNat = b.toNat :=
    Utf8.toNat_charOfNat (Nat.lt_trans b.toNat_lt (by decide))
  rw [← hchr, h]
  exact hch

theorem encode_ofList_chr (h : ∀ b ∈ bytes, b.toNat < 0x80) :
    Utf8.encode (String.ofList (bytes.map chr)).toList = bytes := by
  rw [String.toList_ofList]
  exact Utf8.encode_map_ascii h

theorem op_ok {c : UInt8} {cs : List UInt8} {n : Nat} (h : op start c cs = .ok (kind, n)) :
    (∃ d ds, cs = d :: ds ∧ n = 2 ∧ ((chr c, chr d), kind) ∈ twoChar) ∨
      n = 1 ∧ (chr c, kind) ∈ oneChar := by
  unfold op at h
  split at h
  case h_1 two htwo =>
    cases h
    have hmem := Assoc.mem_of_lookup htwo
    obtain ⟨-, -, -, -, hzero⟩ := twoChar_text _ hmem
    cases cs with
    | nil => exact absurd rfl hzero
    | cons d ds => exact Or.inl ⟨d, ds, rfl, rfl, hmem⟩
  case h_2 =>
    split at h
    case h_1 one hone =>
      cases h
      exact Or.inr ⟨rfl, Assoc.mem_of_lookup hone⟩
    case h_2 => cases h

theorem op_takes {c : UInt8} {cs : List UInt8} {n : Nat} (h : op start c cs = .ok (kind, n)) :
    Takes (c :: cs) kind n := by
  rcases op_ok h with ⟨d, ds, rfl, rfl, htwo⟩ | ⟨rfl, hone⟩
  · obtain ⟨htext, heof, hfirst, hsecond, -⟩ := twoChar_text _ htwo
    refine ⟨by omega, by simp, heof, ?_⟩
    intro s hs
    rw [← Option.some.inj (htext.symm.trans hs)]
    refine @encode_ofList_chr [c, d] ?_
    intro b hb
    simp only [List.mem_cons, List.not_mem_nil, or_false] at hb
    rcases hb with rfl | rfl
    · exact ascii_of_chr rfl hfirst
    · exact ascii_of_chr rfl hsecond
  · obtain ⟨htext, heof, hfirst⟩ := oneChar_text _ hone
    refine ⟨by omega, by simp, heof, ?_⟩
    intro s hs
    rw [← Option.some.inj (htext.symm.trans hs)]
    refine @encode_ofList_chr [c] ?_
    intro b hb
    rw [List.mem_singleton.mp hb]
    exact ascii_of_chr rfl hfirst

theorem token_takes {c : UInt8} {cs : List UInt8} {n : Nat} (h : token start c cs = .ok (kind, n)) :
    Takes (c :: cs) kind n := by
  unfold token at h
  split at h
  case isTrue hnumber => exact number_takes (hnumber.imp_right And.left) h
  case isFalse =>
    split at h
    case isTrue => cases h
    case isFalse =>
      split at h
      case isTrue hword =>
        have hident : isIdent c := by
          simp only [isIdent, Char.isAlphanum, Bool.or_eq_true, decide_eq_true_eq]
          exact hword.imp_left Or.inl
        have htakes := @ident_takes c cs hident
        rw [Except.ok.inj h] at htakes
        exact htakes
      case isFalse => exact op_takes h

/-! ### The run -/

/-- `run`. At the end of the source nothing is skipped, and the loop's own test is left out. -/
def run (pos : Nat) (rest : List UInt8) : Except LexError (List Token) :=
  match skipWsAndComments pos rest with
  | .error e => .error e
  | .ok n =>
    match _hrest : rest.drop n with
    | [] => .ok [⟨.eof, ⟨pos + n, pos + n⟩⟩]
    | c :: cs =>
      match _htoken : token (pos + n) c cs with
      | .error e => .error e
      | .ok (kind, k) =>
        (run (pos + n + k) ((c :: cs).drop k)).map (⟨kind, ⟨pos + n, pos + n + k⟩⟩ :: ·)
  termination_by rest.length
  decreasing_by
    have hlen := congrArg List.length _hrest
    have hpos := (token_takes _htoken).pos
    rw [List.length_drop] at hlen ⊢
    rw [List.length_cons] at hlen ⊢
    omega

end Lexer

/-- `lex`, of the bytes of a source. -/
def lex (source : List UInt8) : Except LexError (List Token) := Lexer.run 0 source

namespace Lexer

/-! ## What is read -/

/-- A comment to the end of the line. -/
def LineComment (text rest : List UInt8) : Prop :=
  ∃ body, text.map chr = '/' :: '/' :: body ∧ '\n' ∉ body ∧
    ∀ b, rest.head? = some b → chr b = '\n'

/-- A comment to the first `*/`. -/
def BlockComment (text : List UInt8) : Prop :=
  ∃ body, text.map chr = '/' :: '*' :: (body ++ ['*', '/']) ∧ ¬ ['*', '/'] <:+: body ++ ['*']

/-- The first of two texts is a comment, with the second behind it. -/
def Comment (text rest : List UInt8) : Prop := LineComment text rest ∨ BlockComment text

/-- The source from `pos` on is white space, comments and the tokens. -/
inductive Reads : Nat → List UInt8 → List Token → Prop
  | eof (pos : Nat) : Reads pos [] [⟨.eof, ⟨pos, pos⟩⟩]
  | white {pos : Nat} {b : UInt8} {rest : List UInt8} {tokens : List Token} :
      isAsciiWhitespace b → Reads (pos + 1) rest tokens → Reads pos (b :: rest) tokens
  | comment {pos : Nat} {text rest : List UInt8} {tokens : List Token} :
      Comment text rest → Reads (pos + text.length) rest tokens → Reads pos (text ++ rest) tokens
  | token {pos n : Nat} {kind : TokenKind} {rest : List UInt8} {tokens : List Token} :
      Takes rest kind n → Reads (pos + n) (rest.drop n) tokens →
        Reads pos rest (⟨kind, ⟨pos, pos + n⟩⟩ :: tokens)

theorem blockEnd_spec {rest : List UInt8} {n : Nat} (h : blockEnd rest = some n) :
    n ≤ rest.length ∧ ∃ body, (rest.take n).map chr = body ++ ['*', '/'] ∧
      ¬ ['*', '/'] <:+: body ++ ['*'] := by
  induction rest using blockEnd.induct generalizing n with
  | case1 a b rest hend =>
    rw [blockEnd, if_pos hend] at h
    cases h
    refine ⟨by simp, [], ?_, by decide⟩
    simp [hend]
  | case2 a b rest hend ih =>
    rw [blockEnd, if_neg hend, Option.map_eq_some_iff] at h
    obtain ⟨m, hm, rfl⟩ := h
    obtain ⟨hle, body, hbody, hinfix⟩ := ih hm
    refine ⟨Nat.succ_le_succ hle, chr a :: body, ?_, ?_⟩
    · rw [List.take_succ_cons, List.map_cons, hbody]
      rfl
    · rw [List.cons_append, List.infix_cons_iff, not_or]
      refine ⟨?_, hinfix⟩
      -- The first of the body, or what ends it, is the second byte.
      intro hprefix
      obtain ⟨ha, hrest⟩ := List.cons_prefix_cons.mp hprefix
      have hfirst : (body ++ ['*', '/']).head? = some (chr b) := by
        rw [← hbody]
        cases m with
        | zero => exact absurd hbody (by simp)
        | succ m => rfl
      cases body with
      | nil => exact absurd hrest (by decide)
      | cons d body =>
        obtain ⟨hd, -⟩ := List.cons_prefix_cons.mp hrest
        exact hend ⟨ha.symm, hd ▸ (Option.some.inj hfirst).symm⟩
  | case3 rest hshort =>
    match rest, hshort with
    | [], _ => cases h
    | [_], _ => cases h
    | a :: b :: rest, hshort => exact absurd rfl (hshort a b rest)

theorem map_ok {ε α β : Type} {x : Except ε α} {f : α → β} {b : β} (h : x.map f = .ok b) :
    ∃ a, x = .ok a ∧ f a = b := by
  cases x with
  | error e => cases h
  | ok a => exact ⟨a, rfl, Except.ok.inj h⟩

variable {tokens : List Token}

theorem Reads.skip {pos k : Nat} {rest : List UInt8} (hle : k ≤ rest.length)
    (hcomment : Comment (rest.take k) (rest.drop k)) (hreads : Reads (pos + k) (rest.drop k) tokens) :
    Reads pos rest tokens := by
  have hlen : (rest.take k).length = k := List.length_take_of_le hle
  rw [← List.take_append_drop k rest]
  refine Reads.comment hcomment ?_
  rw [hlen]
  exact hreads

theorem drop_count (p : UInt8 → Bool) (rest : List UInt8) :
    rest.drop (count p rest) = rest.dropWhile p := by
  have happend := List.takeWhile_append_dropWhile (p := p) (l := rest)
  rw [← take_count p rest] at happend
  exact List.append_cancel_left ((List.take_append_drop _ rest).trans happend.symm)

theorem drop_cons {c : UInt8} {cs : List UInt8} {n : Nat} (h : 0 < n) :
    (c :: cs).drop n = cs.drop (n - 1) := by
  cases n with
  | zero => exact absurd h (Nat.lt_irrefl 0)
  | succ n => rfl

theorem lineComment {c d : UInt8} {ds : List UInt8} (hc : chr c = '/') (hd : chr d = '/') :
    LineComment ((c :: d :: ds).take (2 + count (fun b => chr b ≠ '\n') ds))
      ((c :: d :: ds).drop (2 + count (fun b => chr b ≠ '\n') ds)) := by
  rw [Nat.add_comm 2, List.take_succ_cons, List.take_succ_cons, List.drop_succ_cons,
    List.drop_succ_cons, take_count, drop_count]
  refine ⟨(ds.takeWhile fun b => chr b ≠ '\n').map chr, ?_, ?_, ?_⟩
  · rw [List.map_cons, List.map_cons, hc, hd]
  · intro hmem
    obtain ⟨b, hb, hchr⟩ := List.mem_map.mp hmem
    have hne := List.all_eq_true.mp List.all_takeWhile b hb
    exact absurd hchr (of_decide_eq_true hne)
  · intro b hb
    have hstop := List.head?_dropWhile_not (fun b => decide (chr b ≠ '\n')) ds
    rw [hb] at hstop
    simpa using hstop

theorem blockComment {c d : UInt8} {ds : List UInt8} {n : Nat} (hc : chr c = '/')
    (hd : chr d = '*') (h : blockEnd ds = some n) :
    2 + n ≤ (c :: d :: ds).length ∧ BlockComment ((c :: d :: ds).take (2 + n)) := by
  obtain ⟨hle, body, hbody, hinfix⟩ := blockEnd_spec h
  refine ⟨by simp only [List.length_cons]; omega, body, ?_, hinfix⟩
  rw [Nat.add_comm 2, List.take_succ_cons, List.take_succ_cons, List.map_cons, List.map_cons, hc,
    hd, hbody]

/-- What is skipped is white space and comments. -/
theorem skip_reads {pos : Nat} {rest : List UInt8} {n : Nat}
    (h : skipWsAndComments pos rest = .ok n) (hreads : Reads (pos + n) (rest.drop n) tokens) :
    Reads pos rest tokens := by
  induction pos, rest using skipWsAndComments.induct generalizing n with
  | case1 pos =>
    rw [skipWsAndComments] at h
    cases h
    exact hreads
  | case2 pos c cs hwhite ih =>
    rw [skipWsAndComments, if_pos hwhite] at h
    obtain ⟨m, hm, rfl⟩ := map_ok h
    refine Reads.white hwhite (ih hm ?_)
    rw [Nat.add_comm 1 m, List.drop_succ_cons, ← Nat.add_comm 1 m, ← Nat.add_assoc] at hreads
    exact hreads
  | case3 pos c cs hwhite hline k =>
    obtain ⟨hc, hnext⟩ := hline
    obtain ⟨d, ds, rfl, hd⟩ := peek_some hnext
    rw [skipWsAndComments, if_neg hwhite, if_pos ⟨hc, hnext⟩] at h
    obtain ⟨m, hm, rfl⟩ := map_ok h
    rename_i ih
    have hle := count_le (fun b => chr b ≠ '\n') ds
    refine Reads.skip (k := 2 + count (fun b => chr b ≠ '\n') ds) ?_
      (Or.inl (lineComment hc hd)) ?_
    · simp only [List.length_cons]
      omega
    · have hdrop : (c :: d :: ds).drop k = (d :: ds).drop (k - 1) := drop_cons (by omega)
      rw [← Nat.add_assoc, ← List.drop_drop] at hreads
      exact hdrop ▸ ih hm (hdrop ▸ hreads)
  | case4 pos c cs hwhite hline hblock hopen =>
    rw [skipWsAndComments, if_neg hwhite, if_neg hline, if_pos hblock, hopen] at h
    cases h
  | case5 pos c cs hwhite hline hblock k hclosed ih =>
    obtain ⟨hc, hnext⟩ := hblock
    obtain ⟨d, ds, rfl, hd⟩ := peek_some hnext
    rw [skipWsAndComments, if_neg hwhite, if_neg hline, if_pos ⟨hc, hnext⟩, hclosed] at h
    obtain ⟨m, hm, rfl⟩ := map_ok h
    obtain ⟨hle, hcomment⟩ := blockComment hc hd hclosed
    have hdrop : (c :: d :: ds).drop (2 + k) = (d :: ds).drop (1 + k) := by
      rw [drop_cons (by omega), show 2 + k - 1 = 1 + k by omega]
    refine Reads.skip hle (Or.inr hcomment) ?_
    rw [hdrop]
    rw [← Nat.add_assoc, ← List.drop_drop, hdrop] at hreads
    exact ih hm hreads
  | case6 pos c cs hwhite hline hblock =>
    rw [skipWsAndComments, if_neg hwhite, if_neg hline, if_neg hblock] at h
    cases h
    exact hreads

section

variable {pos n : Nat} {rest cs : List UInt8} {c : UInt8} {e : LexError}

theorem run_skipError (hskip : skipWsAndComments pos rest = .error e) :
    run pos rest = .error e := by
  rw [run, hskip]

theorem run_eof (hskip : skipWsAndComments pos rest = .ok n) (hrest : rest.drop n = []) :
    run pos rest = .ok [⟨.eof, ⟨pos + n, pos + n⟩⟩] := by
  rw [run, hskip]
  dsimp only
  split
  case h_1 => rfl
  case h_2 hcons =>
    rw [hrest] at hcons
    cases hcons

theorem run_error (hskip : skipWsAndComments pos rest = .ok n) (hrest : rest.drop n = c :: cs)
    (htoken : token (pos + n) c cs = .error e) : run pos rest = .error e := by
  rw [run, hskip]
  dsimp only
  split
  case h_1 hnil =>
    rw [hrest] at hnil
    cases hnil
  case h_2 hcons =>
    cases hrest.symm.trans hcons
    split
    case h_1 herror =>
      cases htoken.symm.trans herror
      rfl
    case h_2 hok => cases htoken.symm.trans hok

theorem run_token {kind : TokenKind} {k : Nat} (hskip : skipWsAndComments pos rest = .ok n)
    (hrest : rest.drop n = c :: cs) (htoken : token (pos + n) c cs = .ok (kind, k)) :
    run pos rest =
      (run (pos + n + k) ((c :: cs).drop k)).map (⟨kind, ⟨pos + n, pos + n + k⟩⟩ :: ·) := by
  rw [run, hskip]
  dsimp only
  split
  case h_1 hnil =>
    rw [hrest] at hnil
    cases hnil
  case h_2 hcons =>
    cases hrest.symm.trans hcons
    split
    case h_1 herror => cases htoken.symm.trans herror
    case h_2 hok =>
      cases htoken.symm.trans hok
      rfl

end

theorem run_reads {pos : Nat} {rest : List UInt8} (h : run pos rest = .ok tokens) :
    Reads pos rest tokens := by
  induction pos, rest using run.induct generalizing tokens with
  | case1 pos rest e hskip =>
    rw [run_skipError hskip] at h
    cases h
  | case2 pos rest n hskip hrest =>
    rw [run_eof hskip hrest] at h
    cases h
    refine skip_reads hskip ?_
    rw [hrest]
    exact Reads.eof _
  | case3 pos rest n hskip c cs hrest e htoken =>
    rw [run_error hskip hrest htoken] at h
    cases h
  | case4 pos rest n hskip c cs hrest kind k htoken ih =>
    rw [run_token hskip hrest htoken] at h
    obtain ⟨ts, hts, rfl⟩ := map_ok h
    refine skip_reads hskip ?_
    rw [hrest]
    exact Reads.token (token_takes htoken) (ih hts)

/-! ## Spans -/

/-- The tokens of a source from `pos` on. Nothing is between two spans but blanks and comments. -/
structure Covers (src : List UInt8) (pos : Nat) (tokens : List Token) : Prop where
  inside : ∀ t ∈ tokens, pos ≤ t.span.start ∧ t.span.start ≤ t.span.stop ∧
    t.span.stop ≤ src.length
  /-- In increasing order, and disjoint. -/
  ordered : tokens.Pairwise fun t u => t.span.stop ≤ u.span.start
  /-- All but the last have a byte. -/
  final : ∃ ts, tokens = ts ++ [⟨.eof, ⟨src.length, src.length⟩⟩] ∧
    ∀ t ∈ ts, t.kind ≠ .eof ∧ t.span.start < t.span.stop
  text : ∀ t ∈ tokens, ∀ s, t.kind.text = some s →
    Utf8.encode s.toList = (src.drop t.span.start).take (t.span.stop - t.span.start)
  /-- A byte outside all of them is white space, or in a comment outside all of them. -/
  gaps : ∀ i, pos ≤ i → i < src.length → (∀ t ∈ tokens, i < t.span.start ∨ t.span.stop ≤ i) →
    (∃ b, src[i]? = some b ∧ isAsciiWhitespace b) ∨
      ∃ a n, pos ≤ a ∧ a ≤ i ∧ i < a + n ∧ a + n ≤ src.length ∧
        Comment ((src.drop a).take n) (src.drop (a + n)) ∧
        ∀ t ∈ tokens, a + n ≤ t.span.start ∨ t.span.stop ≤ a

theorem Covers.gap {src : List UInt8} {pos n : Nat} (h : Covers src (pos + n) tokens)
    (hle : pos + n ≤ src.length) (hgap : (∃ b, src[pos]? = some b ∧ isAsciiWhitespace b ∧ n = 1) ∨
      Comment ((src.drop pos).take n) (src.drop (pos + n))) : Covers src pos tokens where
  inside t ht := by
    obtain ⟨hstart, hrest⟩ := h.inside t ht
    exact ⟨by omega, hrest⟩
  ordered := h.ordered
  final := h.final
  text := h.text
  gaps i hi hlen hout := by
    by_cases hin : pos + n ≤ i
    · refine (h.gaps i hin hlen hout).imp_right ?_
      rintro ⟨a, m, ha, hrest⟩
      exact ⟨a, m, by omega, hrest⟩
    · rcases hgap with ⟨b, hb, hwhite, rfl⟩ | hcomment
      · have heq : i = pos := by omega
        rw [heq]
        exact Or.inl ⟨b, hb, hwhite⟩
      · refine Or.inr ⟨pos, n, Nat.le_refl _, hi, by omega, hle, hcomment, ?_⟩
        intro t ht
        exact Or.inl (h.inside t ht).1

theorem Covers.token {src : List UInt8} {pos n : Nat} {kind : TokenKind}
    (h : Covers src (pos + n) tokens) (htakes : Takes (src.drop pos) kind n)
    (hle : pos + n ≤ src.length) : Covers src pos (⟨kind, ⟨pos, pos + n⟩⟩ :: tokens) where
  inside := by
    simp only [List.forall_mem_cons]
    refine ⟨⟨Nat.le_refl _, by omega, hle⟩, ?_⟩
    intro t ht
    obtain ⟨hstart, hrest⟩ := h.inside t ht
    exact ⟨by omega, hrest⟩
  ordered := List.pairwise_cons.mpr ⟨fun t ht => (h.inside t ht).1, h.ordered⟩
  final := by
    obtain ⟨ts, rfl, hts⟩ := h.final
    refine ⟨⟨kind, ⟨pos, pos + n⟩⟩ :: ts, rfl, ?_⟩
    simp only [List.forall_mem_cons]
    exact ⟨⟨htakes.notEof, Nat.lt_add_of_pos_right htakes.pos⟩, hts⟩
  text := by
    simp only [List.forall_mem_cons]
    refine ⟨?_, h.text⟩
    rw [Nat.add_sub_cancel_left]
    exact htakes.text
  gaps i hi hlen hout := by
    simp only [List.forall_mem_cons] at hout ⊢
    obtain ⟨hfirst, hrest⟩ := hout
    refine (h.gaps i (by omega) hlen hrest).imp_right ?_
    rintro ⟨a, m, ha, hai, him, hend, hcomment, hdisjoint⟩
    exact ⟨a, m, by omega, hai, him, hend, hcomment, Or.inr ha, hdisjoint⟩

theorem covers_eof (src : List UInt8) :
    Covers src src.length [⟨.eof, ⟨src.length, src.length⟩⟩] where
  inside := by simp
  ordered := List.pairwise_singleton _ _
  final := ⟨[], rfl, by simp⟩
  text := by simp [TokenKind.text]
  gaps i hi hlen _ := absurd hlen (Nat.not_lt_of_le hi)

theorem Reads.covers {src rest : List UInt8} {pos : Nat} (h : Reads pos rest tokens)
    (hle : pos ≤ src.length) (hrest : src.drop pos = rest) : Covers src pos tokens := by
  induction h with
  | eof pos =>
    have hpos : src.length ≤ pos := List.drop_eq_nil_iff.mp hrest
    rw [Nat.le_antisymm hle hpos]
    exact covers_eof src
  | @white pos b rest tokens hwhite _ ih =>
    have hb : src[pos]? = some b := by rw [← List.head?_drop, hrest, List.head?_cons]
    have hnext : pos < src.length := (List.getElem?_eq_some_iff.mp hb).1
    have hdrop : src.drop (pos + 1) = rest := by
      rw [← List.drop_drop, hrest, List.drop_one, List.tail_cons]
    exact (ih hnext hdrop).gap hnext (Or.inl ⟨b, hb, hwhite, rfl⟩)
  | @comment pos text rest tokens hcomment _ ih =>
    have hlen := congrArg List.length hrest
    rw [List.length_drop, List.length_append] at hlen
    have hdrop : src.drop (pos + text.length) = rest := by
      rw [← List.drop_drop, hrest, List.drop_left]
    have hnext : pos + text.length ≤ src.length := by omega
    refine (ih hnext hdrop).gap hnext (Or.inr ?_)
    rw [hdrop, hrest, List.take_left]
    exact hcomment
  | @token pos n kind rest tokens htakes _ ih =>
    have hlen := congrArg List.length hrest
    rw [List.length_drop] at hlen
    have hnext : pos + n ≤ src.length := by have := htakes.le; omega
    have hdrop : src.drop (pos + n) = rest.drop n := by rw [← List.drop_drop, hrest]
    exact (ih hnext hdrop).token (hrest ▸ htakes) hnext

/-- The spans of the tokens are in order and disjoint, the text of each is the source's, and
    between them is white space and comments. -/
theorem lex_loses_nothing {src : List UInt8} {tokens : List Token} (h : lex src = .ok tokens) :
    Covers src 0 tokens :=
  (run_reads h).covers (Nat.zero_le _) rfl

/-- `+/**/1`. -/
def plusOne : List UInt8 := [43, 47, 42, 42, 47, 49]

theorem lex_loses_nothing_plusOne :
    lex plusOne = .ok [⟨.plus, ⟨0, 1⟩⟩, ⟨.intLiteral 1, ⟨5, 6⟩⟩, ⟨.eof, ⟨6, 6⟩⟩] ∧
      Covers plusOne 0 [⟨.plus, ⟨0, 1⟩⟩, ⟨.intLiteral 1, ⟨5, 6⟩⟩, ⟨.eof, ⟨6, 6⟩⟩] := by
  have h : lex plusOne = .ok [⟨.plus, ⟨0, 1⟩⟩, ⟨.intLiteral 1, ⟨5, 6⟩⟩, ⟨.eof, ⟨6, 6⟩⟩] := by
    decide +kernel
  exact ⟨h, lex_loses_nothing h⟩

end Lexer

end WinCompat.Hlsl
