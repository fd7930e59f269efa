import WinCompat.Hlsl.Lexer

/-!
# Suffixes of literals

`Lexer::number` with a suffix behind the literal: `u` or `U` behind digits, `f` or `F` behind a
floating-point number.

The text of a hexadecimal literal is taken before the suffix is consumed. The text of a decimal one
is taken after it, and the suffix is then parsed along with the digits, which no number has
(`suffixed_iff_hex`).
-/

namespace WinCompat.Hlsl

open Lib

namespace Lexer

/-- The tokens of a source that is one token. -/
def single (kind : TokenKind) (src : List UInt8) : List Token :=
  [⟨kind, ⟨0, src.length⟩⟩, ⟨.eof, ⟨src.length, src.length⟩⟩]

def digit (b : UInt8) : Nat := (hexDigit (chr b)).getD 0

/-- The number that digits are in a base. -/
def value (base : Nat) (digits : List UInt8) : Nat :=
  Nat.ofDigits base (digits.map digit).reverse

/-- A numeric literal, without its suffix. -/
inductive Numeral
  | decimal (digits : List UInt8)
  | hex (x : UInt8) (digits : List UInt8)
  | float (text : List UInt8) (bits : BitVec 64)
  deriving DecidableEq

namespace Numeral

def bytes : Numeral → List UInt8
  | decimal digits => digits
  | hex x digits => 0x30 :: x :: digits
  | float text _ => text

def Ok : Numeral → Prop
  | decimal digits => digits ≠ [] ∧ (∀ b ∈ digits, isAsciiDigit b) ∧ value 10 digits < 2 ^ 64
  | hex x digits => (chr x = 'x' ∨ chr x = 'X') ∧ digits ≠ [] ∧
      (∀ b ∈ digits, isAsciiHexdigit b) ∧ value 16 digits < 2 ^ 64
  | float text bits => lex text = .ok (single (.floatLiteral bits) text)

def Suffix : Numeral → UInt8 → Prop
  | decimal _, s => chr s = 'u' ∨ chr s = 'U'
  | hex _ _, s => chr s = 'u' ∨ chr s = 'U'
  | float _ _, s => chr s = 'f' ∨ chr s = 'F'

/-- What the literal is with its suffix. -/
def kind : Numeral → TokenKind
  | decimal digits => .uintLiteral (BitVec.ofNat 64 (value 10 digits))
  | hex _ digits => .uintLiteral (BitVec.ofNat 64 (value 16 digits))
  | float _ bits => .floatLiteral bits

def IsHex : Numeral → Prop
  | hex _ _ => True
  | _ => False

instance : (n : Numeral) → Decidable n.Ok
  | decimal digits => inferInstanceAs (Decidable (digits ≠ [] ∧ _ ∧ _))
  | hex x digits => inferInstanceAs (Decidable ((chr x = 'x' ∨ chr x = 'X') ∧ digits ≠ [] ∧ _ ∧ _))
  | float text bits =>
      inferInstanceAs (Decidable (lex text = .ok (single (.floatLiteral bits) text)))

instance : (n : Numeral) → (s : UInt8) → Decidable (n.Suffix s)
  | decimal _, s => inferInstanceAs (Decidable (chr s = 'u' ∨ chr s = 'U'))
  | hex _ _, s => inferInstanceAs (Decidable (chr s = 'u' ∨ chr s = 'U'))
  | float _ _, s => inferInstanceAs (Decidable (chr s = 'f' ∨ chr s = 'F'))

end Numeral

/-! ## A source that is one token -/

section

variable {c : UInt8} {cs : List UInt8} {kind : TokenKind} {e : LexError}

theorem skip_none {pos : Nat} (hwhite : ¬ isAsciiWhitespace c) (hslash : chr c ≠ '/') :
    skipWsAndComments pos (c :: cs) = .ok 0 := by
  rw [skipWsAndComments, if_neg hwhite, if_neg fun h => hslash h.1, if_neg fun h => hslash h.1]

theorem lex_of_token (hwhite : ¬ isAsciiWhitespace c) (hslash : chr c ≠ '/')
    (h : token 0 c cs = .ok (kind, (c :: cs).length)) :
    lex (c :: cs) = .ok (single kind (c :: cs)) := by
  unfold lex
  rw [run_token (skip_none hwhite hslash) (List.drop_zero) h, List.drop_length]
  have hskip (pos : Nat) : skipWsAndComments pos [] = .ok 0 := by rw [skipWsAndComments]
  rw [run_eof (hskip _) rfl]
  simp [single, Except.map]

theorem lex_of_error (hwhite : ¬ isAsciiWhitespace c) (hslash : chr c ≠ '/')
    (h : token 0 c cs = .error e) : lex (c :: cs) = .error e :=
  run_error (skip_none hwhite hslash) List.drop_zero h

end

theorem token_of_lex {src : List UInt8} {kind : TokenKind} (h : lex src = .ok (single kind src)) :
    ∃ c cs, src = c :: cs ∧ token 0 c cs = .ok (kind, src.length) := by
  unfold lex at h
  cases hskip : skipWsAndComments 0 src with
  | error e =>
    rw [run_skipError hskip] at h
    cases h
  | ok n =>
    cases hrest : src.drop n with
    | nil =>
      rw [run_eof hskip hrest] at h
      have := congrArg List.length (Except.ok.inj h)
      cases this
    | cons c cs =>
      cases htoken : token (0 + n) c cs with
      | error e =>
        rw [run_error hskip hrest htoken] at h
        cases h
      | ok r =>
        obtain ⟨kind', k⟩ := r
        rw [run_token hskip hrest htoken] at h
        obtain ⟨ts, -, htokens⟩ := map_ok h
        obtain ⟨hkind, hspan⟩ := Token.mk.inj (List.cons.inj htokens).1
        obtain ⟨hstart, hstop⟩ := Span.mk.inj hspan
        have hn : n = 0 := by omega
        have hk : k = src.length := by omega
        subst hn hk hkind
        exact ⟨c, cs, hrest, htoken⟩

/-! ## What parses -/

/-- A character of a decimal number. -/
def InDecimal (c : Char) : Prop := c.isDigit ∨ c ∈ ['.', 'e', 'E', '+', '-']

theorem digitsValue_digits {s : List Char} {n v : Nat} (h : digitsValue s n = some v) :
    ∀ c ∈ s, c.isDigit := by
  induction s generalizing n with
  | nil => simp
  | cons c s ih =>
    unfold digitsValue at h
    split at h
    case isTrue hc =>
      exact List.forall_mem_cons.mpr ⟨hc, ih h⟩
    case isFalse => cases h

theorem splitSign_mem {s : List Char} (h : ∀ c ∈ (splitSign s).2, InDecimal c) :
    ∀ c ∈ s, InDecimal c := by
  unfold splitSign at h
  split at h
  case h_1 s =>
    exact List.forall_mem_cons.mpr ⟨Or.inr (by simp), h⟩
  case h_2 s =>
    exact List.forall_mem_cons.mpr ⟨Or.inr (by simp), h⟩
  case h_3 => exact h

theorem parseUnsigned_mem {bound v : Nat} {s : List Char} (h : parseUnsigned bound s = some v) :
    ∀ c ∈ s, InDecimal c := by
  unfold parseUnsigned at h
  dsimp only at h
  split at h
  case h_1 rest =>
    split at h
    case isTrue => cases h
    case isFalse =>
      have hdigits := digitsValue_digits (Option.filter_eq_some_iff.mp h).1
      exact List.forall_mem_cons.mpr ⟨Or.inr (by simp), fun c hc => Or.inl (hdigits c hc)⟩
  case h_2 =>
    split at h
    case isTrue => cases h
    case isFalse =>
      have hdigits := digitsValue_digits (Option.filter_eq_some_iff.mp h).1
      exact fun c hc => Or.inl (hdigits c hc)

theorem parseExponent_mem {s : List Char} {e : Int} (h : parseExponent s = some e) :
    ∀ c ∈ s, InDecimal c := by
  cases s with
  | nil => simp
  | cons c s =>
    unfold parseExponent at h
    dsimp only at h
    split at h
    case isTrue hc =>
      by_cases hnil : (splitSign s).2 = []
      · rw [if_pos hnil] at h
        cases h
      · rw [if_neg hnil] at h
        obtain ⟨n, hn, -⟩ := Option.map_eq_some_iff.mp h
        refine List.forall_mem_cons.mpr
          ⟨Or.inr ?_, splitSign_mem fun c hc => Or.inl (digitsValue_digits hn c hc)⟩
        rcases hc with rfl | rfl <;> simp
    case isFalse => cases h

theorem takeWhile_digits_mem (s : List Char) : ∀ c ∈ s.takeWhile Char.isDigit, InDecimal c :=
  fun c hc => Or.inl (List.all_eq_true.mp List.all_takeWhile c hc)

theorem dropWhile_digits_mem {s : List Char}
    (h : ∀ c ∈ s.dropWhile Char.isDigit, InDecimal c) : ∀ c ∈ s, InDecimal c := by
  intro c hc
  rw [← List.takeWhile_append_dropWhile (p := Char.isDigit) (l := s), List.mem_append] at hc
  exact hc.elim (takeWhile_digits_mem s c) (h c)

theorem splitFraction_mem {s : List Char} (h : ∀ c ∈ (splitFraction s).2, InDecimal c) :
    ∀ c ∈ s, InDecimal c := by
  unfold splitFraction at h
  split at h
  case h_1 s =>
    exact List.forall_mem_cons.mpr ⟨Or.inr (by simp), dropWhile_digits_mem h⟩
  case h_2 => exact h

theorem parseDecimal_mem {s : List Char} {bits : BitVec 64} (h : parseDecimal s = some bits) :
    ∀ c ∈ s, InDecimal c := by
  unfold parseDecimal at h
  dsimp only at h
  split at h
  case isTrue => cases h
  case isFalse =>
    split at h
    case h_1 hexponent _ =>
      exact dropWhile_digits_mem (splitFraction_mem (parseExponent_mem hexponent))
    case h_2 => cases h

theorem parseF64_mem {c : Char} {s : List Char} {bits : BitVec 64}
    (hc : c.isDigit ∨ c = '.') (h : parseF64 (c :: s) = some bits) :
    ∀ d ∈ c :: s, InDecimal d := by
  have hsign : splitSign (c :: s) = (false, c :: s) := by
    unfold splitSign
    split
    case h_1 heq =>
      cases heq
      exact absurd hc (by decide)
    case h_2 heq =>
      cases heq
      exact absurd hc (by decide)
    case h_3 => rfl
  have hlower : c.toLower = c := by
    unfold Char.toLower
    rw [dif_neg]
    rintro ⟨hA, -⟩
    rcases hc with hc | rfl
    · simp only [Char.isDigit, Bool.and_eq_true, decide_eq_true_eq, UInt32.le_iff_toNat_le,
        ge_iff_le] at hA hc
      have h9 : '9'.val.toNat = 57 := rfl
      have hA' : 'A'.val.toNat = 65 := rfl
      omega
    · exact absurd hA (by decide)
  have hword : parseNonFinite (c :: s) = none := by
    have hi : c ≠ 'i' := by
      rintro rfl
      exact absurd hc (by decide)
    have hn : c ≠ 'n' := by
      rintro rfl
      exact absurd hc (by decide)
    simp [parseNonFinite, hlower, hi, hn]
  unfold parseF64 at h
  rw [hsign] at h
  simp only [hword, Option.none_or, Option.map_eq_some_iff] at h
  obtain ⟨v, hv, -⟩ := h
  exact parseDecimal_mem hv

/-! ## The loop with a byte behind it -/

theorem inDecimal_ascii {b : UInt8} (h : InDecimal (chr b)) : b.toNat < 0x80 := by
  rcases h with h | h
  · refine isIdent_ascii ?_
    simp [isIdent, Char.isAlphanum, h]
  · refine ascii_of_chr rfl ?_
    simp only [List.mem_cons, List.not_mem_nil, or_false] at h
    rcases h with h | h | h | h | h <;> rw [h] <;> decide

theorem decimal_mem (rest : List UInt8) (d e : Bool) :
    ∀ b ∈ rest.take (decimal rest d e).1, InDecimal (chr b) := by
  induction rest, d, e using decimal.induct with
  | case1 => simp
  | case2 c cs d e hc ih =>
    rw [decimal_digit hc, List.take_succ_cons]
    exact List.forall_mem_cons.mpr ⟨Or.inl hc, ih⟩
  | case3 c cs d e hc hdot ih =>
    rw [decimal_dot hc hdot, List.take_succ_cons]
    exact List.forall_mem_cons.mpr ⟨Or.inr (by simp [hdot.1]), ih⟩
  | case4 c d e hc hdot hexp s cs hs ih =>
    rw [decimal_sign hc hdot hexp hs, List.take_succ_cons, List.take_succ_cons]
    simp only [List.forall_mem_cons]
    refine ⟨Or.inr ?_, Or.inr ?_, ih⟩
    · rcases hexp.1 with h | h <;> simp [h]
    · rcases hs with h | h <;> simp [h]
  | case5 c d e hc hdot hexp s cs hs ih =>
    rw [decimal_exp hc hdot hexp hs, List.take_succ_cons]
    refine List.forall_mem_cons.mpr ⟨Or.inr ?_, ih⟩
    rcases hexp.1 with h | h <;> simp [h]
  | case6 c d e hc hdot hexp =>
    rw [decimal_end hc hdot hexp, List.take_succ_cons]
    refine List.forall_mem_cons.mpr ⟨Or.inr ?_, by simp⟩
    rcases hexp.1 with h | h <;> simp [h]
  | case7 c cs d e hc hdot hexp =>
    rw [decimal_stop hc hdot hexp]
    simp

section

variable {s : UInt8} (hs : ¬ InDecimal (chr s))

include hs

theorem decimal_none (d e : Bool) : decimal [s] d e = (0, d, e) := by
  refine decimal_stop ?_ ?_ ?_
  · exact fun h => hs (Or.inl h)
  · exact fun h => hs (Or.inr (by simp [h.1]))
  · rintro ⟨h | h, -⟩ <;> exact hs (Or.inr (by simp [h]))

theorem decimal_append {t : List UInt8} {d e : Bool} (h : (decimal t d e).1 = t.length) :
    decimal (t ++ [s]) d e = decimal t d e := by
  induction t, d, e using decimal.induct with
  | case1 d e => exact decimal_none hs d e
  | case2 c cs d e hc ih =>
    rw [decimal_digit hc] at h ⊢
    rw [List.cons_append, decimal_digit hc, ih (Nat.succ.inj h)]
  | case3 c cs d e hc hdot ih =>
    rw [decimal_dot hc hdot] at h ⊢
    rw [List.cons_append, decimal_dot hc hdot, ih (Nat.succ.inj h)]
  | case4 c d e hc hdot hexp s' cs hs' ih =>
    rw [decimal_sign hc hdot hexp hs'] at h ⊢
    rw [List.cons_append, List.cons_append, decimal_sign hc hdot hexp hs',
      ih (Nat.succ.inj (Nat.succ.inj h))]
  | case5 c d e hc hdot hexp s' cs hs' ih =>
    rw [decimal_exp hc hdot hexp hs'] at h ⊢
    rw [List.cons_append, List.cons_append, decimal_exp hc hdot hexp hs', ← List.cons_append,
      ih (Nat.succ.inj h)]
  | case6 c d e hc hdot hexp =>
    have hsign : ¬ (chr s = '+' ∨ chr s = '-') := by
      rintro (h | h) <;> exact hs (Or.inr (by simp [h]))
    rw [decimal_end hc hdot hexp, List.singleton_append, decimal_exp hc hdot hexp hsign,
      decimal_none hs]
  | case7 c cs d e hc hdot hexp =>
    rw [decimal_stop hc hdot hexp] at h
    cases h

end

theorem decimal_digits {t : List UInt8} (h : ∀ b ∈ t, isAsciiDigit b) (d e : Bool) :
    decimal t d e = (t.length, d, e) := by
  induction t with
  | nil => rfl
  | cons c cs ih =>
    simp only [List.forall_mem_cons] at h
    rw [decimal_digit h.1, ih h.2]
    rfl

/-! ## Numbers -/

section

variable {start m n : Nat} {rest : List UInt8} {hadDot hadExp : Bool} {bits : BitVec 64}

theorem number_uintError (hhex : ¬ HexStart rest)
    (hdecimal : decimal rest false false = (m, false, false))
    (hsuffix : consumeUintSuffix (rest.drop m))
    (hparse : parseU64 (str (rest.take (m + 1))).toList = none) :
    number start rest = .error ⟨⟨start, start + (m + 1)⟩, "invalid integer literal"⟩ := by
  unfold number
  rw [if_neg hhex, hdecimal]
  simp only [Bool.or_self, Bool.false_eq_true, if_false, hsuffix, if_true, hparse]

theorem number_floatError (hhex : ¬ HexStart rest)
    (hdecimal : decimal rest false false = (m, hadDot, hadExp)) (hfloat : hadDot || hadExp)
    (hsuffix : consumeFloatSuffix (rest.drop m) = 1)
    (hparse : parseF64 (str (rest.take (m + 1))).toList = none) :
    number start rest = .error ⟨⟨start, start + (m + 1)⟩, "invalid float literal"⟩ := by
  unfold number
  rw [if_neg hhex, hdecimal]
  simp only [hfloat, if_true, hsuffix, hparse]

theorem number_float (h : number start rest = .ok (.floatLiteral bits, n)) :
    ¬ HexStart rest ∧ ∃ m d e, decimal rest false false = (m, d, e) ∧ (d || e) ∧
      n = m + consumeFloatSuffix (rest.drop m) ∧
      parseF64 (str (rest.take n)).toList = some bits := by
  rcases number_ok h with ⟨-, ⟨val, hkind⟩, -⟩ | ⟨hhex, m, d, e, hdecimal, hrest⟩
  · rcases hkind with hkind | hkind <;> cases hkind
  · rcases hrest with ⟨hfloat, hn, bits', hkind, hparse⟩ | ⟨⟨val, hkind⟩, -⟩
    · cases hkind
      exact ⟨hhex, m, d, e, hdecimal, hfloat, hn, hparse⟩
    · rcases hkind with hkind | hkind <;> cases hkind

end

theorem op_text {start : Nat} {c : UInt8} {cs : List UInt8} {kind : TokenKind} {n : Nat}
    (h : op start c cs = .ok (kind, n)) : kind.text ≠ none := by
  rcases op_ok h with ⟨d, ds, -, -, htwo⟩ | ⟨-, hone⟩
  · simp [(twoChar_text _ htwo).1]
  · simp [(oneChar_text _ hone).1]

theorem token_number {start : Nat} {c : UInt8} {cs : List UInt8} {kind : TokenKind} {n : Nat}
    (h : token start c cs = .ok (kind, n)) (htext : kind.text = none) :
    (isAsciiDigit c ∨ chr c = '.' ∧ (cs.head?.any isAsciiDigit)) ∧
      number start (c :: cs) = .ok (kind, n) := by
  unfold token at h
  split at h
  case isTrue hc => exact ⟨hc, h⟩
  case isFalse =>
    split at h
    case isTrue => cases h
    case isFalse =>
      split at h
      case isTrue =>
        have hkind := (Prod.mk.inj (Except.ok.inj h)).1
        have hword := (classifyIdent_text (str ((c :: cs).take (count isIdent (c :: cs))))).1
        rw [← hkind] at htext
        cases hword.symm.trans htext
      case isFalse => exact absurd htext (op_text h)

/-- A byte that a number begins with begins nothing else. -/
theorem numberStart {c : UInt8} (h : isAsciiDigit c ∨ chr c = '.') :
    ¬ isAsciiWhitespace c ∧ chr c ≠ '/' := by
  unfold isAsciiDigit at h
  constructor
  · intro hwhite
    simp only [isAsciiWhitespace, Bool.or_eq_true, decide_eq_true_eq] at hwhite
    rcases hwhite with (((rfl | rfl) | rfl) | rfl) | rfl <;> exact absurd h (by decide)
  · intro hslash
    rw [hslash] at h
    exact absurd h (by decide)

/-! ## Suffixes -/

theorem notInDecimal_u {c : Char} (h : c = 'u' ∨ c = 'U') : ¬ InDecimal c := by
  rcases h with rfl | rfl <;> simp [InDecimal]

theorem notInDecimal_f {c : Char} (h : c = 'f' ∨ c = 'F') : ¬ InDecimal c := by
  rcases h with rfl | rfl <;> simp [InDecimal]

theorem str_inDecimal {bytes : List UInt8} {s : UInt8} (hall : ∀ b ∈ bytes, InDecimal (chr b))
    (hs : s.toNat < 0x80) : (str (bytes ++ [s])).toList = bytes.map chr ++ [chr s] := by
  rw [str_ascii, List.map_append]
  · rfl
  · intro b hb
    rcases List.mem_append.mp hb with hb | hb
    · exact inDecimal_ascii (hall b hb)
    · rw [List.mem_singleton.mp hb]
      exact hs

theorem parseF64_none {c s : UInt8} {cs : List UInt8} (hc : isAsciiDigit c ∨ chr c = '.')
    (hall : ∀ b ∈ c :: cs, InDecimal (chr b)) (hs : s.toNat < 0x80) (hnot : ¬ InDecimal (chr s)) :
    parseF64 (str (c :: cs ++ [s])).toList = none := by
  rw [str_inDecimal hall hs, List.map_cons, List.cons_append, ← Option.not_isSome_iff_eq_none]
  intro hsome
  obtain ⟨bits, hbits⟩ := Option.isSome_iff_exists.mp hsome
  exact hnot (parseF64_mem hc hbits _ (by simp))

theorem hexStart_append {c s : UInt8} {cs : List UInt8} (hs : chr s ≠ 'x' ∧ chr s ≠ 'X')
    (h : HexStart (c :: cs ++ [s])) : HexStart (c :: cs) := by
  cases cs with
  | nil =>
    rcases h.2 with hx | hX
    · exact absurd (Option.some.inj hx) hs.1
    · exact absurd (Option.some.inj hX) hs.2
  | cons d ds => exact h

variable {digits : List UInt8}

/-- The suffix is parsed with the digits. -/
theorem decimal_suffix {s : UInt8} (hne : digits ≠ []) (hdigits : ∀ b ∈ digits, isAsciiDigit b)
    (hs : chr s = 'u' ∨ chr s = 'U') :
    lex (digits ++ [s]) =
      .error ⟨⟨0, digits.length + 1⟩, "invalid integer literal"⟩ := by
  have hnot := notInDecimal_u hs
  have hascii : s.toNat < 0x80 := by
    rcases hs with h | h <;> exact ascii_of_chr h (by decide)
  have hdecimal : decimal (digits ++ [s]) false false = (digits.length, false, false) := by
    have hall := decimal_digits hdigits false false
    rw [decimal_append hnot (by rw [hall]), hall]
  have hsuffix : consumeUintSuffix ((digits ++ [s]).drop digits.length) := by
    rw [List.drop_left]
    simpa [consumeUintSuffix, peek] using hs
  have hparse : parseU64 (str ((digits ++ [s]).take (digits.length + 1))).toList = none := by
    have hlen : (digits ++ [s]).length ≤ digits.length + 1 := by simp
    rw [List.take_of_length_le hlen, str_inDecimal (fun b hb => Or.inl (hdigits b hb)) hascii]
    unfold parseU64
    rw [Option.map_eq_none_iff, ← Option.not_isSome_iff_eq_none]
    intro hsome
    obtain ⟨v, hv⟩ := Option.isSome_iff_exists.mp hsome
    exact hnot (parseUnsigned_mem hv _ (by simp))
  obtain ⟨c, cs, rfl⟩ := List.exists_cons_of_ne_nil hne
  have hc : isAsciiDigit c := hdigits c List.mem_cons_self
  have hhex : ¬ HexStart (c :: cs ++ [s]) := by
    intro h
    have hx := (hexStart_append (by rcases hs with h | h <;> rw [h] <;> decide) h).2
    obtain ⟨b, bs, hcs, hb⟩ : ∃ b bs, cs = b :: bs ∧ (chr b = 'x' ∨ chr b = 'X') := by
      rcases hx with hx | hx <;> obtain ⟨b, bs, hcs, hb⟩ := peek_some hx
      · exact ⟨b, bs, hcs, Or.inl hb⟩
      · exact ⟨b, bs, hcs, Or.inr hb⟩
    have hdigit : (chr b).isDigit := hdigits b (by simp [hcs])
    rcases hb with hb | hb <;> rw [hb] at hdigit <;> exact absurd hdigit (by decide)
  have hstart := numberStart (Or.inl hc)
  refine lex_of_error hstart.1 hstart.2 ?_
  unfold token
  rw [if_pos (Or.inl hc)]
  exact (number_uintError hhex hdecimal hsuffix hparse).trans (by simp)

theorem float_suffix {text : List UInt8} {bits : BitVec 64} {s : UInt8}
    (htext : lex text = .ok (single (.floatLiteral bits) text))
    (hs : chr s = 'f' ∨ chr s = 'F') :
    lex (text ++ [s]) = .error ⟨⟨0, text.length + 1⟩, "invalid float literal"⟩ := by
  have hnot := notInDecimal_f hs
  have hascii : s.toNat < 0x80 := by
    rcases hs with h | h <;> exact ascii_of_chr h (by decide)
  obtain ⟨c, cs, rfl, htoken⟩ := token_of_lex htext
  obtain ⟨hc, hnumber⟩ := token_number htoken rfl
  have hc' : isAsciiDigit c ∨ chr c = '.' := hc.imp_right And.left
  obtain ⟨hhex, m, d, e, hdecimal, hfloat, hlen, hparse⟩ := number_float hnumber
  have hall := decimal_mem (c :: cs) false false
  have hpos := @decimal_pos c cs hc'
  rw [hdecimal] at hall hpos
  -- The literal itself has no suffix: it would not have parsed.
  have hm : m = (c :: cs).length := by
    unfold consumeFloatSuffix at hlen
    split at hlen
    case isTrue hf =>
      obtain ⟨b, bs, hdrop, hb⟩ :
          ∃ b bs, (c :: cs).drop m = b :: bs ∧ (chr b = 'f' ∨ chr b = 'F') := by
        rcases hf with hf | hf <;> obtain ⟨b, bs, hdrop, hb⟩ := peek_some hf
        · exact ⟨b, bs, hdrop, Or.inl hb⟩
        · exact ⟨b, bs, hdrop, Or.inr hb⟩
      have hbs : bs = [] := by
        have := congrArg List.length hdrop
        rw [List.length_drop, hlen, List.length_cons] at this
        exact List.length_eq_zero_iff.mp (by omega)
      obtain ⟨k, rfl⟩ : ∃ k, m = k + 1 := ⟨m - 1, by omega⟩
      have hsplit : c :: cs = c :: cs.take k ++ [b] := by
        rw [← hbs, ← hdrop]
        exact (List.take_append_drop (k + 1) (c :: cs)).symm
      have hbascii : b.toNat < 0x80 := by
        rcases hb with h | h <;> exact ascii_of_chr h (by decide)
      have hnone := parseF64_none hc' hall hbascii (notInDecimal_f hb)
      rw [← hsplit] at hnone
      rw [List.take_length, hnone] at hparse
      cases hparse
    case isFalse => exact hlen.symm
  rw [hm, List.take_length] at hall
  have hdecimal' : decimal (c :: cs ++ [s]) false false = ((c :: cs).length, d, e) := by
    rw [decimal_append hnot (by rw [hdecimal, hm]), hdecimal, hm]
  have hsuffix : consumeFloatSuffix ((c :: cs ++ [s]).drop (c :: cs).length) = 1 := by
    rw [List.drop_left]
    exact if_pos (by simpa [peek] using hs)
  have hparse' : parseF64 (str ((c :: cs ++ [s]).take ((c :: cs).length + 1))).toList = none := by
    have hlen : (c :: cs ++ [s]).length ≤ (c :: cs).length + 1 := by simp
    rw [List.take_of_length_le hlen]
    exact parseF64_none hc' hall hascii hnot
  have hhex' : ¬ HexStart (c :: cs ++ [s]) := fun h =>
    hhex (hexStart_append (by rcases hs with h | h <;> rw [h] <;> decide) h)
  have hstart := numberStart hc'
  refine lex_of_error hstart.1 hstart.2 ?_
  unfold token
  rw [if_pos]
  · exact (number_floatError hhex' hdecimal' hfloat hsuffix hparse').trans (by simp)
  · refine hc.imp_right fun h => ⟨h.1, ?_⟩
    cases cs with
    | nil => exact absurd h.2 (by simp)
    | cons b bs => exact h.2

/-! ## Hexadecimal literals -/

theorem hexDigit_eq {b : UInt8} (h : isAsciiHexdigit b) : hexDigit (chr b) = some (digit b) := by
  have hsome : (hexDigit (chr b)).isSome := by
    unfold hexDigit
    split
    case isTrue => rfl
    case isFalse hdigit =>
      split
      case isTrue => rfl
      case isFalse hlower =>
        split
        case isTrue => rfl
        case isFalse hupper => simp [isAsciiHexdigit, hdigit, hlower, hupper] at h
  unfold digit
  rw [Option.getD_of_ne_none (Option.isSome_iff_ne_none.mp hsome)]

/-- The digits are read from the front, with what is read before them. -/
theorem hexValue_eq (h : ∀ b ∈ digits, isAsciiHexdigit b) (n : Nat) :
    hexValue (digits.map chr) n = some (16 ^ digits.length * n + value 16 digits) := by
  induction digits generalizing n with
  | nil => simp [hexValue, value]
  | cons b digits ih =>
    simp only [List.forall_mem_cons] at h
    rw [List.map_cons, hexValue, hexDigit_eq h.1, Option.bind_some, ih h.2]
    unfold value
    rw [List.map_cons, Nat.ofDigits_reverse_cons, List.length_map, List.length_cons, Nat.pow_succ]
    congr 1
    ring

theorem parseHex_eq (hne : digits ≠ []) (h : ∀ b ∈ digits, isAsciiHexdigit b)
    (hvalue : value 16 digits < 2 ^ 64) :
    parseHex (digits.map chr) = some (BitVec.ofNat 64 (value 16 digits)) := by
  obtain ⟨c, cs, rfl⟩ := List.exists_cons_of_ne_nil hne
  have hplus : chr c ≠ '+' := by
    intro hc
    have hdigit := h c List.mem_cons_self
    simp [isAsciiHexdigit, hc] at hdigit
  have hvalues := hexValue_eq h 0
  rw [Nat.mul_zero, Nat.zero_add] at hvalues
  unfold parseHex
  dsimp only
  split
  case h_1 heq => exact absurd (List.cons.inj heq).1 hplus
  case h_2 =>
    rw [if_neg (by simp), hvalues, Option.filter_some, if_pos (decide_eq_true hvalue),
      Option.map_some]

theorem isAsciiHexdigit_ascii {b : UInt8} (h : isAsciiHexdigit b) : b.toNat < 0x80 := by
  simp only [isAsciiHexdigit, Bool.or_eq_true, Bool.and_eq_true, decide_eq_true_eq] at h
  refine ascii_of_chr rfl ?_
  rcases h with (hdigit | hlower) | hupper
  · have hident : isIdent b := by simp [isIdent, Char.isAlphanum, hdigit]
    rw [chr, Utf8.toNat_charOfNat (Nat.lt_trans b.toNat_lt (by decide))]
    exact isIdent_ascii hident
  · exact Nat.lt_of_le_of_lt (UInt32.le_iff_toNat_le.mp hlower.2) (by decide)
  · exact Nat.lt_of_le_of_lt (UInt32.le_iff_toNat_le.mp hupper.2) (by decide)

theorem number_hex {start n : Nat} {rest : List UInt8} {val : BitVec 64} (hhex : HexStart rest)
    (hcount : count isAsciiHexdigit (rest.drop 2) = n) (hn : n ≠ 0)
    (hsuffix : consumeUintSuffix (rest.drop (2 + n)))
    (hparse : parseHex (str ((rest.drop 2).take n)).toList = some val) :
    number start rest = .ok (.uintLiteral val, 2 + n + 1) := by
  unfold number
  rw [if_pos hhex, hcount]
  simp only [hn, if_false, hsuffix, if_true, hparse]

/-- The digits are parsed without the suffix. -/
theorem hex_suffix {x s : UInt8} (hx : chr x = 'x' ∨ chr x = 'X') (hne : digits ≠ [])
    (hdigits : ∀ b ∈ digits, isAsciiHexdigit b) (hvalue : value 16 digits < 2 ^ 64)
    (hs : chr s = 'u' ∨ chr s = 'U') :
    lex (0x30 :: x :: digits ++ [s]) =
      .ok (single (.uintLiteral (BitVec.ofNat 64 (value 16 digits)))
        (0x30 :: x :: digits ++ [s])) := by
  have hnot : ¬ isAsciiHexdigit s := by
    unfold isAsciiHexdigit
    rcases hs with h | h <;> rw [h] <;> decide
  have hhex : HexStart (0x30 :: x :: digits ++ [s]) := by
    refine ⟨rfl, ?_⟩
    rcases hx with h | h
    · exact Or.inl (congrArg some h)
    · exact Or.inr (congrArg some h)
  have hcount : count isAsciiHexdigit ((0x30 :: x :: digits ++ [s]).drop 2) = digits.length := by
    unfold count
    change ((digits ++ [s]).takeWhile isAsciiHexdigit).length = digits.length
    rw [List.takeWhile_append_of_pos hdigits, List.takeWhile_cons_of_neg hnot, List.append_nil]
  have hsuffix : consumeUintSuffix ((0x30 :: x :: digits ++ [s]).drop (2 + digits.length)) := by
    rw [← List.drop_drop]
    change consumeUintSuffix ((digits ++ [s]).drop digits.length)
    rw [List.drop_left]
    simpa [consumeUintSuffix, peek] using hs
  have hparse : parseHex (str (((0x30 :: x :: digits ++ [s]).drop 2).take digits.length)).toList =
      some (BitVec.ofNat 64 (value 16 digits)) := by
    change parseHex (str ((digits ++ [s]).take digits.length)).toList = _
    rw [List.take_left, str_ascii fun b hb => isAsciiHexdigit_ascii (hdigits b hb)]
    exact parseHex_eq hne hdigits hvalue
  refine lex_of_token (by decide) (by decide) ?_
  unfold token
  rw [if_pos (Or.inl (by decide))]
  refine (number_hex hhex hcount (by simpa using hne) hsuffix hparse).trans ?_
  have hlen : 2 + digits.length + 1 = (0x30 :: x :: digits ++ [s]).length := by
    simp only [List.length_append, List.length_cons, List.length_nil]
    omega
  rw [hlen]
  rfl

/-! ## The suffixes that are read -/

/-- A literal with a suffix is the one token it should be if and only if it is hexadecimal: only
    there does the lexer take the suffix off before it parses the digits. -/
theorem suffixed_iff_hex {n : Numeral} {s : UInt8} (hn : n.Ok) (hs : n.Suffix s) :
    lex (n.bytes ++ [s]) = .ok (single n.kind (n.bytes ++ [s])) ↔ n.IsHex := by
  cases n with
  | decimal digits =>
    have herror := decimal_suffix hn.1 hn.2.1 hs
    simp [Numeral.IsHex, Numeral.bytes, herror]
  | hex x digits =>
    have hok := hex_suffix hn.1 hn.2.1 hn.2.2.1 hn.2.2.2 hs
    simp only [Numeral.IsHex, Numeral.bytes, Numeral.kind, iff_true]
    exact hok
  | float text bits =>
    have herror := float_suffix hn hs
    simp [Numeral.IsHex, Numeral.bytes, herror]

/-- `0x1Au`. -/
theorem suffixed_iff_hex_1A :
    lex [48, 120, 49, 65, 117] = .ok (single (.uintLiteral 26) [48, 120, 49, 65, 117]) := by
  have h := @suffixed_iff_hex (.hex 120 [49, 65]) 117 (by decide +kernel) (by decide)
  exact h.mpr trivial

/-- `1u` and `1.5f`. The numbers are read without their suffixes. -/
theorem suffixes_not_read :
    ((Numeral.decimal [49]).Ok ∧ (Numeral.decimal [49]).Suffix 117 ∧
        lex [49, 117] = .error ⟨⟨0, 2⟩, "invalid integer literal"⟩) ∧
      (Numeral.float [49, 46, 53] 0x3FF8000000000000).Ok ∧
        (Numeral.float [49, 46, 53] 0x3FF8000000000000).Suffix 102 ∧
        lex [49, 46, 53, 102] = .error ⟨⟨0, 4⟩, "invalid float literal"⟩ := by
  decide +kernel

end Lexer

end WinCompat.Hlsl
