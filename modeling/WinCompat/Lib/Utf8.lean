import Mathlib.Data.BitVec

/-!
# UTF-8

The bytes of a text, and the text that any bytes are read as: a sequence that is broken off or can
never be one is read as U+FFFD, once for as much of it as could have begun a character.
-/

namespace WinCompat.Lib.Utf8

def encode (t : List Char) : List UInt8 := t.flatMap String.utf8EncodeChar

/-- A character that is being read: its bits so far, how many bytes are missing, and between which
    bytes the next one has to be. -/
structure Partly where
  bits : Nat
  missing : Nat
  low : UInt8
  high : UInt8

inductive Read
  | done (c : Char)
  | more (p : Partly)
  | bad

/-- The first byte of a character. -/
def begin_ (b : UInt8) : Read :=
  let bits := b.toNat
  if b < 0x80 then .done (Char.ofNat bits)
  else if b < 0xC2 then .bad
  else if b < 0xE0 then .more ⟨bits - 0xC0, 1, 0x80, 0xBF⟩
  else if b = 0xE0 then .more ⟨0, 2, 0xA0, 0xBF⟩
  else if b = 0xED then .more ⟨0xD, 2, 0x80, 0x9F⟩
  else if b < 0xF0 then .more ⟨bits - 0xE0, 2, 0x80, 0xBF⟩
  else if b = 0xF0 then .more ⟨0, 3, 0x90, 0xBF⟩
  else if b < 0xF4 then .more ⟨bits - 0xF0, 3, 0x80, 0xBF⟩
  else if b = 0xF4 then .more ⟨4, 3, 0x80, 0x8F⟩
  else .bad

/-- A further byte. -/
def Partly.next (p : Partly) (b : UInt8) : Read :=
  if b < p.low ∨ p.high < b then .bad
  else
    let bits := p.bits * 64 + (b.toNat - 0x80)
    if p.missing = 1 then .done (Char.ofNat bits) else .more ⟨bits, p.missing - 1, 0x80, 0xBF⟩

def replacement : Char := '\uFFFD'

def decodeFrom : Option Partly → List UInt8 → List Char
  | none, [] => []
  | some _, [] => [replacement]
  | none, b :: rest =>
      match begin_ b with
      | .done c => c :: decodeFrom none rest
      | .more p => decodeFrom (some p) rest
      | .bad => replacement :: decodeFrom none rest
  | some p, b :: rest =>
      match p.next b with
      | .done c => c :: decodeFrom none rest
      | .more p' => decodeFrom (some p') rest
      | .bad =>
          -- What could have begun a character is replaced, and `b` is read anew.
          replacement ::
            match begin_ b with
            | .done c => c :: decodeFrom none rest
            | .more p' => decodeFrom (some p') rest
            | .bad => replacement :: decodeFrom none rest

def decodeLossy (bytes : List UInt8) : List Char := decodeFrom none bytes

/-- The text that the bytes are, if they are one. -/
def decode? (bytes : List UInt8) : Option String := String.fromUTF8? bytes.toByteArray

theorem decode?_encode (t : List Char) : decode? (encode t) = some (String.ofList t) := by
  have hbytes : (encode t).toByteArray = (String.ofList t).toByteArray := by
    rw [String.toByteArray_ofList]
    rfl
  unfold decode? String.fromUTF8?
  rw [hbytes, dif_pos (String.ofList t).isValidUTF8]
  rfl

/-! ## Bytes and characters of ASCII -/

variable {b : UInt8} {c c' : Char} {t : List Char}

/-- Every byte of a character that is not in ASCII has its high bit set. -/
theorem high_of_mem_encodeChar (hc : 0x80 ≤ c.toNat) (h : b ∈ String.utf8EncodeChar c) :
    0x80 ≤ b.toNat := by
  have hval : ¬ c.val.toNat ≤ 0x7F := by
    intro hle
    exact absurd (Nat.lt_of_lt_of_le (Nat.lt_succ_of_le hle) hc) (Nat.lt_irrefl _)
  have hbyte (n m k : Nat) (hk : 128 ≤ k) (hsum : m + k ≤ 256) (hm : 0 < m) :
      128 ≤ (UInt8.ofNat (n % m + k)).toNat := by
    have hmod : n % m < m := Nat.mod_lt n hm
    rw [UInt8.toNat_ofNat', Nat.mod_eq_of_lt (by omega)]
    omega
  unfold String.utf8EncodeChar at h
  simp only [hval, if_false] at h
  split at h <;> [skip; split at h] <;>
    simp only [List.mem_cons, List.not_mem_nil, or_false] at h
  · rcases h with rfl | rfl <;> exact hbyte _ _ _ (by decide) (by decide) (by decide)
  · rcases h with rfl | rfl | rfl <;> exact hbyte _ _ _ (by decide) (by decide) (by decide)
  · rcases h with rfl | rfl | rfl | rfl <;> exact hbyte _ _ _ (by decide) (by decide) (by decide)

theorem encodeChar_ascii (hc : c.toNat < 0x80) :
    String.utf8EncodeChar c = [UInt8.ofNat c.toNat] :=
  if_pos (Nat.le_of_lt_succ hc)

theorem toNat_charOfNat {n : Nat} (h : n < 0xD800) : (Char.ofNat n).toNat = n := by
  have hvalid : n.isValidChar := Or.inl h
  unfold Char.ofNat
  rw [dif_pos hvalid]
  rfl

theorem encode_map_ascii {bytes : List UInt8} (h : ∀ b ∈ bytes, b.toNat < 0x80) :
    encode (bytes.map fun b => Char.ofNat b.toNat) = bytes := by
  induction bytes with
  | nil => rfl
  | cons b bytes ih =>
    have hb := h b List.mem_cons_self
    have hchar := toNat_charOfNat (Nat.lt_trans hb (by decide))
    have hrest := ih fun b' hb' => h b' (List.mem_cons_of_mem _ hb')
    unfold encode at hrest ⊢
    rw [List.map_cons, List.flatMap_cons, hrest, encodeChar_ascii (by omega), hchar]
    simp

theorem toNat_ofNat_ascii {n : Nat} (h : n < 0x80) : (UInt8.ofNat n).toNat = n :=
  UInt8.toNat_ofNat_of_lt' (Nat.lt_trans h (by decide))

theorem mem_encodeChar (hc : c.toNat < 0x80) :
    UInt8.ofNat c.toNat ∈ String.utf8EncodeChar c' ↔ c = c' := by
  constructor
  · intro h
    have hlow : c'.toNat < 0x80 := by
      by_contra hhigh
      have hbyte := high_of_mem_encodeChar (Nat.le_of_not_lt hhigh) h
      rw [toNat_ofNat_ascii hc] at hbyte
      omega
    rw [encodeChar_ascii hlow, List.mem_singleton] at h
    have hnat := congrArg UInt8.toNat h
    rw [toNat_ofNat_ascii hc, toNat_ofNat_ascii hlow] at hnat
    exact Char.ext (UInt32.toNat_inj.mp hnat)
  · intro h
    rw [← h, encodeChar_ascii hc]
    exact List.mem_singleton_self _

theorem mem_encode (hc : c.toNat < 0x80) : UInt8.ofNat c.toNat ∈ encode t ↔ c ∈ t := by
  simp [encode, List.mem_flatMap, mem_encodeChar hc]

theorem encode_append (t t' : List Char) : encode (t ++ t') = encode t ++ encode t' :=
  List.flatMap_append

theorem encode_ne_nil (h : t ≠ []) : encode t ≠ [] := by
  cases t with
  | nil => exact absurd rfl h
  | cons c t =>
    intro hnil
    rw [encode, List.flatMap_cons, List.append_eq_nil_iff] at hnil
    exact String.utf8EncodeChar_ne_nil hnil.1

theorem length_encode_map {f : Char → Char}
    (h : ∀ c, (String.utf8EncodeChar (f c)).length = (String.utf8EncodeChar c).length) :
    (encode (t.map f)).length = (encode t).length := by
  induction t with
  | nil => rfl
  | cons c t ih =>
    rw [List.map_cons, encode, encode, List.flatMap_cons, List.flatMap_cons, List.length_append,
      List.length_append, h]
    exact congrArg _ ih

end WinCompat.Lib.Utf8
