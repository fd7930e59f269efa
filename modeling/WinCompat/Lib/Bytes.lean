import Mathlib.Data.BitVec

/-!
# Little-endian words in a byte-addressed memory

A 64-bit address space whose cells are bytes, and the 64-bit loads and stores over it. Addresses
wrap. A word is determined by its eight bytes (`eq_of_byte`), so what a load returns is settled one
byte at a time (`read64_eq_iff`), and a store is seen through by the distance from its address.
-/

namespace WinCompat.Lib.Bytes

abbrev Byte := BitVec 8
abbrev Word := BitVec 64
abbrev Mem := Word → Byte

/-- Registers are numbered by `Fin 16`. -/
instance neZero_sixteen : NeZero 16 := ⟨by decide⟩

/-- Byte `j` of a word, least significant first. -/
def byte (v : Word) (j : Nat) : Byte := v.extractLsb' (8 * j) 8

/-- `to_le_bytes` of a `u32`. -/
def le32 (v : BitVec 32) : List Byte :=
  [v.extractLsb' 0 8, v.extractLsb' 8 8, v.extractLsb' 16 8, v.extractLsb' 24 8]

/-- `to_le_bytes` of a `u64`. -/
def le64 (v : Word) : List Byte :=
  [byte v 0, byte v 1, byte v 2, byte v 3, byte v 4, byte v 5, byte v 6, byte v 7]

def read64 (m : Mem) (a : Word) : Word :=
  m (a + 7) ++ m (a + 6) ++ m (a + 5) ++ m (a + 4) ++ m (a + 3) ++ m (a + 2) ++ m (a + 1) ++ m a

def write64 (m : Mem) (a v : Word) : Mem := fun x =>
  if (x - a).toNat < 8 then byte v (x - a).toNat else m x

theorem eq_of_byte {v w : Word} (h : ∀ j < 8, byte v j = byte w j) : v = w := by
  apply BitVec.eq_of_getLsbD_eq
  intro i hi
  have hj : i / 8 < 8 := Nat.div_lt_of_lt_mul hi
  have hbit : i % 8 < 8 := Nat.mod_lt i (by decide)
  have hb := congrArg (fun b => BitVec.getLsbD b (i % 8)) (h (i / 8) hj)
  simp only [byte, BitVec.getLsbD_extractLsb', hbit, decide_true, Bool.true_and,
    Nat.div_add_mod] at hb
  exact hb

theorem extract_append_zero {n : Nat} (hi : BitVec n) (lo : Byte) :
    (hi ++ lo).extractLsb' (8 * 0) 8 = lo := by
  apply BitVec.eq_of_getLsbD_eq
  intro i hi
  simp [BitVec.getLsbD_append, hi]

theorem extract_append_succ {n : Nat} (hi : BitVec n) (lo : Byte) (j : Nat) :
    (hi ++ lo).extractLsb' (8 * (j + 1)) 8 = hi.extractLsb' (8 * j) 8 := by
  apply BitVec.eq_of_getLsbD_eq
  intro i hi
  have hlt : ¬ 8 * (j + 1) + i < 8 := by omega
  have hsub : 8 * (j + 1) + i - 8 = 8 * j + i := by omega
  simp only [BitVec.getLsbD_extractLsb', hi, decide_true, Bool.true_and, BitVec.getLsbD_append,
    if_neg hlt, hsub]

theorem byte_read64 (m : Mem) (a : Word) {j : Nat} (hj : j < 8) :
    byte (read64 m a) j = m (a + BitVec.ofNat 64 j) := by
  unfold byte read64
  match j, hj with
  | 0, _ => rw [extract_append_zero, BitVec.add_zero]
  | 1, _ | 2, _ | 3, _ | 4, _ | 5, _ | 6, _ =>
    iterate 6 try rw [extract_append_succ]
    rw [extract_append_zero]
    rfl
  | 7, _ =>
    iterate 7 rw [extract_append_succ]
    exact BitVec.extractLsb'_eq_self

variable {m : Mem}

theorem read64_eq_iff {a v : Word} :
    read64 m a = v ↔ ∀ j < 8, m (a + BitVec.ofNat 64 j) = byte v j := by
  constructor
  · intro h j hj
    rw [← h, byte_read64 m a hj]
  · intro h
    apply eq_of_byte
    intro j hj
    rw [byte_read64 m a hj]
    exact h j hj

theorem append_le32 (v : BitVec 32) :
    v.extractLsb' 24 8 ++ v.extractLsb' 16 8 ++ v.extractLsb' 8 8 ++ v.extractLsb' 0 8 = v := by
  apply BitVec.eq_of_getLsbD_eq
  intro i hi
  simp only [BitVec.getLsbD_append, BitVec.getLsbD_extractLsb']
  by_cases h₀ : i < 8
  · simp [h₀]
  by_cases h₁ : i < 16
  · have : i - 8 < 8 := by omega
    have : 8 + (i - 8) = i := by omega
    simp [*]
  by_cases h₂ : i < 24
  · have : ¬ i - 8 < 8 := by omega
    have : i - 8 - 8 < 8 := by omega
    have : 16 + (i - 8 - 8) = i := by omega
    simp [*]
  · have : ¬ i - 8 < 8 := by omega
    have : ¬ i - 8 - 8 < 8 := by omega
    have : i - 8 - 8 - 8 < 8 := by omega
    have : 24 + (i - 8 - 8 - 8) = i := by omega
    simp [*]

theorem append_le64 (v : Word) :
    byte v 7 ++ byte v 6 ++ byte v 5 ++ byte v 4 ++ byte v 3 ++ byte v 2 ++ byte v 1 ++ byte v 0 =
      v := by
  have h := @read64_eq_iff (fun a => byte v a.toNat) 0#64 v
  simp only [read64, BitVec.zero_add] at h
  apply h.mpr
  intro j hj
  have hlt : j < 2 ^ 64 := Nat.lt_trans hj (by decide)
  rw [BitVec.toNat_ofNat, Nat.mod_eq_of_lt hlt]

/-! ## Stores seen from elsewhere -/

theorem read64_congr {m m' : Mem} {a : Word}
    (h : ∀ j < 8, m' (a + BitVec.ofNat 64 j) = m (a + BitVec.ofNat 64 j)) :
    read64 m' a = read64 m a := by
  apply read64_eq_iff.mpr
  intro j hj
  rw [h j hj, byte_read64 m a hj]

theorem write64_of_le {a v x : Word} (h : 8 ≤ (x - a).toNat) :
    write64 m a v x = m x := if_neg (Nat.not_lt_of_le h)

theorem read64_write64_self (m : Mem) (a v : Word) : read64 (write64 m a v) a = v := by
  apply read64_eq_iff.mpr
  intro j hj
  have hsub : a + BitVec.ofNat 64 j - a = BitVec.ofNat 64 j := by
    rw [BitVec.add_comm, BitVec.add_sub_cancel]
  have hnat : (BitVec.ofNat 64 j).toNat = j := by
    rw [BitVec.toNat_ofNat]
    exact Nat.mod_eq_of_lt (Nat.lt_trans hj (by decide))
  unfold write64
  rw [hsub, hnat, if_pos hj]

/-! ## Offsets from a base -/

/-- The address `k` bytes above `b`. -/
def off (b : Word) (k : Nat) : Word := b + BitVec.ofNat 64 k

@[simp] theorem off_zero (b : Word) : off b 0 = b := BitVec.add_zero b

theorem off_off (b : Word) (k l : Nat) : off (off b k) l = off b (k + l) := by
  unfold off
  rw [BitVec.add_assoc, BitVec.ofNat_add]

theorem off_sub (b : Word) (k d : Nat) : off b (k + d) - BitVec.ofNat 64 d = off b k := by
  unfold off
  rw [BitVec.ofNat_add, ← BitVec.add_assoc, BitVec.add_sub_cancel]

variable {k l : Nat}

theorem off_sub_off (b : Word) (h : l ≤ k) (hk : k < 2 ^ 64) :
    (off b k - off b l).toNat = k - l := by
  have heq : off b k = off (off b l) (k - l) := by
    rw [off_off, Nat.add_sub_cancel' h]
  have hsub : off (off b l) (k - l) - off b l = BitVec.ofNat 64 (k - l) := by
    unfold off
    rw [BitVec.add_comm, BitVec.add_sub_cancel]
  rw [heq, hsub, BitVec.toNat_ofNat]
  exact Nat.mod_eq_of_lt (by omega)

theorem off_sub_off_of_lt (b : Word) (h : k < l) (hl : l < 2 ^ 64) :
    (off b k - off b l).toNat = 2 ^ 64 - (l - k) := by
  have hrev := off_sub_off b (Nat.le_of_lt h) hl
  have hneg : off b k - off b l = -(off b l - off b k) := by
    rw [BitVec.neg_sub, BitVec.add_comm, BitVec.sub_eq_add_neg]
  rw [hneg, BitVec.toNat_neg, hrev]
  exact Nat.mod_eq_of_lt (by omega)

/-- A store is not seen at an offset it does not cover. -/
theorem write64_off {b v : Word} (hdisj : l < k ∨ k + 8 ≤ l) (hk : k + 8 ≤ 2 ^ 64) (hl : l < 2 ^ 64) :
    write64 m (off b k) v (off b l) = m (off b l) := by
  apply write64_of_le
  rcases hdisj with hlt | hle
  · rw [off_sub_off_of_lt b hlt (by omega)]
    omega
  · rw [off_sub_off b (by omega) hl]
    omega

theorem read64_write64_off {b v : Word} (hdisj : l + 8 ≤ k ∨ k + 8 ≤ l) (hk : k + 8 ≤ 2 ^ 64)
    (hl : l + 8 ≤ 2 ^ 64) : read64 (write64 m (off b k) v) (off b l) = read64 m (off b l) := by
  apply read64_congr
  intro j hj
  have heq : off b l + BitVec.ofNat 64 j = off b (l + j) := off_off b l j
  rw [heq]
  apply write64_off
  · omega
  · exact hk
  · omega

/-- The word whose byte `j` is `b` and whose other bytes are 0. -/
def placed (b : Byte) (j : Nat) : Word := b.zeroExtend 64 <<< (8 * j)

theorem byte_placed (b : Byte) {j : Nat} (hj : j < 8) : byte (placed b j) j = b := by
  apply BitVec.eq_of_getLsbD_eq
  intro i hi
  have hlt : 8 * j + i < 64 := by omega
  have hge : ¬ 8 * j + i < 8 * j := by omega
  simp [byte, placed, hi, hlt]

theorem byte_placed_ne (b : Byte) {i j : Nat} (h : i ≠ j) : byte (placed b j) i = 0 := by
  apply BitVec.eq_of_getLsbD_eq
  intro k hk
  simp only [byte, placed, BitVec.getLsbD_extractLsb', hk, decide_true, Bool.true_and,
    BitVec.getLsbD_shiftLeft, BitVec.truncate_eq_setWidth, BitVec.getLsbD_setWidth]
  by_cases hlt : 8 * i + k < 8 * j
  · simp [hlt]
  · have hge : 8 ≤ 8 * i + k - 8 * j := by omega
    simp [BitVec.getLsbD_of_ge _ _ hge]

theorem byte_zero (j : Nat) : byte 0 j = 0 := by
  apply BitVec.eq_of_getLsbD_eq
  intro i hi
  simp [byte]

/-! ## Words of any number of bytes -/

/-- The number that a row of bytes is, least significant first. -/
def leNat (bs : List Byte) : Nat := bs.foldr (fun b acc => acc * 256 + b.toNat) 0

@[simp] theorem leNat_nil : leNat [] = 0 := rfl

@[simp] theorem leNat_cons (b : Byte) (bs : List Byte) :
    leNat (b :: bs) = leNat bs * 256 + b.toNat := rfl

theorem two_pow_succ_byte (n : Nat) : 2 ^ (8 * (n + 1)) = 2 ^ (8 * n) * 256 := by
  rw [Nat.mul_succ, Nat.pow_add]

theorem leNat_lt (bs : List Byte) : leNat bs < 2 ^ (8 * bs.length) := by
  induction bs with
  | nil => simp
  | cons b bs ih =>
    have hb := b.isLt
    rw [leNat_cons, List.length_cons, two_pow_succ_byte]
    omega

theorem leNat_byte (bs : List Byte) : ∀ j : Nat,
    leNat bs / 2 ^ (8 * j) % 2 ^ 8 = (bs.getD j 0).toNat := by
  induction bs with
  | nil =>
    intro j
    simp
  | cons b bs ih =>
    intro j
    have hb := b.isLt
    rw [leNat_cons]
    cases j with
    | zero =>
      simp only [Nat.mul_zero, Nat.pow_zero, Nat.div_one, List.getD_cons_zero]
      omega
    | succ j =>
      have hshift : (leNat bs * 256 + b.toNat) / 256 = leNat bs := by omega
      rw [List.getD_cons_succ, ← ih j, two_pow_succ_byte, Nat.mul_comm (2 ^ (8 * j)),
        ← Nat.div_div_eq_div_mul, hshift]

theorem leNat_concat (bs : List Byte) (b : Byte) :
    leNat (bs ++ [b]) = leNat bs + 2 ^ (8 * bs.length) * b.toNat := by
  induction bs with
  | nil => simp
  | cons c bs ih =>
    rw [List.cons_append, leNat_cons, ih, leNat_cons, List.length_cons, two_pow_succ_byte,
      Nat.add_mul, Nat.mul_right_comm]
    omega

/-- The `width` low bytes of a word, read as a number, are the word modulo its width. -/
theorem leNat_low (v : Word) (width : Nat) :
    leNat ((List.range width).map fun j => byte v j) = v.toNat % 2 ^ (8 * width) := by
  induction width with
  | zero => simp [Nat.mod_one]
  | succ width ih =>
    rw [List.range_succ, List.map_append, List.map_singleton, leNat_concat, ih, List.length_map,
      List.length_range, two_pow_succ_byte, Nat.mod_mul]
    simp [byte, BitVec.extractLsb'_toNat, Nat.shiftRight_eq_div_pow]

theorem byte_congr {v w : Word} {width j : Nat} (hj : j < width)
    (h : v.toNat % 2 ^ (8 * width) = w.toNat % 2 ^ (8 * width)) : byte v j = byte w j := by
  have hlow : ∀ n : Nat, n / 2 ^ (8 * j) % 2 ^ 8 =
      n % 2 ^ (8 * width) / 2 ^ (8 * j) % 2 ^ 8 := by
    intro n
    have hsplit : 8 * width = 8 * j + (8 + 8 * (width - j - 1)) := by omega
    rw [hsplit, Nat.pow_add, Nat.mod_mul_right_div_self, Nat.pow_add 2 8, Nat.mod_mul_right_mod]
  apply BitVec.eq_of_toNat_eq
  simp only [byte, BitVec.extractLsb'_toNat, Nat.shiftRight_eq_div_pow]
  rw [hlow, h, ← hlow]

end WinCompat.Lib.Bytes
