import WinCompat.Lib.Utf16

/-!
# Two orders of UTF-16

Sequences of units are ordered by their units (`unitOrder`). The texts that they are read as are
ordered by their characters, and that is the order of the units too if a surrogate without a partner
counts as U+FFFD and surrogates come after all other units (`compare_decodeLossy`).
-/

namespace WinCompat.Lib.Utf16

/-- By the units. -/
def unitOrder (us vs : List CodeUnit) : Ordering :=
  compare (us.map BitVec.toNat) (vs.map BitVec.toNat)

/-- The place of a unit if surrogates come last. -/
def rank (u : CodeUnit) : Nat :=
  if u.toNat < 0xD800 then u.toNat
  else if u.toNat < 0xE000 then u.toNat + 0x2000
  else u.toNat - 0x800

/-- By the characters. -/
def codePointOrder (us vs : List CodeUnit) : Ordering :=
  compare ((repair us).map rank) ((repair vs).map rank)

variable {u v : CodeUnit} {us vs ws : List CodeUnit} {c c' : Char} {t t' : List Char}

/-! ## Comparing -/

theorem compare_append_left (front as bs : List Nat) :
    compare (front ++ as) (front ++ bs) = compare as bs := by
  induction front with
  | nil => rfl
  | cons a front ih => simp [ih]

theorem compare_cons_lt {a b : Nat} (h : a < b) (as bs : List Nat) :
    compare (a :: as) (b :: bs) = .lt := by
  simp [Nat.compare_eq_lt.mpr h]

theorem compare_cons_gt {a b : Nat} (h : b < a) (as bs : List Nat) :
    compare (a :: as) (b :: bs) = .gt := by
  simp [Nat.compare_eq_gt.mpr h]

/-- The first difference decides. -/
theorem compare_cons_ne {a b : Nat} (h : a ≠ b) (as bs : List Nat) :
    compare (a :: as) (b :: bs) = compare a b := by
  rcases Nat.lt_or_gt_of_ne h with hlt | hgt
  · rw [compare_cons_lt hlt, Nat.compare_eq_lt.mpr hlt]
  · rw [compare_cons_gt hgt, Nat.compare_eq_gt.mpr hgt]

theorem unitOrder_eq_eq : unitOrder us vs = .eq ↔ us = vs := by
  have hinj : Function.Injective (List.map (BitVec.toNat (w := 16))) :=
    List.map_injective_iff.mpr fun _ _ => BitVec.eq_of_toNat_eq
  rw [unitOrder, Std.LawfulEqOrd.compare_eq_iff_eq]
  exact hinj.eq_iff

/-! ## Ranks -/

theorem rank_ofNat {n : Nat} (h : n < 0x10000) :
    rank (BitVec.ofNat 16 n) =
      if n < 0xD800 then n else if n < 0xE000 then n + 0x2000 else n - 0x800 := by
  unfold rank
  rw [BitVec.toNat_ofNat, Nat.mod_eq_of_lt h]

/-! ## Characters -/

theorem rank_high {n : Nat} (h : n < 0x400) : rank (BitVec.ofNat 16 (0xD800 + n)) = 0xF800 + n := by
  rw [rank_ofNat (by omega), if_neg (by omega), if_pos (by omega)]
  omega

theorem rank_low {n : Nat} (h : n < 0x400) : rank (BitVec.ofNat 16 (0xDC00 + n)) = 0xFC00 + n := by
  rw [rank_ofNat (by omega), if_neg (by omega), if_pos (by omega)]
  omega

theorem encodeChar_unit (h : c.toNat < 0x10000) :
    (encodeChar c).map rank = [if c.toNat < 0xD800 then c.toNat else c.toNat - 0x800] := by
  have hvalid : c.toNat < 0xD800 ∨ 0xDFFF < c.toNat ∧ c.toNat < 0x110000 := c.valid
  rw [encodeChar, if_pos h, List.map_singleton, rank_ofNat h]
  by_cases hlow : c.toNat < 0xD800
  · rw [if_pos hlow, if_pos hlow]
  · rw [if_neg hlow, if_neg hlow, if_neg (by omega)]

theorem encodeChar_pair (h : ¬ c.toNat < 0x10000) :
    (encodeChar c).map rank =
      [0xF800 + (c.toNat - 0x10000) / 0x400, 0xFC00 + (c.toNat - 0x10000) % 0x400] := by
  have hvalid : c.toNat < 0xD800 ∨ 0xDFFF < c.toNat ∧ c.toNat < 0x110000 := c.valid
  rw [encodeChar, if_neg h, List.map_cons, List.map_singleton, rank_high (by omega),
    rank_low (by omega)]

theorem compare_encodeChar_lt (h : c.toNat < c'.toNat) (as bs : List Nat) :
    compare ((encodeChar c).map rank ++ as) ((encodeChar c').map rank ++ bs) = .lt := by
  have hvalid : c.toNat < 0xD800 ∨ 0xDFFF < c.toNat ∧ c.toNat < 0x110000 := c.valid
  have hvalid' : c'.toNat < 0xD800 ∨ 0xDFFF < c'.toNat ∧ c'.toNat < 0x110000 := c'.valid
  by_cases hc : c.toNat < 0x10000
  · rw [encodeChar_unit hc]
    by_cases hc' : c'.toNat < 0x10000
    · rw [encodeChar_unit hc']
      apply compare_cons_lt
      split <;> split <;> omega
    · rw [encodeChar_pair hc']
      apply compare_cons_lt
      split <;> omega
  · have hc' : ¬ c'.toNat < 0x10000 := by omega
    rw [encodeChar_pair hc, encodeChar_pair hc']
    rcases Nat.lt_or_ge ((c.toNat - 0x10000) / 0x400) ((c'.toNat - 0x10000) / 0x400) with hlt | hge
    · exact compare_cons_lt (Nat.add_lt_add_left hlt _) _ _
    · have hsame : (c.toNat - 0x10000) / 0x400 = (c'.toNat - 0x10000) / 0x400 := by omega
      have hlt : (c.toNat - 0x10000) % 0x400 < (c'.toNat - 0x10000) % 0x400 := by omega
      rw [hsame, List.cons_append, List.cons_append]
      refine (compare_append_left [_] _ _).trans ?_
      exact compare_cons_lt (Nat.add_lt_add_left hlt _) _ _

theorem compare_encode (t t' : List Char) :
    compare (t.map Char.toNat) (t'.map Char.toNat) =
      compare ((encode t).map rank) ((encode t').map rank) := by
  have hunits (c : Char) : ∃ a as, (encodeChar c).map rank = a :: as := by
    rcases encodeChar_cases c with ⟨u, -, hunit, -⟩ | ⟨u, v, -, -, hpair, -⟩
    · exact ⟨_, _, congrArg (List.map rank) hunit⟩
    · exact ⟨_, _, congrArg (List.map rank) hpair⟩
  induction t generalizing t' with
  | nil =>
    cases t' with
    | nil => rfl
    | cons c' t' =>
      obtain ⟨a, as, hc'⟩ := hunits c'
      rw [encode_cons, List.map_append, hc']
      rfl
  | cons c t ih =>
    cases t' with
    | nil =>
      obtain ⟨a, as, hc⟩ := hunits c
      rw [encode_cons, List.map_append, hc]
      rfl
    | cons c' t' =>
      rw [encode_cons, encode_cons, List.map_append, List.map_append, List.map_cons, List.map_cons]
      rcases Nat.lt_trichotomy c.toNat c'.toNat with hlt | heq | hgt
      · rw [compare_encodeChar_lt hlt, compare_cons_lt hlt]
      · obtain rfl : c = c' := Char.toNat_inj.mp heq
        rw [compare_append_left, List.compare_cons_cons, Nat.compare_eq_eq.mpr rfl]
        exact ih t'
      · rw [compare_cons_gt hgt, Std.OrientedOrd.eq_swap, compare_encodeChar_lt hgt]
        rfl

theorem compare_decodeLossy (us vs : List CodeUnit) :
    compare ((decodeLossy us).map Char.toNat) ((decodeLossy vs).map Char.toNat) =
      codePointOrder us vs := by
  rw [compare_encode, encode_decodeLossy, encode_decodeLossy, codePointOrder]

end WinCompat.Lib.Utf16
