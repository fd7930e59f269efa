import Mathlib.Data.BitVec

/-!
# UTF-16

Sequences of 16-bit code units and the scalar values they stand for. `encode` is total, `decodeLossy`
reads any sequence of units and puts U+FFFD where a surrogate has no partner. The two are inverse on
well-formed sequences, and `repair` is what a sequence looks like after a round trip: so two sequences
are read as the same text exactly when they are the same after `repair` (`decodeLossy_eq_iff`).

Reading goes piece by piece at a separator that is not a surrogate (`decodeLossy_append_cons`,
`decodeLossy_intercalate`).
-/

namespace WinCompat.Lib.Utf16

abbrev CodeUnit := BitVec 16

/-- The first half of a pair, from U+D800. -/
def High (u : CodeUnit) : Prop := 0xD800 ≤ u.toNat ∧ u.toNat < 0xDC00

/-- The second half of a pair, from U+DC00. -/
def Low (u : CodeUnit) : Prop := 0xDC00 ≤ u.toNat ∧ u.toNat < 0xE000

/-- A unit that stands for no character by itself: one of either half. -/
def Surrogate (u : CodeUnit) : Prop := 0xD800 ≤ u.toNat ∧ u.toNat < 0xE000

instance (u : CodeUnit) : Decidable (High u) := inferInstanceAs (Decidable (_ ∧ _))

instance (u : CodeUnit) : Decidable (Low u) := inferInstanceAs (Decidable (_ ∧ _))

instance (u : CodeUnit) : Decidable (Surrogate u) := inferInstanceAs (Decidable (_ ∧ _))

/-- Every surrogate is followed or preceded by its partner. -/
inductive WellFormed : List CodeUnit → Prop
  | nil : WellFormed []
  | unit {u : CodeUnit} {rest : List CodeUnit} (hu : ¬ Surrogate u) (h : WellFormed rest) :
      WellFormed (u :: rest)
  | pair {u v : CodeUnit} {rest : List CodeUnit} (hu : High u) (hv : Low v) (h : WellFormed rest) :
      WellFormed (u :: v :: rest)

/-- A unit on its own; U+FFFD if it is a surrogate. -/
def mend (u : CodeUnit) : CodeUnit := if Surrogate u then 0xFFFD else u

/-- The character of a unit that is read alone. Mending first is what makes it total: the unit of a
    surrogate is no scalar value. -/
def charOf (u : CodeUnit) : Char := Char.ofNat (mend u).toNat

/-- The character from U+10000 that a pair stands for, ten bits from each half. -/
def pairChar (u v : CodeUnit) : Char :=
  Char.ofNat (0x10000 + (u.toNat - 0xD800) * 0x400 + (v.toNat - 0xDC00))

/-- Two units are read as one character exactly when they are a pair in this order; any other
    surrogate costs one U+FFFD and nothing after it is skipped. -/
def decodeLossy : List CodeUnit → List Char
  | [] => []
  | [u] => [charOf u]
  | u :: v :: rest =>
    if High u ∧ Low v then pairChar u v :: decodeLossy rest else charOf u :: decodeLossy (v :: rest)

/-- One unit below U+10000, a pair from there on. -/
def encodeChar (c : Char) : List CodeUnit :=
  if c.toNat < 0x10000 then [BitVec.ofNat 16 c.toNat]
  else [BitVec.ofNat 16 (0xD800 + (c.toNat - 0x10000) / 0x400),
    BitVec.ofNat 16 (0xDC00 + (c.toNat - 0x10000) % 0x400)]

/-- Never fails: a `Char` is a scalar value, so none of them is a surrogate. -/
def encode (t : List Char) : List CodeUnit := t.flatMap encodeChar

/-- The sequence with every surrogate that has no partner mended; pairs stay as they are. -/
def repair : List CodeUnit → List CodeUnit
  | [] => []
  | [u] => [mend u]
  | u :: v :: rest =>
    if High u ∧ Low v then u :: v :: repair rest else mend u :: repair (v :: rest)

variable {u v sep : CodeUnit} {us rest : List CodeUnit} {c : Char} {t : List Char}

/-! ## One unit, one character -/

theorem High.surrogate (h : High u) : Surrogate u := ⟨h.1, Nat.lt_trans h.2 (by decide)⟩

theorem Low.surrogate (h : Low u) : Surrogate u := ⟨Nat.le_trans (by decide) h.1, h.2⟩

theorem mend_of_not_surrogate (h : ¬ Surrogate u) : mend u = u := if_neg h

theorem not_surrogate_mend (u : CodeUnit) : ¬ Surrogate (mend u) := by
  unfold mend
  by_cases h : Surrogate u
  · rw [if_pos h]
    decide
  · rwa [if_neg h]

theorem toNat_ofNat {n : Nat} (h : n.isValidChar) : (Char.ofNat n).toNat = n := by
  rw [Char.ofNat, dif_pos h]
  rfl

theorem isValidChar_unit (h : ¬ Surrogate u) : u.toNat.isValidChar := by
  have hlt := u.isLt
  unfold Surrogate at h
  unfold Nat.isValidChar
  omega

theorem toNat_charOf (u : CodeUnit) : (charOf u).toNat = (mend u).toNat :=
  toNat_ofNat (isValidChar_unit (not_surrogate_mend u))

theorem toNat_pairChar (hu : High u) (hv : Low v) :
    (pairChar u v).toNat = 0x10000 + (u.toNat - 0xD800) * 0x400 + (v.toNat - 0xDC00) := by
  apply toNat_ofNat
  unfold High at hu
  unfold Low at hv
  unfold Nat.isValidChar
  omega

theorem encodeChar_charOf (u : CodeUnit) : encodeChar (charOf u) = [mend u] := by
  have hlt : (mend u).toNat < 0x10000 := (mend u).isLt
  rw [encodeChar, toNat_charOf, if_pos hlt, BitVec.ofNat_toNat, BitVec.setWidth_eq]

theorem encodeChar_pairChar (hu : High u) (hv : Low v) : encodeChar (pairChar u v) = [u, v] := by
  have hchar := toNat_pairChar hu hv
  unfold High at hu
  unfold Low at hv
  have hhigh : BitVec.ofNat 16 (0xD800 + ((pairChar u v).toNat - 0x10000) / 0x400) = u := by
    apply BitVec.eq_of_toNat_eq
    rw [hchar, BitVec.toNat_ofNat]
    omega
  have hlow : BitVec.ofNat 16 (0xDC00 + ((pairChar u v).toNat - 0x10000) % 0x400) = v := by
    apply BitVec.eq_of_toNat_eq
    rw [hchar, BitVec.toNat_ofNat]
    omega
  rw [encodeChar, if_neg (by omega), hhigh, hlow]

/-- What the units of a character are, and that reading them gives the character back. Everything
    about `encode` is proved from these two cases. -/
theorem encodeChar_cases (c : Char) :
    (∃ u, ¬ Surrogate u ∧ encodeChar c = [u] ∧ charOf u = c) ∨
      ∃ u v, High u ∧ Low v ∧ encodeChar c = [u, v] ∧ pairChar u v = c := by
  have hvalid : c.toNat < 0xD800 ∨ 0xDFFF < c.toNat ∧ c.toNat < 0x110000 := c.valid
  unfold encodeChar
  by_cases h : c.toNat < 0x10000
  · refine Or.inl ⟨BitVec.ofNat 16 c.toNat, ?_, if_pos h, ?_⟩
    · unfold Surrogate
      rw [BitVec.toNat_ofNat]
      omega
    · have hunit : ¬ Surrogate (BitVec.ofNat 16 c.toNat) := by
        unfold Surrogate
        rw [BitVec.toNat_ofNat]
        omega
      rw [charOf, mend_of_not_surrogate hunit, BitVec.toNat_ofNat, Nat.mod_eq_of_lt (by omega),
        Char.ofNat_toNat]
  · refine Or.inr ⟨_, _, ?_, ?_, if_neg h, ?_⟩
    · unfold High
      rw [BitVec.toNat_ofNat]
      omega
    · unfold Low
      rw [BitVec.toNat_ofNat]
      omega
    · have hsum : 0x10000 + ((0xD800 + (c.toNat - 0x10000) / 0x400) % 2 ^ 16 - 0xD800) * 0x400 +
          ((0xDC00 + (c.toNat - 0x10000) % 0x400) % 2 ^ 16 - 0xDC00) = c.toNat := by
        omega
      rw [pairChar, BitVec.toNat_ofNat, BitVec.toNat_ofNat, hsum, Char.ofNat_toNat]

/-! ## Reading the first unit -/

theorem decodeLossy_cons (h : ¬ Surrogate u) : decodeLossy (u :: rest) = charOf u :: decodeLossy rest := by
  cases rest with
  | nil => rfl
  | cons v rest => exact if_neg fun hpair => h hpair.1.surrogate

theorem decodeLossy_pair (hu : High u) (hv : Low v) :
    decodeLossy (u :: v :: rest) = pairChar u v :: decodeLossy rest := if_pos ⟨hu, hv⟩

theorem repair_cons (h : ¬ Surrogate u) : repair (u :: rest) = u :: repair rest := by
  cases rest with
  | nil => exact congrArg (fun w => [w]) (mend_of_not_surrogate h)
  | cons v rest =>
    have hunpaired : ¬ (High u ∧ Low v) := fun hpair => h hpair.1.surrogate
    rw [repair, if_neg hunpaired, mend_of_not_surrogate h]

theorem repair_pair (hu : High u) (hv : Low v) : repair (u :: v :: rest) = u :: v :: repair rest :=
  if_pos ⟨hu, hv⟩

theorem encode_cons : encode (c :: t) = encodeChar c ++ encode t := List.flatMap_cons

theorem encode_append (t t' : List Char) : encode (t ++ t') = encode t ++ encode t' :=
  List.flatMap_append

/-! ## There and back -/

/-- What the round trip through text makes of units: it repairs them, and does nothing else. -/
theorem encode_decodeLossy (us : List CodeUnit) : encode (decodeLossy us) = repair us := by
  induction us using decodeLossy.induct with
  | case1 => rfl
  | case2 u => simp [decodeLossy, repair, encode, encodeChar_charOf]
  | case3 u v rest hpair ih =>
    rw [decodeLossy_pair hpair.1 hpair.2, repair_pair hpair.1 hpair.2, encode_cons,
      encodeChar_pairChar hpair.1 hpair.2, ih]
    rfl
  | case4 u v rest hpair ih =>
    rw [decodeLossy, repair, if_neg hpair, if_neg hpair, encode_cons, encodeChar_charOf, ih]
    rfl

/-- Text survives the round trip through units unchanged. -/
theorem decodeLossy_encode (t : List Char) : decodeLossy (encode t) = t := by
  induction t with
  | nil => rfl
  | cons c t ih =>
    rw [encode_cons]
    rcases encodeChar_cases c with ⟨u, hu, hc, rfl⟩ | ⟨u, v, hu, hv, hc, rfl⟩
    · rw [hc, List.singleton_append, decodeLossy_cons hu, ih]
    · rw [hc, List.cons_append, List.singleton_append, decodeLossy_pair hu hv, ih]

theorem encode_injective {t t' : List Char} (h : encode t = encode t') : t = t' := by
  rw [← decodeLossy_encode t, h, decodeLossy_encode]

theorem decodeLossy_eq_iff {us vs : List CodeUnit} :
    decodeLossy us = decodeLossy vs ↔ repair us = repair vs := by
  rw [← encode_decodeLossy us, ← encode_decodeLossy vs]
  exact ⟨congrArg encode, encode_injective⟩

theorem wellFormed_encode (t : List Char) : WellFormed (encode t) := by
  induction t with
  | nil => exact .nil
  | cons c t ih =>
    rw [encode_cons]
    rcases encodeChar_cases c with ⟨u, hu, hc, -⟩ | ⟨u, v, hu, hv, hc, -⟩
    · rw [hc]
      exact .unit hu ih
    · rw [hc]
      exact .pair hu hv ih

theorem wellFormed_repair (us : List CodeUnit) : WellFormed (repair us) := by
  rw [← encode_decodeLossy]
  exact wellFormed_encode _

theorem WellFormed.repair (h : WellFormed us) : repair us = us := by
  induction h with
  | nil => rfl
  | unit hu _ ih => rw [repair_cons hu, ih]
  | pair hu hv _ ih => rw [repair_pair hu hv, ih]

theorem WellFormed.encode_decodeLossy (h : WellFormed us) : encode (decodeLossy us) = us :=
  (Utf16.encode_decodeLossy us).trans h.repair

/-! ## Pieces -/

theorem decodeLossy_eq_nil : decodeLossy us = [] ↔ us = [] := by
  constructor
  · intro h
    induction us using decodeLossy.induct with
    | case1 => rfl
    | case2 u => exact absurd h (List.cons_ne_nil _ _)
    | case3 u v rest hpair => exact absurd ((if_pos hpair).symm.trans h) (List.cons_ne_nil _ _)
    | case4 u v rest hpair => exact absurd ((if_neg hpair).symm.trans h) (List.cons_ne_nil _ _)
  · intro h
    rw [h]
    rfl

/-- A unit that is no surrogate ends whatever pair was open before it, so what stands on either side
    of it is read as if it stood alone. -/
theorem decodeLossy_append_cons (h : ¬ Surrogate sep) (us vs : List CodeUnit) :
    decodeLossy (us ++ sep :: vs) = decodeLossy us ++ charOf sep :: decodeLossy vs := by
  induction us using decodeLossy.induct with
  | case1 => exact decodeLossy_cons h
  | case2 u =>
    have hunpaired : ¬ (High u ∧ Low sep) := fun hpair => h hpair.2.surrogate
    have hfirst : decodeLossy (u :: sep :: vs) = charOf u :: decodeLossy (sep :: vs) :=
      if_neg hunpaired
    rw [List.singleton_append, hfirst, decodeLossy_cons h]
    rfl
  | case3 u v rest hpair ih =>
    rw [List.cons_append, List.cons_append, decodeLossy_pair hpair.1 hpair.2,
      decodeLossy_pair hpair.1 hpair.2, ih]
    rfl
  | case4 u v rest hpair ih =>
    rw [List.cons_append, List.cons_append, decodeLossy, decodeLossy, if_neg hpair, if_neg hpair,
      ← List.cons_append, ih]
    rfl

theorem decodeLossy_intercalate (h : ¬ Surrogate sep) (ls : List (List CodeUnit)) :
    decodeLossy ([sep].intercalate ls) = [charOf sep].intercalate (ls.map decodeLossy) := by
  induction ls with
  | nil => rfl
  | cons l ls ih =>
    cases ls with
    | nil => simp
    | cons l' ls =>
      rw [List.intercalate_cons_cons, List.map_cons, List.map_cons, List.intercalate_cons_cons,
        List.append_assoc, List.singleton_append, decodeLossy_append_cons h, ih,
        List.append_assoc, List.singleton_append, List.map_cons]

theorem mend_eq_iff (h : ¬ Surrogate u) (hu : u ≠ 0xFFFD) : mend v = u ↔ v = u := by
  unfold mend
  by_cases hv : Surrogate v
  · rw [if_pos hv]
    constructor
    · intro heq
      exact absurd heq.symm hu
    · rintro rfl
      exact absurd hv h
  · rw [if_neg hv]

theorem mem_repair (h : ¬ Surrogate u) (hu : u ≠ 0xFFFD) : u ∈ repair us ↔ u ∈ us := by
  induction us using repair.induct with
  | case1 => rfl
  | case2 v => simp [repair, eq_comm (a := u), mend_eq_iff h hu]
  | case3 v w rest hpair ih => simp [repair_pair hpair.1 hpair.2, ih]
  | case4 v w rest hpair ih =>
    rw [repair, if_neg hpair, List.mem_cons, ih, List.mem_cons (a := u) (b := v), eq_comm,
      mend_eq_iff h hu, eq_comm]

theorem length_repair (us : List CodeUnit) : (repair us).length = us.length := by
  induction us using repair.induct with
  | case1 => rfl
  | case2 v => rfl
  | case3 v w rest hpair ih =>
    rw [repair_pair hpair.1 hpair.2, List.length_cons, List.length_cons, ih]
    rfl
  | case4 v w rest hpair ih =>
    rw [repair, if_neg hpair, List.length_cons, ih]
    rfl

theorem length_encode_map {f : Char → Char}
    (h : ∀ c, (encodeChar (f c)).length = (encodeChar c).length) :
    (encode (t.map f)).length = (encode t).length := by
  induction t with
  | nil => rfl
  | cons c t ih => rw [List.map_cons, encode_cons, encode_cons, List.length_append,
      List.length_append, h, ih]

theorem mem_encode (hu : ¬ Surrogate u) (h : charOf u ∈ t) : u ∈ encode t := by
  have hchar : u ∈ encodeChar (charOf u) := by
    rw [encodeChar_charOf, mend_of_not_surrogate hu]
    exact List.mem_singleton_self u
  exact List.mem_flatMap.mpr ⟨_, h, hchar⟩

theorem charOf_mem_of_mem_encode (hu : ¬ Surrogate u) (h : u ∈ encode t) : charOf u ∈ t := by
  obtain ⟨c, hc, hmem⟩ := List.mem_flatMap.mp h
  rcases encodeChar_cases c with ⟨v, -, hv, rfl⟩ | ⟨v, w, hv, hw, hpair, -⟩
  · rw [hv, List.mem_singleton] at hmem
    rwa [hmem]
  · rw [hpair, List.mem_pair] at hmem
    rcases hmem with rfl | rfl
    · exact absurd hv.surrogate hu
    · exact absurd hw.surrogate hu

theorem charOf_mem_decodeLossy (h : ¬ Surrogate u) (hu : u ≠ 0xFFFD)
    (hmem : charOf u ∈ decodeLossy us) : u ∈ us := by
  rw [← mem_repair h hu, ← encode_decodeLossy]
  exact mem_encode h hmem

theorem charOf_mem_decodeLossy_iff (h : ¬ Surrogate u) (hu : u ≠ 0xFFFD) :
    charOf u ∈ decodeLossy us ↔ u ∈ us := by
  constructor
  · exact charOf_mem_decodeLossy h hu
  · intro hmem
    apply charOf_mem_of_mem_encode h
    rw [encode_decodeLossy]
    exact (mem_repair h hu).mpr hmem

end WinCompat.Lib.Utf16
