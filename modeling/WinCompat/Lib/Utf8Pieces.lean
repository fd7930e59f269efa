import WinCompat.Lib.Utf8

/-!
# Reading UTF-8 piece by piece

What follows is read independently of what comes before if it does not begin with a continuation
byte (`decodeLossy_append`). A piece that does begin with one is read as a character more than it
has (`length_decodeLossy_ge`), so the pieces of a text are read as that text exactly if none of them
does (`decodeLossy_pieces_iff`).
-/

namespace WinCompat.Lib.Utf8

/-- A byte that may come after the first one of a character. -/
def Continuation (b : UInt8) : Prop := 0x80 ≤ b ∧ b ≤ 0xBF

instance (b : UInt8) : Decidable (Continuation b) := inferInstanceAs (Decidable (_ ∧ _))

/-- Nothing, or something that does not begin with a continuation byte. -/
def Fresh (bytes : List UInt8) : Prop := ∀ b ∈ bytes.head?, ¬ Continuation b

instance (bytes : List UInt8) : Decidable (Fresh bytes) :=
  inferInstanceAs (Decidable (∀ b ∈ bytes.head?, ¬ Continuation b))

/-- The bytes that are not continuation bytes. -/
def leads (bytes : List UInt8) : Nat := bytes.countP fun b => ¬ Continuation b

/-- The next byte can only be a continuation byte. -/
def Partly.Sound (p : Partly) : Prop := 0x80 ≤ p.low ∧ p.high ≤ 0xBF

variable {p p' : Partly} {b : UInt8} {bytes : List UInt8} {c : Char} {t : List Char}

/-! ## One byte -/

theorem sound_mk {bits missing : Nat} {low high : UInt8} (h : 0x80 ≤ low ∧ high ≤ 0xBF) :
    (Partly.mk bits missing low high).Sound := h

theorem sound_of_begin (h : begin_ b = .more p) : p.Sound := by
  unfold begin_ at h
  dsimp only at h
  repeat' split at h
  all_goals first
    | (obtain rfl := Read.more.inj h; exact sound_mk (by decide))
    | simp at h

theorem Partly.Sound.next (h : p.next b = .more p') : p'.Sound := by
  unfold Partly.next at h
  dsimp only at h
  repeat' split at h
  all_goals first
    | (obtain rfl := Read.more.inj h; exact sound_mk (by decide))
    | simp at h

/-- Only a continuation byte goes on. -/
theorem Partly.Sound.next_bad (hp : p.Sound) (hb : ¬ Continuation b) : p.next b = .bad := by
  have hout : b < p.low ∨ p.high < b := by
    unfold Continuation at hb
    rw [not_and_or, UInt8.not_le, UInt8.not_le] at hb
    exact hb.imp (fun h => UInt8.lt_of_lt_of_le h hp.1) fun h => UInt8.lt_of_le_of_lt hp.2 h
  exact if_pos hout

theorem begin_bad (hb : Continuation b) : begin_ b = .bad := by
  have hlow : ¬ b < 0x80 := UInt8.not_lt.mpr hb.1
  have hhigh : b < 0xC2 := UInt8.lt_of_le_of_lt hb.2 (by decide)
  unfold begin_
  dsimp only
  rw [if_neg hlow, if_pos hhigh]

theorem leads_cons : leads (b :: bytes) = leads bytes + if Continuation b then 0 else 1 := by
  by_cases h : Continuation b <;> simp [leads, h]

theorem leads_append (xs ys : List UInt8) : leads (xs ++ ys) = leads xs + leads ys :=
  List.countP_append

/-! ## Pieces -/

theorem decodeFrom_append (bytes : List UInt8) {rest : List UInt8} (hrest : Fresh rest) :
    ∀ st : Option Partly, (∀ p ∈ st, p.Sound) →
      decodeFrom st (bytes ++ rest) = decodeFrom st bytes ++ decodeFrom none rest := by
  induction bytes with
  | nil =>
    intro st hst
    cases st with
    | none => rfl
    | some p =>
      cases rest with
      | nil => rfl
      | cons b rest =>
        have hbad := (hst p rfl).next_bad (hrest b rfl)
        simp only [List.nil_append, decodeFrom, hbad, List.cons_append]
  | cons b bytes ih =>
    have hbegin (p : Partly) (h : begin_ b = .more p) : ∀ q ∈ some p, q.Sound := by
      intro q hq
      rw [← Option.some.inj hq]
      exact sound_of_begin h
    intro st hst
    cases st with
    | none =>
      simp only [List.cons_append, decodeFrom]
      cases h : begin_ b with
      | done c => exact congrArg (c :: ·) (ih none (by simp))
      | more p => exact ih (some p) (hbegin p h)
      | bad => exact congrArg (replacement :: ·) (ih none (by simp))
    | some p =>
      simp only [List.cons_append, decodeFrom]
      cases h : p.next b with
      | done c => exact congrArg (c :: ·) (ih none (by simp))
      | more p' =>
        refine ih (some p') ?_
        intro q hq
        rw [← Option.some.inj hq]
        exact Partly.Sound.next h
      | bad =>
        refine congrArg (replacement :: ·) ?_
        cases h' : begin_ b with
        | done c => exact congrArg (c :: ·) (ih none (by simp))
        | more p' => exact ih (some p') (hbegin p' h')
        | bad => exact congrArg (replacement :: ·) (ih none (by simp))

theorem decodeLossy_append (bytes : List UInt8) {rest : List UInt8} (hrest : Fresh rest) :
    decodeLossy (bytes ++ rest) = decodeLossy bytes ++ decodeLossy rest :=
  decodeFrom_append bytes hrest none (by simp)

/-! ## Counting -/

/-- No less is read than there are bytes that can begin a character. -/
theorem length_decodeFrom_ge (bytes : List UInt8) : ∀ st : Option Partly, (∀ p ∈ st, p.Sound) →
    leads bytes + (if st.isSome then 1 else 0) ≤ (decodeFrom st bytes).length := by
  induction bytes with
  | nil =>
    intro st _
    cases st <;> simp [leads, decodeFrom]
  | cons b bytes ih =>
    have hnone := ih none (by simp)
    have hsome (p : Partly) (hp : p.Sound) : leads bytes + 1 ≤ (decodeFrom (some p) bytes).length :=
      ih (some p) (by simpa using hp)
    have hb : leads (b :: bytes) ≤ leads bytes + 1 := by
      rw [leads_cons]
      split <;> omega
    intro st hst
    cases st with
    | none =>
      simp only [decodeFrom, Option.isSome_none, Bool.false_eq_true, if_false] at hnone ⊢
      cases h : begin_ b with
      | done c => exact Nat.le_trans hb (Nat.succ_le_succ hnone)
      | more p => exact Nat.le_trans hb (hsome p (sound_of_begin h))
      | bad => exact Nat.le_trans hb (Nat.succ_le_succ hnone)
    | some p =>
      simp only [decodeFrom, Option.isSome_none, Option.isSome_some, Bool.false_eq_true, if_false,
        if_true] at hnone ⊢
      by_cases hcont : Continuation b
      · have hleads : leads (b :: bytes) = leads bytes := by rw [leads_cons, if_pos hcont]; rfl
        rw [hleads]
        cases h : p.next b with
        | done c => exact Nat.succ_le_succ hnone
        | more p' => exact hsome p' (Partly.Sound.next h)
        | bad =>
          simp only [begin_bad hcont, List.length_cons]
          omega
      · rw [(hst p rfl).next_bad hcont]
        cases h' : begin_ b with
        | done c =>
          simp only [List.length_cons]
          omega
        | more p' =>
          have := hsome p' (sound_of_begin h')
          simp only [List.length_cons]
          omega
        | bad =>
          simp only [List.length_cons]
          omega

theorem length_decodeLossy_ge (bytes : List UInt8) :
    leads bytes + (if Fresh bytes then 0 else 1) ≤ (decodeLossy bytes).length := by
  by_cases h : Fresh bytes
  · have hge := length_decodeFrom_ge bytes none (by simp)
    rw [if_pos h]
    exact hge
  · cases bytes with
    | nil => exact absurd (by simp [Fresh]) h
    | cons b bytes =>
      have hcont : Continuation b := by simpa [Fresh] using h
      have hrest : leads bytes ≤ (decodeFrom none bytes).length := by
        simpa using length_decodeFrom_ge bytes none (by simp)
      have hleads : leads (b :: bytes) = leads bytes := by rw [leads_cons, if_pos hcont]; rfl
      simp only [decodeLossy, decodeFrom, begin_bad hcont, List.length_cons, hleads, h, if_false]
      omega

/-! ## Characters -/

theorem begin_two (hlow : 0xC2 ≤ b.toNat) (hhigh : b.toNat < 0xE0) :
    begin_ b = .more ⟨b.toNat - 0xC0, 1, 0x80, 0xBF⟩ := by
  have h₁ : ¬ b.toNat < 128 := by omega
  have h₂ : ¬ b.toNat < 194 := by omega
  simp [begin_, UInt8.lt_iff_toNat_lt, h₁, h₂, hhigh]

theorem begin_three (hlow : 0xE0 ≤ b.toNat) (hhigh : b.toNat < 0xF0) :
    ∃ low high, begin_ b = .more ⟨b.toNat - 0xE0, 2, low, high⟩ ∧
      low.toNat = (if b.toNat = 0xE0 then 0xA0 else 0x80) ∧
      high.toNat = (if b.toNat = 0xED then 0x9F else 0xBF) := by
  have h₁ : ¬ b.toNat < 128 := by omega
  have h₂ : ¬ b.toNat < 194 := by omega
  have h₃ : ¬ b.toNat < 224 := by omega
  by_cases hE0 : b.toNat = 0xE0
  · obtain rfl : b = 0xE0 := UInt8.toNat_inj.mp hE0
    exact ⟨0xA0, 0xBF, rfl, rfl, rfl⟩
  · by_cases hED : b.toNat = 0xED
    · obtain rfl : b = 0xED := UInt8.toNat_inj.mp hED
      exact ⟨0x80, 0x9F, rfl, rfl, rfl⟩
    · have hneE0 : b ≠ 0xE0 := fun h => hE0 (congrArg UInt8.toNat h)
      have hneED : b ≠ 0xED := fun h => hED (congrArg UInt8.toNat h)
      refine ⟨0x80, 0xBF, ?_, by rw [if_neg hE0]; rfl, by rw [if_neg hED]; rfl⟩
      simp [begin_, UInt8.lt_iff_toNat_lt, h₁, h₂, h₃, hneE0, hneED, hhigh]

theorem begin_four (hlow : 0xF0 ≤ b.toNat) (hhigh : b.toNat < 0xF5) :
    ∃ low high, begin_ b = .more ⟨b.toNat - 0xF0, 3, low, high⟩ ∧
      low.toNat = (if b.toNat = 0xF0 then 0x90 else 0x80) ∧
      high.toNat = (if b.toNat = 0xF4 then 0x8F else 0xBF) := by
  have h₁ : ¬ b.toNat < 128 := by omega
  have h₂ : ¬ b.toNat < 194 := by omega
  have h₃ : ¬ b.toNat < 224 := by omega
  have h₄ : ¬ b.toNat < 240 := by omega
  have hneE0 : b ≠ 0xE0 := fun h => by simp [h] at hlow
  have hneED : b ≠ 0xED := fun h => by simp [h] at hlow
  by_cases hF0 : b.toNat = 0xF0
  · obtain rfl : b = 0xF0 := UInt8.toNat_inj.mp hF0
    exact ⟨0x90, 0xBF, rfl, rfl, rfl⟩
  · by_cases hF4 : b.toNat = 0xF4
    · obtain rfl : b = 0xF4 := UInt8.toNat_inj.mp hF4
      exact ⟨0x80, 0x8F, rfl, rfl, rfl⟩
    · have hneF0 : b ≠ 0xF0 := fun h => hF0 (congrArg UInt8.toNat h)
      have h₅ : b.toNat < 244 := by omega
      refine ⟨0x80, 0xBF, ?_, by rw [if_neg hF0]; rfl, by rw [if_neg hF4]; rfl⟩
      simp [begin_, UInt8.lt_iff_toNat_lt, h₁, h₂, h₃, h₄, hneE0, hneED, hneF0, h₅]

theorem next_in {bits missing n : Nat} {low high : UInt8} (hlow : low.toNat ≤ n % 64 + 128)
    (hhigh : n % 64 + 128 ≤ high.toNat) :
    (Partly.mk bits missing low high).next (UInt8.ofNat (n % 0x40 + 0x80)) =
      if missing = 1 then .done (Char.ofNat (bits * 64 + n % 64))
      else .more ⟨bits * 64 + n % 64, missing - 1, 0x80, 0xBF⟩ := by
  have hlt : n % 64 < 64 := Nat.mod_lt n (by decide)
  have hbyte : (UInt8.ofNat (n % 0x40 + 0x80)).toNat = n % 64 + 128 := by
    rw [UInt8.toNat_ofNat', Nat.mod_eq_of_lt (by omega)]
  have hin : ¬ (UInt8.ofNat (n % 0x40 + 0x80) < low ∨ high < UInt8.ofNat (n % 0x40 + 0x80)) := by
    simp only [UInt8.lt_iff_toNat_lt, hbyte]
    omega
  have hbits : bits * 64 + (n % 64 + 128 - 0x80) = bits * 64 + n % 64 := by omega
  refine (if_neg hin).trans ?_
  simp only [hbyte, hbits]

theorem next_any {bits missing : Nat} (n : Nat) :
    (Partly.mk bits missing 0x80 0xBF).next (UInt8.ofNat (n % 0x40 + 0x80)) =
      if missing = 1 then .done (Char.ofNat (bits * 64 + n % 64))
      else .more ⟨bits * 64 + n % 64, missing - 1, 0x80, 0xBF⟩ := by
  have hlt : n % 64 < 64 := Nat.mod_lt n (by decide)
  refine next_in (show 128 ≤ _ from ?_) (show _ ≤ 191 from ?_) <;> omega

variable {rest : List UInt8}

theorem decodeFrom_more (h : begin_ b = .more p) :
    decodeFrom none (b :: rest) = decodeFrom (some p) rest := by
  simp only [decodeFrom, h]

theorem decodeFrom_next_more (h : p.next b = .more p') :
    decodeFrom (some p) (b :: rest) = decodeFrom (some p') rest := by
  simp only [decodeFrom, h]

theorem decodeFrom_next_done (h : p.next b = .done c) :
    decodeFrom (some p) (b :: rest) = c :: decodeFrom none rest := by
  simp only [decodeFrom, h]

theorem decodeFrom_encodeChar (c : Char) (rest : List UInt8) :
    decodeFrom none (String.utf8EncodeChar c ++ rest) = c :: decodeFrom none rest := by
  have hvalid : c.val.toNat < 0xD800 ∨ 0xDFFF < c.val.toNat ∧ c.val.toNat < 0x110000 := c.valid
  have hback : Char.ofNat c.val.toNat = c := Char.ofNat_toNat c
  unfold String.utf8EncodeChar
  generalize c.val.toNat = v at hvalid hback
  dsimp only
  by_cases h₁ : v ≤ 0x7F
  · have hv : (UInt8.ofNat v).toNat = v := by
      rw [UInt8.toNat_ofNat', Nat.mod_eq_of_lt (by omega)]
    have hbegin : begin_ (UInt8.ofNat v) = .done c := by
      have hlt : UInt8.ofNat v < 0x80 := by
        rw [UInt8.lt_iff_toNat_lt, hv]
        exact Nat.lt_succ_of_le h₁
      simp only [begin_, hv, hlt, if_true, hback]
    simp only [h₁, if_true, List.cons_append, List.nil_append, decodeFrom, hbegin]
  · simp only [h₁, if_false]
    by_cases h₂ : v ≤ 0x7FF
    · have hv : (UInt8.ofNat (v / 64 % 0x20 + 0xC0)).toNat = v / 64 + 192 := by
        rw [UInt8.toNat_ofNat', Nat.mod_eq_of_lt (by omega)]
        omega
      have hbits : (v / 64 + 192 - 192) * 64 + v % 64 = v := by omega
      simp only [h₂, if_true, List.cons_append, List.nil_append]
      rw [decodeFrom_more (begin_two (by omega) (by omega)), hv]
      exact decodeFrom_next_done ((next_any v).trans (by rw [if_pos rfl, hbits, hback]))
    · simp only [h₂, if_false]
      by_cases h₃ : v ≤ 0xFFFF
      · have hv : (UInt8.ofNat (v / 4096 % 0x10 + 0xE0)).toNat = v / 4096 + 224 := by
          rw [UInt8.toNat_ofNat', Nat.mod_eq_of_lt (by omega)]
          omega
        have htop : (v / 4096 + 224 - 224) * 64 + v / 64 % 64 = v / 64 := by omega
        have hbits : v / 64 * 64 + v % 64 = v := by omega
        obtain ⟨low, high, hbegin, hlow, hhigh⟩ :=
          @begin_three (UInt8.ofNat (v / 4096 % 0x10 + 0xE0)) (by omega) (by omega)
        rw [hv] at hbegin hlow hhigh
        simp only [h₃, if_true, List.cons_append, List.nil_append]
        rw [decodeFrom_more hbegin]
        have hmid : low.toNat ≤ v / 64 % 64 + 128 ∧ v / 64 % 64 + 128 ≤ high.toNat := by
          rw [hlow, hhigh]
          split <;> split <;> omega
        rw [decodeFrom_next_more ((next_in hmid.1 hmid.2).trans (if_neg (by decide))), htop]
        exact decodeFrom_next_done ((next_any v).trans (by rw [if_pos rfl, hbits, hback]))
      · simp only [h₃, if_false]
        have hv : (UInt8.ofNat (v / 262144 % 0x08 + 0xF0)).toNat = v / 262144 + 240 := by
          rw [UInt8.toNat_ofNat', Nat.mod_eq_of_lt (by omega)]
          omega
        have htop : (v / 262144 + 240 - 240) * 64 + v / 4096 % 64 = v / 4096 := by omega
        have hmiddle : v / 4096 * 64 + v / 64 % 64 = v / 64 := by omega
        have hbits : v / 64 * 64 + v % 64 = v := by omega
        obtain ⟨low, high, hbegin, hlow, hhigh⟩ :=
          @begin_four (UInt8.ofNat (v / 262144 % 0x08 + 0xF0)) (by omega) (by omega)
        rw [hv] at hbegin hlow hhigh
        simp only [List.cons_append, List.nil_append]
        rw [decodeFrom_more hbegin]
        have hmid : low.toNat ≤ v / 4096 % 64 + 128 ∧ v / 4096 % 64 + 128 ≤ high.toNat := by
          rw [hlow, hhigh]
          split <;> split <;> omega
        rw [decodeFrom_next_more ((next_in hmid.1 hmid.2).trans (if_neg (by decide))), htop,
          decodeFrom_next_more ((next_any (v / 64)).trans (if_neg (by decide))), hmiddle]
        exact decodeFrom_next_done ((next_any v).trans (by rw [if_pos rfl, hbits, hback]))

theorem decodeLossy_encode_append (t : List Char) (rest : List UInt8) :
    decodeLossy (encode t ++ rest) = t ++ decodeLossy rest := by
  induction t with
  | nil => rfl
  | cons c t ih =>
    have hsplit : encode (c :: t) ++ rest = String.utf8EncodeChar c ++ (encode t ++ rest) := by
      simp [encode]
    rw [hsplit, decodeLossy, decodeFrom_encodeChar]
    exact congrArg (c :: ·) ih

theorem decodeLossy_encode (t : List Char) : decodeLossy (encode t) = t := by
  have h := decodeLossy_encode_append t []
  rwa [List.append_nil, show decodeLossy [] = [] from rfl, List.append_nil] at h

theorem continuation_byte (n : Nat) : Continuation (UInt8.ofNat (n % 0x40 + 0x80)) := by
  have hlt : n % 64 < 64 := Nat.mod_lt n (by decide)
  have hbyte : (UInt8.ofNat (n % 0x40 + 0x80)).toNat = n % 64 + 128 := by
    rw [UInt8.toNat_ofNat', Nat.mod_eq_of_lt (by omega)]
  rw [Continuation, UInt8.le_iff_toNat_le, UInt8.le_iff_toNat_le, hbyte]
  exact ⟨Nat.le_add_left 128 _, show _ ≤ 191 by omega⟩

theorem not_continuation_of {n : Nat} (h : n < 0x80 ∨ 0xC0 ≤ n) (hlt : n < 0x100) :
    ¬ Continuation (UInt8.ofNat n) := by
  have hbyte : (UInt8.ofNat n).toNat = n := by
    rw [UInt8.toNat_ofNat', Nat.mod_eq_of_lt hlt]
  rw [Continuation, UInt8.le_iff_toNat_le, UInt8.le_iff_toNat_le, hbyte]
  show ¬ (128 ≤ n ∧ n ≤ 191)
  omega

/-- A character begins with its only byte that is not a continuation byte. -/
theorem encodeChar_shape (c : Char) : ∃ b bytes, String.utf8EncodeChar c = b :: bytes ∧
    ¬ Continuation b ∧ ∀ b' ∈ bytes, Continuation b' := by
  unfold String.utf8EncodeChar
  generalize c.val.toNat = v
  dsimp only
  split
  · refine ⟨_, _, rfl, not_continuation_of (Or.inl (by omega)) (by omega), by simp⟩
  · split
    · refine ⟨_, _, rfl, not_continuation_of (Or.inr (by omega)) (by omega), ?_⟩
      simp only [List.forall_mem_cons]
      exact ⟨continuation_byte v, by simp⟩
    · split
      · refine ⟨_, _, rfl, not_continuation_of (Or.inr (by omega)) (by omega), ?_⟩
        simp only [List.forall_mem_cons]
        exact ⟨continuation_byte (v / 64), continuation_byte v, by simp⟩
      · refine ⟨_, _, rfl, not_continuation_of (Or.inr (by omega)) (by omega), ?_⟩
        simp only [List.forall_mem_cons]
        exact ⟨continuation_byte (v / 4096), continuation_byte (v / 64), continuation_byte v,
          by simp⟩

theorem leads_encode (t : List Char) : leads (encode t) = t.length := by
  induction t with
  | nil => rfl
  | cons c t ih =>
    obtain ⟨b, bytes, hshape, hlead, hcont⟩ := encodeChar_shape c
    have hbytes : leads bytes = 0 := List.countP_eq_zero.mpr (by simpa using hcont)
    have hsplit : encode (c :: t) = String.utf8EncodeChar c ++ encode t := rfl
    rw [hsplit, leads_append, hshape, leads_cons, hbytes, if_neg hlead, ih, List.length_cons]
    omega

theorem fresh_encode (t : List Char) : Fresh (encode t) := by
  cases t with
  | nil => simp [encode, Fresh]
  | cons c t =>
    obtain ⟨b, bytes, hshape, hlead, -⟩ := encodeChar_shape c
    have hsplit : encode (c :: t) = String.utf8EncodeChar c ++ encode t := rfl
    rw [hsplit, hshape]
    simpa [Fresh] using hlead

theorem encode_of_decode? {s : String} (h : decode? bytes = some s) : encode s.toList = bytes := by
  unfold decode? String.fromUTF8? at h
  split at h
  · have hbytes : s.toByteArray = bytes.toByteArray :=
      (congrArg String.toByteArray (Option.some.inj h)).symm
    rw [← String.utf8Encode_toList] at hbytes
    exact List.toByteArray_inj.mp hbytes
  · exact absurd h (by simp)

theorem decode?_eq_some : (decode? bytes).map String.toList = some t ↔ bytes = encode t := by
  constructor
  · intro h
    obtain ⟨s, hs, rfl⟩ := Option.map_eq_some_iff.mp h
    exact (encode_of_decode? hs).symm
  · rintro rfl
    rw [decode?_encode, Option.map_some, String.toList_ofList]

/-- Where `f` undoes `g`, and accepts nothing else, so does it on lists. -/
theorem mapM_eq_some {α β : Type} {f : α → Option β} {g : β → α}
    (h : ∀ a b, f a = some b ↔ a = g b) {l : List α} {r : List β} :
    l.mapM f = some r ↔ l = r.map g := by
  induction l generalizing r with
  | nil => cases r <;> simp
  | cons a l ih =>
    rw [List.mapM_cons]
    constructor
    · intro hr
      obtain ⟨b, hb, hrest⟩ := Option.bind_eq_some_iff.mp hr
      obtain ⟨rest, hl, heq⟩ := Option.bind_eq_some_iff.mp hrest
      rw [← Option.some.inj heq, List.map_cons, ← (h a b).mp hb, ← ih.mp hl]
    · intro hl
      cases r with
      | nil => exact absurd hl (List.cons_ne_nil _ _)
      | cons b r =>
        rw [List.map_cons, List.cons.injEq] at hl
        rw [(h a b).mpr hl.1, ih.mpr hl.2]
        rfl

/-! ## The pieces of a text -/

variable {pieces : List (List UInt8)}

theorem fresh_flatten (h : ∀ piece ∈ pieces, Fresh piece) : Fresh pieces.flatten := by
  induction pieces with
  | nil => simp [Fresh]
  | cons piece pieces ih =>
    rw [List.forall_mem_cons] at h
    cases piece with
    | nil => exact ih h.2
    | cons b piece => exact h.1

theorem decodeLossy_flatten (h : ∀ piece ∈ pieces, Fresh piece) :
    decodeLossy pieces.flatten = pieces.flatMap decodeLossy := by
  induction pieces with
  | nil => rfl
  | cons piece pieces ih =>
    rw [List.forall_mem_cons] at h
    rw [List.flatten_cons, decodeLossy_append piece (fresh_flatten h.2), ih h.2, List.flatMap_cons]

/-- The pieces that begin inside a character are each read as one more. -/
theorem length_pieces_ge (pieces : List (List UInt8)) :
    leads pieces.flatten + pieces.countP (fun piece => ¬ Fresh piece) ≤
      (pieces.flatMap decodeLossy).length := by
  induction pieces with
  | nil => simp [leads]
  | cons piece pieces ih =>
    have hpiece := length_decodeLossy_ge piece
    rw [List.flatten_cons, leads_append, List.flatMap_cons, List.length_append]
    by_cases h : Fresh piece
    · rw [List.countP_cons_of_neg (by simpa using h)]
      rw [if_pos h] at hpiece
      omega
    · rw [List.countP_cons_of_pos (by simpa using h)]
      rw [if_neg h] at hpiece
      omega

/-- Text that is read piece by piece comes out whole exactly if no piece begins inside a
    character. -/
theorem decodeLossy_pieces_iff (hwhole : pieces.flatten = encode t) :
    pieces.flatMap decodeLossy = t ↔ ∀ piece ∈ pieces, Fresh piece := by
  constructor
  · intro heq
    have hlen := length_pieces_ge pieces
    rw [hwhole, leads_encode, heq] at hlen
    have hnone : pieces.countP (fun piece => ¬ Fresh piece) = 0 := by omega
    simpa using List.countP_eq_zero.mp hnone
  · intro hfresh
    rw [← decodeLossy_flatten hfresh, hwhole, decodeLossy_encode]

end WinCompat.Lib.Utf8
