import WinCompat.Lib.Utf16
import WinCompat.Lib.Utf8

/-!
# `MultiByteToWideChar` and `WideCharToMultiByte`

`win32-kernel32/src/string.rs`. Both resolve their input by the same two conventions, convert, and
answer by the same rules about the buffer; in between each has its own conversion. Only the first
puts a NUL behind what it converts when it was told to look for one.

The guest's memory is given by what can be read at the input pointer (`none` is NULL), a fault is
the outcome `none`, and a buffer by whether there is one: what is written is written from its first
place on.
-/

namespace WinCompat.Text

open Lib Lib.Utf16

def cpUtf8 : BitVec 32 := 65001

def cpAcp : BitVec 32 := 0

def errorInsufficientBuffer : BitVec 32 := 122

def errorInvalidParameter : BitVec 32 := 87

/-- What a call returns, the error it sets, and what it writes. -/
structure Outcome (α : Type) where
  value : BitVec 32
  lastError : Option (BitVec 32)
  written : List α
  deriving DecidableEq

/-! ## The two ends of a call -/

section

variable {α : Type} [DecidableEq α]

/-- Up to the first NUL; `none` is a read past what there is. -/
def readTerminated (nul : α) (src : List α) : Option (List α) :=
  if nul ∈ src then some (src.takeWhile (· ≠ nul)) else none

/-- The input of `count` units, or up to a NUL for -1. The inner `none` is a parameter that is
    refused. -/
def resolveInput (nul : α) (src : Option (List α)) (count : BitVec 32) :
    Option (Option (List α)) :=
  if count = -1 then
    match src with
    | none => some none
    | some src => (readTerminated nul src).map some
  else if count.toInt ≤ 0 then some none
  else
    match src with
    | none => some none
    | some src => if count.toNat ≤ src.length then some (some (src.take count.toNat)) else none

end

/-- `n` units are to go into a buffer of `cap`. -/
def emit {α : Type} (units : List α) (buffer : Bool) (cap : BitVec 32) : Outcome α :=
  let n := BitVec.ofNat 32 units.length
  if buffer = false ∨ cap.toInt ≤ 0 then ⟨n, none, []⟩
  else if n.toInt > cap.toInt then ⟨0, some errorInsufficientBuffer, []⟩
  else ⟨n, none, units⟩

def invalidParameter {α : Type} : Outcome α := ⟨0, some errorInvalidParameter, []⟩

/-! ## The calls -/

/-- The code units of the input, with the NUL that -1 includes. -/
def wideUnits (codePage : BitVec 32) (cbMultiByte : BitVec 32) (input : List UInt8) :
    List CodeUnit :=
  let identity := input.map fun b => BitVec.ofNat 16 b.toNat
  let units :=
    if codePage = cpUtf8 ∨ codePage = cpAcp then
      match Utf8.decode? input with
      | some s => Utf16.encode s.toList
      | none => identity
    else identity
  if cbMultiByte = -1 then units ++ [0] else units

def multiByteToWideChar (codePage _flags : BitVec 32) (multiByteStr : Option (List UInt8))
    (cbMultiByte : BitVec 32) (buffer : Bool) (cchWideChar : BitVec 32) :
    Option (Outcome CodeUnit) :=
  (resolveInput 0 multiByteStr cbMultiByte).map fun
    | none => invalidParameter
    | some input => emit (wideUnits codePage cbMultiByte input) buffer cchWideChar

def multiBytes (codePage : BitVec 32) (units : List CodeUnit) : List UInt8 :=
  if codePage = cpUtf8 ∨ codePage = cpAcp then Utf8.encode (Utf16.decodeLossy units)
  else units.map fun u => UInt8.ofNat u.toNat

def wideCharToMultiByte (codePage _flags : BitVec 32) (wideCharStr : Option (List CodeUnit))
    (cchWideChar : BitVec 32) (buffer : Bool) (cbMultiByte : BitVec 32) : Option (Outcome UInt8) :=
  (resolveInput 0 wideCharStr cchWideChar).map fun
    | none => invalidParameter
    | some units => emit (multiBytes codePage units) buffer cbMultiByte

/-! ## The buffer -/

/-- A query says how much a call with that much room writes; a call with less writes nothing and
    returns 0, one with more writes no more. -/
structure BufferContract {α : Type} (call : Bool → BitVec 32 → Outcome α) : Prop where
  query : ∀ cap : BitVec 32, ∀ buffer, buffer = false ∨ cap.toInt ≤ 0 →
    call buffer cap = { call false 0 with written := [] }
  exact : 0 < (call false 0).value.toInt →
    (call true (call false 0).value).written.length = (call false 0).value.toInt ∧
      (call true (call false 0).value).value = (call false 0).value
  smaller : ∀ cap : BitVec 32, 0 < cap.toInt → cap.toInt < (call false 0).value.toInt →
    (call true cap).value = 0 ∧ (call true cap).written = []
  larger : ∀ cap : BitVec 32, (call false 0).value.toInt ≤ cap.toInt →
    call true cap = call true (call false 0).value
  inside : ∀ buffer cap, (call buffer cap).written.length ≤ cap.toInt.toNat

variable {α : Type}

/-- A length that fits an `i32`. -/
theorem toInt_ofNat {n : Nat} (h : n < 2 ^ 31) : (BitVec.ofNat 32 n).toInt = n := by
  have hnat : (BitVec.ofNat 32 n).toNat = n := by
    rw [BitVec.toNat_ofNat]
    exact Nat.mod_eq_of_lt (by omega)
  rw [BitVec.toInt_eq_toNat_of_lt (by omega), hnat]

theorem toInt_lt (v : BitVec 32) : v.toInt < 2 ^ 31 := by
  have h := BitVec.toInt_lt (x := v)
  omega

section

variable (units : List α) {buffer : Bool} {cap : BitVec 32}

theorem emit_query (h : buffer = false ∨ cap.toInt ≤ 0) :
    emit units buffer cap = ⟨BitVec.ofNat 32 units.length, none, []⟩ := if_pos h

theorem emit_room (hcap : (units.length : Int) ≤ cap.toInt) :
    emit units true cap = ⟨BitVec.ofNat 32 units.length, none, units⟩ := by
  have hlt := toInt_lt cap
  by_cases hzero : cap.toInt ≤ 0
  · have hnil : units = [] := List.eq_nil_of_length_eq_zero (by omega)
    rw [emit_query units (.inr hzero), hnil]
  · have hfits : ¬ (BitVec.ofNat 32 units.length).toInt > cap.toInt := by
      rw [toInt_ofNat (by omega)]
      omega
    unfold emit
    simp only [Bool.true_eq_false, hzero, or_self, if_false, if_neg hfits]

theorem emit_short (hlen : units.length < 2 ^ 31) (hpos : 0 < cap.toInt)
    (hcap : cap.toInt < units.length) :
    emit units true cap = ⟨0, some errorInsufficientBuffer, []⟩ := by
  have hover : (BitVec.ofNat 32 units.length).toInt > cap.toInt := by
    rw [toInt_ofNat hlen]
    exact hcap
  unfold emit
  simp only [Bool.true_eq_false, Int.not_le.mpr hpos, or_self, if_false, if_pos hover]

end

theorem emit_contract (units : List α) (h : units.length < 2 ^ 31) :
    BufferContract (emit units) := by
  have hquery : emit units false 0 = ⟨BitVec.ofNat 32 units.length, none, []⟩ :=
    emit_query units (.inl rfl)
  have hvalue := toInt_ofNat h
  refine ⟨?_, ?_, ?_, ?_, ?_⟩
  · intro cap buffer hnone
    rw [emit_query units hnone, hquery]
  · intro _
    simp only [hquery, hvalue]
    rw [emit_room units (by omega)]
    exact ⟨rfl, rfl⟩
  · intro cap hpos hcap
    rw [hquery, hvalue] at hcap
    rw [emit_short units h hpos hcap]
    exact ⟨rfl, rfl⟩
  · intro cap hcap
    simp only [hquery, hvalue] at hcap ⊢
    rw [emit_room units hcap, emit_room units (by omega)]
  · intro buffer cap
    by_cases hnone : buffer = false ∨ cap.toInt ≤ 0
    · rw [emit_query units hnone]
      exact Nat.zero_le _
    · obtain ⟨hbuffer, hpos⟩ := not_or.mp hnone
      rw [Bool.not_eq_false] at hbuffer
      subst hbuffer
      by_cases hcap : (units.length : Int) ≤ cap.toInt
      · rw [emit_room units hcap]
        change units.length ≤ cap.toInt.toNat
        omega
      · rw [emit_short units h (by omega) (by omega)]
        exact Nat.zero_le _

theorem invalidParameter_contract : BufferContract fun _ _ => (invalidParameter : Outcome α) where
  query _ _ _ := rfl
  exact h := absurd h (by decide : ¬ 0 < (0 : BitVec 32).toInt)
  smaller cap hpos hcap := by
    have hzero : cap.toInt < 0 := hcap
    omega
  larger _ _ := rfl
  inside _ _ := Nat.zero_le _

/-! ## There and back -/

/-- `s` is what comes back of it, by explicit lengths and by NULs. -/
structure RoundTrips (s : List CodeUnit) : Prop where
  narrow : ∀ rest flags, ∀ cap : BitVec 32, ((multiBytes cpUtf8 s).length : Int) ≤ cap.toInt →
    wideCharToMultiByte cpUtf8 flags (some (s ++ rest)) (BitVec.ofNat 32 s.length) true cap =
      some ⟨BitVec.ofNat 32 (multiBytes cpUtf8 s).length, none, multiBytes cpUtf8 s⟩
  widen : ∀ rest flags, ∀ cap : BitVec 32, (s.length : Int) ≤ cap.toInt →
    multiByteToWideChar cpUtf8 flags (some (multiBytes cpUtf8 s ++ rest))
      (BitVec.ofNat 32 (multiBytes cpUtf8 s).length) true cap =
        some ⟨BitVec.ofNat 32 s.length, none, s⟩
  /-- The bytes end in a NUL exactly when the units do. -/
  nul : (multiBytes cpUtf8 s).getLast? = some 0 ↔ s.getLast? = some 0
  /-- -1 leaves the NUL out. -/
  narrowTerminated : 0 ∉ s → ∀ rest flags, ∀ cap : BitVec 32,
    ((multiBytes cpUtf8 s).length : Int) ≤ cap.toInt →
      wideCharToMultiByte cpUtf8 flags (some (s ++ 0 :: rest)) (-1) true cap =
        some ⟨BitVec.ofNat 32 (multiBytes cpUtf8 s).length, none, multiBytes cpUtf8 s⟩
  /-- -1 puts the NUL in. -/
  widenTerminated : 0 ∉ s → ∀ rest flags, ∀ cap : BitVec 32, (s.length + 1 : Int) ≤ cap.toInt →
    multiByteToWideChar cpUtf8 flags (some (multiBytes cpUtf8 s ++ 0 :: rest)) (-1) true cap =
      some ⟨BitVec.ofNat 32 (s.length + 1), none, s ++ [0]⟩

section

variable [DecidableEq α] {nul : α} {l rest : List α}

theorem ofNat_ne_neg_one {n : Nat} (h : n < 2 ^ 31) : BitVec.ofNat 32 n ≠ -1 := by
  intro he
  have hint := toInt_ofNat h
  rw [he] at hint
  have hminus : (-1 : BitVec 32).toInt = -1 := by decide
  omega

theorem resolveInput_explicit (hpos : l ≠ []) (hlen : l.length < 2 ^ 31) :
    resolveInput nul (some (l ++ rest)) (BitVec.ofNat 32 l.length) = some (some l) := by
  have hint := toInt_ofNat hlen
  have hlength : 0 < l.length := List.length_pos_iff.mpr hpos
  have hnat : (BitVec.ofNat 32 l.length).toNat = l.length := by
    rw [BitVec.toNat_ofNat]
    exact Nat.mod_eq_of_lt (by omega)
  have hread : l.length ≤ (l ++ rest).length := by simp
  unfold resolveInput
  rw [if_neg (ofNat_ne_neg_one hlen), if_neg (by omega)]
  simp only [hnat, if_pos hread, List.take_left']

theorem resolveInput_terminated (h : nul ∉ l) :
    resolveInput nul (some (l ++ nul :: rest)) (-1) = some (some l) := by
  have hmem : nul ∈ l ++ nul :: rest := by simp
  have htake : (l ++ nul :: rest).takeWhile (· ≠ nul) = l := by
    rw [List.takeWhile_append_of_pos]
    · simp
    · intro a ha
      exact decide_eq_true fun he => h (he ▸ ha)
  unfold resolveInput readTerminated
  rw [if_pos rfl]
  simp only [if_pos hmem, htake, Option.map_some]

end

/-- The last unit of a text whose pieces are not empty. -/
theorem getLast?_flatMap_eq {β : Type} {f : α → List β} {a : α} {b : β} (hne : ∀ x, f x ≠ [])
    (h : ∀ x, (f x).getLast? = some b ↔ x = a) (l : List α) :
    (l.flatMap f).getLast? = some b ↔ l.getLast? = some a := by
  induction l using List.reverseRecOn with
  | nil => exact iff_of_false nofun nofun
  | append_singleton l x _ =>
    rw [List.flatMap_append, List.flatMap_singleton, List.getLast?_append_of_ne_nil _ (hne x), h x,
      List.getLast?_concat, Option.some.injEq]

theorem utf8_nul (c : Char) : (String.utf8EncodeChar c).getLast? = some 0 ↔ c = Char.ofNat 0 := by
  constructor
  · intro h
    have hmem : UInt8.ofNat (Char.ofNat 0).toNat ∈ String.utf8EncodeChar c :=
      List.mem_of_getLast? h
    exact ((Utf8.mem_encodeChar (by decide)).mp hmem).symm
  · intro h
    rw [h]
    rfl

theorem utf16_nul (c : Char) : (Utf16.encodeChar c).getLast? = some 0 ↔ c = Char.ofNat 0 := by
  rcases Utf16.encodeChar_cases c with ⟨u, -, henc, hchar⟩ | ⟨u, v, -, hv, henc, hchar⟩
  · rw [henc, List.getLast?_singleton, Option.some.injEq]
    constructor
    · rintro rfl
      exact hchar.symm.trans rfl
    · intro h
      rw [h] at henc
      have hzero : Utf16.encodeChar (Char.ofNat 0) = [0] := by decide
      exact (List.singleton_inj.mp (hzero.symm.trans henc)).symm
  · rw [henc]
    refine iff_of_false (fun h => ?_) fun h => ?_
    · have hzero : v = 0 := Option.some.inj h
      rw [hzero] at hv
      exact absurd hv (by decide)
    · rw [h] at henc
      have hzero : Utf16.encodeChar (Char.ofNat 0) = [0] := by decide
      exact absurd (hzero.symm.trans henc) (by simp)

theorem wideUnits_encode (cb : BitVec 32) (t : List Char) :
    wideUnits cpUtf8 cb (Utf8.encode t) =
      if cb = -1 then Utf16.encode t ++ [0] else Utf16.encode t := by
  unfold wideUnits
  simp only [true_or, if_true, Utf8.decode?_encode, String.toList_ofList]

theorem multiBytes_encode (t : List Char) :
    multiBytes cpUtf8 (Utf16.encode t) = Utf8.encode t := by
  unfold multiBytes
  rw [if_pos (Or.inl rfl), decodeLossy_encode]

theorem nul_mem_iff (t : List Char) :
    (0 : UInt8) ∈ Utf8.encode t ↔ (0 : CodeUnit) ∈ Utf16.encode t := by
  have hbyte : (0 : UInt8) ∈ Utf8.encode t ↔ Char.ofNat 0 ∈ t :=
    @Utf8.mem_encode (Char.ofNat 0) t (by decide)
  have hzero : ¬ Surrogate 0 := by decide
  rw [hbyte]
  exact ⟨fun h => Utf16.mem_encode hzero h, fun h => charOf_mem_of_mem_encode hzero h⟩

section

variable {codePage flags count : BitVec 32} {buffer : Bool} {cap : BitVec 32}

theorem multiByteToWideChar_eq {src : Option (List UInt8)} {input : List UInt8}
    (h : resolveInput 0 src count = some (some input)) :
    multiByteToWideChar codePage flags src count buffer cap =
      some (emit (wideUnits codePage count input) buffer cap) := by
  unfold multiByteToWideChar
  rw [h]
  rfl

theorem wideCharToMultiByte_eq {src : Option (List CodeUnit)} {units : List CodeUnit}
    (h : resolveInput 0 src count = some (some units)) :
    wideCharToMultiByte codePage flags src count buffer cap =
      some (emit (multiBytes codePage units) buffer cap) := by
  unfold wideCharToMultiByte
  rw [h]
  rfl

end

theorem roundTrips {s : List CodeUnit} (hs : WellFormed s) (hne : s ≠ []) (hlen : s.length < 2 ^ 31)
    (hbytes : (multiBytes cpUtf8 s).length < 2 ^ 31) : RoundTrips s := by
  obtain ⟨t, rfl⟩ : ∃ t, s = Utf16.encode t := ⟨decodeLossy s, hs.encode_decodeLossy.symm⟩
  have ht : t ≠ [] := fun h => hne (by rw [h]; rfl)
  rw [multiBytes_encode] at hbytes
  refine ⟨?_, ?_, ?_, ?_, ?_⟩
  · intro rest flags cap hcap
    rw [wideCharToMultiByte_eq (resolveInput_explicit hne hlen), emit_room _ hcap]
  · intro rest flags cap hcap
    rw [multiBytes_encode, multiByteToWideChar_eq
      (resolveInput_explicit (Utf8.encode_ne_nil ht) hbytes), wideUnits_encode,
      if_neg (ofNat_ne_neg_one hbytes), emit_room _ hcap]
  · rw [multiBytes_encode]
    refine (getLast?_flatMap_eq (fun _ => String.utf8EncodeChar_ne_nil) utf8_nul t).trans
      (getLast?_flatMap_eq ?_ utf16_nul t).symm
    intro c
    unfold Utf16.encodeChar
    split
    · exact List.cons_ne_nil _ _
    · exact List.cons_ne_nil _ _
  · intro hfree rest flags cap hcap
    rw [wideCharToMultiByte_eq (resolveInput_terminated hfree), emit_room _ hcap]
  · intro hfree rest flags cap hcap
    have hroom : ((Utf16.encode t ++ [0]).length : Int) ≤ cap.toInt := by
      rw [List.length_append]
      exact hcap
    rw [multiBytes_encode, multiByteToWideChar_eq
      (resolveInput_terminated (mt (nul_mem_iff t).mp hfree)), wideUnits_encode, if_pos rfl,
      emit_room _ hroom, List.length_append]
    rfl

/-! ## The whole contract -/

/-- A call that can read its input, by its buffer. -/
def Answers {α : Type} (call : Bool → BitVec 32 → Option (Outcome α)) : Prop :=
  ∃ answer, (∀ buffer cap, call buffer cap = some (answer buffer cap)) ∧ BufferContract answer

/-- **Conversion**: well-formed text comes back, and whatever is converted, well-formed or not, into
    less than 2^31 units, the buffer is respected. -/
theorem code_page_conversion :
    (∀ s, WellFormed s → s ≠ [] → s.length < 2 ^ 31 → (multiBytes cpUtf8 s).length < 2 ^ 31 →
      RoundTrips s) ∧
    (∀ (codePage flags cb : BitVec 32) (src : Option (List UInt8)) (resolved : Option (List UInt8)),
      resolveInput 0 src cb = some resolved →
      (∀ input, resolved = some input → (wideUnits codePage cb input).length < 2 ^ 31) →
        Answers (multiByteToWideChar codePage flags src cb)) ∧
    ∀ (codePage flags cch : BitVec 32) (src : Option (List CodeUnit))
      (resolved : Option (List CodeUnit)), resolveInput 0 src cch = some resolved →
      (∀ units, resolved = some units → (multiBytes codePage units).length < 2 ^ 31) →
        Answers (wideCharToMultiByte codePage flags src cch) := by
  refine ⟨fun s hs hne hlen hbytes => roundTrips hs hne hlen hbytes, ?_, ?_⟩
  · intro codePage flags cb src resolved hresolved hshort
    cases resolved with
    | none =>
      refine ⟨fun _ _ => invalidParameter, fun buffer cap => ?_, invalidParameter_contract⟩
      unfold multiByteToWideChar
      rw [hresolved]
      rfl
    | some input =>
      exact ⟨emit (wideUnits codePage cb input), fun _ _ => multiByteToWideChar_eq hresolved,
        emit_contract _ (hshort input rfl)⟩
  · intro codePage flags cch src resolved hresolved hshort
    cases resolved with
    | none =>
      refine ⟨fun _ _ => invalidParameter, fun buffer cap => ?_, invalidParameter_contract⟩
      unfold wideCharToMultiByte
      rw [hresolved]
      rfl
    | some units =>
      exact ⟨emit (multiBytes codePage units), fun _ _ => wideCharToMultiByte_eq hresolved,
        emit_contract _ (hshort units rfl)⟩

/-- A letter and a pair of surrogates. -/
theorem code_page_conversion_grin : RoundTrips [0x41, 0xD83D, 0xDE00] :=
  code_page_conversion.1 _ (.unit (by decide) (.pair (by decide) (by decide) .nil)) (by decide)
    (by decide) (by decide)

/-! ## Lengths that do not fit -/

theorem utf8_letters (n : Nat) :
    multiBytes cpUtf8 (List.replicate n 0x41) = List.replicate n 0x41 := by
  have hwide : List.replicate n 0x41 = Utf16.encode (List.replicate n 'A') := by
    induction n with
    | zero => rfl
    | succ n ih =>
      rw [List.replicate_succ, List.replicate_succ, Utf16.encode_cons, ← ih]
      rfl
  rw [hwide, multiBytes_encode]
  clear hwide
  induction n with
  | zero => rfl
  | succ n ih =>
    unfold Utf8.encode at ih ⊢
    rw [List.replicate_succ, List.flatMap_cons, ih]
    rfl

theorem emit_wrapped (units : List α) (h : units.length = 2 ^ 31) :
    (emit units true 1).written = units := by
  have hvalue : ¬ (BitVec.ofNat 32 units.length).toInt > (1 : BitVec 32).toInt := by
    rw [h]
    decide
  unfold emit
  rw [if_neg (by decide), if_neg hvalue]

/-- Told to look for a NUL, `WideCharToMultiByte` leaves it out; and 2^31 letters go into a buffer
    of one byte. -/
theorem nul_left_out :
    wideCharToMultiByte cpUtf8 0 (some [0x41, 0]) (-1) true 16 = some ⟨1, none, [0x41]⟩ ∧
      ∃ text answer, wideCharToMultiByte cpUtf8 0 (some text) (-1) true 1 = some answer ∧
        answer.written.length = 2 ^ 31 := by
  refine ⟨by decide, List.replicate (2 ^ 31) 0x41 ++ 0 :: [], _,
    wideCharToMultiByte_eq (resolveInput_terminated ?_), ?_⟩
  · intro hmem
    exact absurd (List.eq_of_mem_replicate hmem) (by decide)
  · rw [utf8_letters, emit_wrapped _ List.length_replicate, List.length_replicate]

end WinCompat.Text
