import WinCompat.Lib.Utf16Order

/-!
# Comparing strings

`compare_string_ordinal` and `compare_string_w` of `win32-kernel32/src/extras.rs`, and `read_wide`
and `compare_string_w` of `extras2.rs`. The two in `extras.rs` read up to a NUL whatever length they
are given, and compare the text that they find there by its characters. The one in `extras2.rs`
compares units.
-/

namespace WinCompat.Text.Compare

open Lib.Utf16

/-- A pointer: null, or the units that can be read there. -/
abbrev WStr := Option (List CodeUnit)

/-- A result, with how many units of each string were read. -/
structure Outcome where
  result : BitVec 32
  readA : Nat
  readB : Nat
  deriving DecidableEq

/-- `CSTR_LESS_THAN`, `CSTR_EQUAL` and `CSTR_GREATER_THAN` -/
def cstr : Ordering → BitVec 32
  | .lt => 1
  | .eq => 2
  | .gt => 3

/-- `String::cmp` -/
def stringCmp (t t' : List Char) : Ordering := compare (t.map Char.toNat) (t'.map Char.toNat)

/-- The units before the first NUL. -/
def upToNul (units : List CodeUnit) : List CodeUnit := units.takeWhile (· ≠ 0)

/-- A string up to its NUL; none if that is not where one can read. -/
def readTerminated (mem : List CodeUnit) : Option (List CodeUnit × Nat) :=
  if 0 ∈ mem then some (upToNul mem, (upToNul mem).length + 1) else none

/-- `utf16_to_string` -/
def utf16ToString (mem : List CodeUnit) : Option (List Char × Nat) :=
  (readTerminated mem).map fun r => (decodeLossy r.1, r.2)

namespace Extras

/-- `compare_string_ordinal` of `extras.rs` -/
def compareStringOrdinal (a : WStr) (_la : BitVec 32) (b : WStr) (_lb : BitVec 32)
    (_ignoreCase : BitVec 32) : Option Outcome :=
  match a, b with
  | some a, some b => do
    let (sa, ra) ← utf16ToString a
    let (sb, rb) ← utf16ToString b
    return ⟨cstr (stringCmp sa sb), ra, rb⟩
  | _, _ => some ⟨2, 0, 0⟩

/-- `compare_string_w` of `extras.rs` -/
def compareStringW (_locale _flags : BitVec 32) (a : WStr) (la : BitVec 32) (b : WStr)
    (lb : BitVec 32) : Option Outcome :=
  match a, b with
  | some a, some b => do
    let (sa, ra) ← utf16ToString a
    let (sb, rb) ← utf16ToString b
    let ea := if 0 ≤ la.toInt then sa.take la.toNat else sa
    let eb := if 0 ≤ lb.toInt then sb.take lb.toNat else sb
    return ⟨cstr (stringCmp ea eb), ra, rb⟩
  | _, _ => some ⟨2, 0, 0⟩

end Extras

namespace Extras2

/-- `read_wide` -/
def readWide (s : List CodeUnit) (len : BitVec 32) : Option (List CodeUnit × Nat) :=
  if len = -1 then readTerminated s
  else if 0 < len.toInt then
    if len.toNat ≤ s.length then some (s.take len.toNat, len.toNat) else none
  else some ([], 0)

/-- `compare_string_w` of `extras2.rs` -/
def compareStringW (_locale _flags : BitVec 32) (s₁ : WStr) (l₁ : BitVec 32) (s₂ : WStr)
    (l₂ : BitVec 32) : Option Outcome :=
  match s₁, s₂ with
  | some s₁, some s₂ => do
    let (v₁, r₁) ← readWide s₁ l₁
    let (v₂, r₂) ← readWide s₂ l₂
    return ⟨cstr (unitOrder v₁ v₂), r₁, r₂⟩
  | _, _ => some ⟨2, 0, 0⟩

end Extras2

/-! ## What is to be compared -/

/-- A string as an argument: a length of -1 means that a NUL follows it, and any other length is
    that of the string. -/
structure WideArg where
  units : List CodeUnit
  /-- What can be read behind it. -/
  after : List CodeUnit
  len : BitVec 32
  valid : len = -1 ∧ 0 ∉ units ∧ after.head? = some 0 ∨ len.toInt = units.length

namespace WideArg

def mem (x : WideArg) : List CodeUnit := x.units ++ x.after

/-- The units that may be read: the string, and its NUL. -/
def extent (x : WideArg) : Nat := if x.len = -1 then x.units.length + 1 else x.units.length

/-- A NUL is found without reading past the string. -/
def Ends (x : WideArg) : Prop := x.len = -1 ∨ 0 ∈ x.units

end WideArg

/-- The order of the units, folded or not. -/
def claimed (fold : CodeUnit → CodeUnit) (ignoreCase : BitVec 32) (x y : WideArg) : Ordering :=
  if ignoreCase = 0 then unitOrder x.units y.units
  else unitOrder (x.units.map fold) (y.units.map fold)

/-- A call returns this order, and reads nothing outside the strings. -/
def Returns (call : Option Outcome) (x y : WideArg) (order : Ordering) : Prop :=
  ∃ out, call = some out ∧ out.result = cstr order ∧ out.readA ≤ x.extent ∧ out.readB ≤ y.extent

structure Compares (fold : CodeUnit → CodeUnit) (locale flags ignoreCase : BitVec 32)
    (x y : WideArg) : Prop where
  ordinal : Returns (Extras.compareStringOrdinal (some x.mem) x.len (some y.mem) y.len ignoreCase)
    x y (claimed fold ignoreCase x y)
  first : Returns (Extras.compareStringW locale flags (some x.mem) x.len (some y.mem) y.len)
    x y (unitOrder x.units y.units)
  second : Returns (Extras2.compareStringW locale flags (some x.mem) x.len (some y.mem) y.len)
    x y (unitOrder x.units y.units)

/-- The strings can be read up to a NUL, differ before it if at all, and are in the same order by
    their characters and, where case is to be ignored, by their folded units. -/
structure Comparable (fold : CodeUnit → CodeUnit) (ignoreCase : BitVec 32) (x y : WideArg) :
    Prop where
  ends : x.Ends ∧ y.Ends
  whole : upToNul x.units = upToNul y.units → x.units = y.units
  order : codePointOrder (upToNul x.units) (upToNul y.units) =
    unitOrder (upToNul x.units) (upToNul y.units)
  folded : ignoreCase ≠ 0 →
    unitOrder (x.units.map fold) (y.units.map fold) = unitOrder x.units y.units

/-! ## Reading -/

variable {x y : WideArg} {us vs : List CodeUnit} {locale flags ignoreCase : BitVec 32}
  {fold : CodeUnit → CodeUnit}

theorem upToNul_of_not_mem (h : 0 ∉ us) (vs : List CodeUnit) :
    upToNul (us ++ vs) = us ++ upToNul vs := by
  unfold upToNul
  apply List.takeWhile_append_of_pos
  intro u hu
  simp only [ne_eq, decide_eq_true_eq]
  rintro rfl
  exact h hu

theorem upToNul_cons (u : CodeUnit) (us : List CodeUnit) :
    upToNul (u :: us) = if u = 0 then [] else u :: upToNul us := by
  unfold upToNul
  by_cases hu : u = 0
  · rw [if_pos hu, List.takeWhile_cons_of_neg (by simp [hu])]
  · rw [if_neg hu, List.takeWhile_cons_of_pos (by simpa using hu)]

theorem upToNul_of_mem (h : 0 ∈ us) (vs : List CodeUnit) : upToNul (us ++ vs) = upToNul us := by
  induction us with
  | nil => exact absurd h List.not_mem_nil
  | cons u us ih =>
    rw [List.cons_append, upToNul_cons, upToNul_cons]
    by_cases hu : u = 0
    · rw [if_pos hu, if_pos hu]
    · rw [if_neg hu, if_neg hu, ih ((List.mem_cons.mp h).resolve_left (Ne.symm hu))]

theorem length_upToNul_lt (h : 0 ∈ us) : (upToNul us).length < us.length := by
  induction us with
  | nil => exact absurd h List.not_mem_nil
  | cons u us ih =>
    rw [upToNul_cons]
    by_cases hu : u = 0
    · rw [if_pos hu]
      exact Nat.succ_pos _
    · rw [if_neg hu]
      exact Nat.succ_lt_succ (ih ((List.mem_cons.mp h).resolve_left (Ne.symm hu)))

theorem upToNul_self (h : 0 ∉ us) : upToNul us = us := by
  have hsplit := upToNul_of_not_mem h []
  rwa [List.append_nil, show upToNul [] = [] from rfl, List.append_nil] at hsplit

/-- What precedes the first NUL decides, if it differs. -/
theorem unitOrder_upToNul (h : upToNul us ≠ upToNul vs) :
    unitOrder us vs = unitOrder (upToNul us) (upToNul vs) := by
  unfold unitOrder
  induction us generalizing vs with
  | nil =>
    cases vs with
    | nil => exact absurd rfl h
    | cons v vs =>
      rw [upToNul_cons] at h ⊢
      by_cases hv : v = 0
      · rw [if_pos hv] at h
        exact absurd rfl h
      · rw [if_neg hv]
        rfl
  | cons u us ih =>
    cases vs with
    | nil =>
      rw [upToNul_cons] at h ⊢
      by_cases hu : u = 0
      · rw [if_pos hu] at h
        exact absurd rfl h
      · rw [if_neg hu]
        rfl
    | cons v vs =>
      rw [upToNul_cons, upToNul_cons] at h ⊢
      by_cases hu : u = 0 <;> by_cases hv : v = 0
      · rw [if_pos hu, if_pos hv] at h
        exact absurd rfl h
      · have hpos : u.toNat < v.toNat := by
          rw [hu]
          exact Nat.pos_of_ne_zero fun h => hv (BitVec.eq_of_toNat_eq h)
        rw [if_pos hu, if_neg hv]
        exact compare_cons_lt hpos _ _
      · have hpos : v.toNat < u.toNat := by
          rw [hv]
          exact Nat.pos_of_ne_zero fun h => hu (BitVec.eq_of_toNat_eq h)
        rw [if_neg hu, if_pos hv]
        exact compare_cons_gt hpos _ _
      · rw [if_neg hu, if_neg hv] at h ⊢
        by_cases heq : u = v
        · subst heq
          have hrest : upToNul us ≠ upToNul vs := fun hsame => h (congrArg (u :: ·) hsame)
          have htail := ih hrest
          simp only [List.map_cons, List.compare_cons_cons] at htail ⊢
          rw [htail]
        · have hne : u.toNat ≠ v.toNat := fun hsame => heq (BitVec.eq_of_toNat_eq hsame)
          rw [List.map_cons, List.map_cons, List.map_cons, List.map_cons, compare_cons_ne hne,
            compare_cons_ne hne]

namespace WideArg

theorem units_of_len (hlen : x.len = -1) : 0 ∉ x.units ∧ ∃ rest, x.after = 0 :: rest := by
  rcases x.valid with ⟨-, hnot, hhead⟩ | hnat
  · refine ⟨hnot, ?_⟩
    cases hafter : x.after with
    | nil => simp [hafter] at hhead
    | cons u rest =>
      rw [hafter, List.head?_cons, Option.some.injEq] at hhead
      exact ⟨rest, by rw [hhead]⟩
  · rw [hlen] at hnat
    exact absurd hnat (by simp)

theorem readTerminated_ends (h : x.Ends) :
    ∃ n ≤ x.extent, readTerminated x.mem = some (upToNul x.units, n) := by
  unfold readTerminated mem
  by_cases hmem : 0 ∈ x.units
  · refine ⟨(upToNul x.units).length + 1, ?_, ?_⟩
    · have hlt := length_upToNul_lt hmem
      unfold extent
      split <;> omega
    · rw [if_pos (List.mem_append_left _ hmem), upToNul_of_mem hmem]
  · have hlen : x.len = -1 := h.resolve_right hmem
    obtain ⟨-, rest, hrest⟩ := units_of_len hlen
    have hup : upToNul (x.units ++ x.after) = x.units := by
      rw [upToNul_of_not_mem hmem, hrest, upToNul_cons, if_pos rfl, List.append_nil]
    refine ⟨x.units.length + 1, ?_, ?_⟩
    · exact Nat.le_of_eq (if_pos hlen).symm
    · rw [hup, upToNul_self hmem, if_pos (by rw [hrest]; simp)]

theorem readTerminated_outside (h : ¬ x.Ends) {r : List CodeUnit × Nat}
    (hr : readTerminated x.mem = some r) : x.extent < r.2 := by
  unfold Ends at h
  rw [not_or] at h
  unfold readTerminated mem at hr
  split at hr
  · rw [← Option.some.inj hr, upToNul_of_not_mem h.2, List.length_append, extent, if_neg h.1]
    omega
  · exact absurd hr (by simp)

end WideArg

/-! ## The implementations -/

theorem cstr_inj {o o' : Ordering} : cstr o = cstr o' ↔ o = o' := by
  cases o <;> cases o' <;> decide

theorem length_le_encode (t : List Char) : t.length ≤ (encode t).length := by
  induction t with
  | nil => exact Nat.le_refl 0
  | cons c t ih =>
    rw [encode_cons, List.length_cons, List.length_append]
    rcases encodeChar_cases c with ⟨u, -, hunit, -⟩ | ⟨u, v, -, -, hpair, -⟩
    · rw [hunit, List.length_singleton]
      omega
    · rw [hpair, List.length_cons]
      omega

theorem length_decodeLossy_le (us : List CodeUnit) : (decodeLossy us).length ≤ us.length := by
  have hle := length_le_encode (decodeLossy us)
  rwa [encode_decodeLossy, length_repair] at hle

theorem stringCmp_decodeLossy (us vs : List CodeUnit) :
    stringCmp (decodeLossy us) (decodeLossy vs) = codePointOrder us vs :=
  compare_decodeLossy us vs

namespace WideArg

theorem toNat_len (h : 0 ≤ x.len.toInt) : x.len.toNat = x.units.length := by
  rcases x.valid with ⟨hlen, -⟩ | hnat
  · rw [hlen] at h
    exact absurd h (by decide)
  · have htoNat : x.len.toInt = x.len.toNat := BitVec.toInt_eq_toNat_of_lt (by
      have hlt := x.len.isLt
      rw [BitVec.toInt_eq_toNat_cond] at h
      split at h <;> omega)
    omega

theorem take_len (x : WideArg) :
    (if 0 ≤ x.len.toInt then (decodeLossy (upToNul x.units)).take x.len.toNat
      else decodeLossy (upToNul x.units)) = decodeLossy (upToNul x.units) := by
  split
  · rename_i h
    apply List.take_of_length_le
    rw [toNat_len h]
    exact Nat.le_trans (length_decodeLossy_le _) (List.takeWhile_sublist _).length_le
  · rfl

theorem readWide_eq (x : WideArg) :
    ∃ n ≤ x.extent, Extras2.readWide x.mem x.len = some (x.units, n) := by
  unfold Extras2.readWide
  by_cases hlen : x.len = -1
  · obtain ⟨n, hn, hread⟩ := readTerminated_ends (Or.inl hlen)
    rw [upToNul_self (units_of_len hlen).1] at hread
    exact ⟨n, hn, by rw [if_pos hlen, hread]⟩
  · have hnat : x.len.toInt = x.units.length := by
      rcases x.valid with ⟨h, -⟩ | h
      · exact absurd h hlen
      · exact h
    have hextent : x.extent = x.units.length := if_neg hlen
    rw [if_neg hlen]
    by_cases hpos : 0 < x.len.toInt
    · have htoNat := toNat_len (Int.le_of_lt hpos)
      have hroom : x.units.length ≤ x.mem.length := by
        rw [mem, List.length_append]
        omega
      refine ⟨x.units.length, Nat.le_of_eq hextent.symm, ?_⟩
      rw [if_pos hpos, htoNat, if_pos hroom, mem, List.take_left]
    · have hnil : x.units = [] := List.length_eq_zero_iff.mp (by omega)
      refine ⟨0, Nat.zero_le _, ?_⟩
      rw [if_neg hpos, hnil]

end WideArg

theorem second_returns (locale flags : BitVec 32) (x y : WideArg) :
    Returns (Extras2.compareStringW locale flags (some x.mem) x.len (some y.mem) y.len) x y
      (unitOrder x.units y.units) := by
  obtain ⟨n, hn, hx⟩ := x.readWide_eq
  obtain ⟨m, hm, hy⟩ := y.readWide_eq
  refine ⟨⟨cstr (unitOrder x.units y.units), n, m⟩, ?_, rfl, hn, hm⟩
  simp only [Extras2.compareStringW, hx, hy]
  rfl

theorem first_eq_ordinal (hx : x.Ends) (hy : y.Ends) :
    Extras.compareStringW locale flags (some x.mem) x.len (some y.mem) y.len =
      Extras.compareStringOrdinal (some x.mem) x.len (some y.mem) y.len ignoreCase := by
  obtain ⟨n, -, hreadx⟩ := WideArg.readTerminated_ends hx
  obtain ⟨m, -, hready⟩ := WideArg.readTerminated_ends hy
  simp only [Extras.compareStringW, Extras.compareStringOrdinal, utf16ToString, hreadx, hready,
    Option.map_some]
  show some _ = some _
  rw [x.take_len, y.take_len]

theorem ordinal_eq (hx : x.Ends) (hy : y.Ends) :
    ∃ n ≤ x.extent, ∃ m ≤ y.extent,
      Extras.compareStringOrdinal (some x.mem) x.len (some y.mem) y.len ignoreCase =
        some ⟨cstr (codePointOrder (upToNul x.units) (upToNul y.units)), n, m⟩ := by
  obtain ⟨n, hn, hreadx⟩ := WideArg.readTerminated_ends hx
  obtain ⟨m, hm, hready⟩ := WideArg.readTerminated_ends hy
  refine ⟨n, hn, m, hm, ?_⟩
  rw [← stringCmp_decodeLossy]
  simp only [Extras.compareStringOrdinal, utf16ToString, hreadx, hready, Option.map_some]
  rfl

theorem ordinal_ends {order : Ordering}
    (h : Returns (Extras.compareStringOrdinal (some x.mem) x.len (some y.mem) y.len ignoreCase) x y
      order) : x.Ends ∧ y.Ends := by
  obtain ⟨out, hout, -, hreadA, hreadB⟩ := h
  simp only [Extras.compareStringOrdinal, utf16ToString] at hout
  cases hx : readTerminated x.mem with
  | none => simp [hx] at hout
  | some rx =>
    cases hy : readTerminated y.mem with
    | none => simp [hx, hy] at hout
    | some ry =>
      rw [hx, hy] at hout
      have hsame := Option.some.inj hout
      rw [← hsame] at hreadA hreadB
      constructor
      · by_contra hnot
        exact absurd (WideArg.readTerminated_outside hnot hx) (Nat.not_lt.mpr hreadA)
      · by_contra hnot
        exact absurd (WideArg.readTerminated_outside hnot hy) (Nat.not_lt.mpr hreadB)

/-! ## Orders -/

/-- The results of a comparison are those of a total order, as far as there are any. -/
structure Ordered (f : WideArg → WideArg → Option (BitVec 32)) : Prop where
  antisymm : ∀ x y r, f x y = some r → f y x = some (4 - r)
  trans : ∀ x y z r r', f x y = some r → f y z = some r' → r ≠ 3 → r' ≠ 3 →
    ∃ r'', f x z = some r'' ∧ r'' ≠ 3

theorem cstr_swap (o : Ordering) : cstr o.swap = 4 - cstr o := by
  cases o <;> decide

theorem cstr_ne_three (o : Ordering) : cstr o ≠ 3 ↔ o.isLE := by
  cases o <;> decide

theorem ordered_of_key {f : WideArg → WideArg → Option (BitVec 32)}
    (key : WideArg → Option (List Nat))
    (hf : ∀ x y, f x y = (key x).bind fun a => (key y).bind fun b => some (cstr (compare a b))) :
    Ordered f where
  antisymm x y r h := by
    rw [hf] at h ⊢
    obtain ⟨a, ha, hrest⟩ := Option.bind_eq_some_iff.mp h
    obtain ⟨b, hb, hr⟩ := Option.bind_eq_some_iff.mp hrest
    rw [ha, hb, ← Option.some.inj hr, ← cstr_swap, ← Std.OrientedOrd.eq_swap]
    rfl
  trans x y z r r' h h' hle hle' := by
    rw [hf] at h h' ⊢
    obtain ⟨a, ha, hrest⟩ := Option.bind_eq_some_iff.mp h
    obtain ⟨b, hb, hr⟩ := Option.bind_eq_some_iff.mp hrest
    obtain ⟨b', hb', hrest'⟩ := Option.bind_eq_some_iff.mp h'
    obtain ⟨c, hc, hr'⟩ := Option.bind_eq_some_iff.mp hrest'
    obtain rfl : b = b' := Option.some.inj (hb.symm.trans hb')
    rw [← Option.some.inj hr, cstr_ne_three] at hle
    rw [← Option.some.inj hr', cstr_ne_three] at hle'
    refine ⟨cstr (compare a c), by rw [ha, hc]; rfl, ?_⟩
    rw [cstr_ne_three]
    exact Std.TransOrd.isLE_trans hle hle'

theorem ordered_ordinal (ignoreCase : BitVec 32) : Ordered fun x y =>
    (Extras.compareStringOrdinal (some x.mem) x.len (some y.mem) y.len ignoreCase).map
      Outcome.result := by
  refine ordered_of_key (fun x => (utf16ToString x.mem).map fun r => r.1.map Char.toNat) ?_
  intro x y
  simp only [Extras.compareStringOrdinal]
  cases utf16ToString x.mem <;> cases utf16ToString y.mem <;> rfl

theorem ordered_first (locale flags : BitVec 32) : Ordered fun x y =>
    (Extras.compareStringW locale flags (some x.mem) x.len (some y.mem) y.len).map
      Outcome.result := by
  refine ordered_of_key (fun x => (utf16ToString x.mem).map fun r =>
    (if 0 ≤ x.len.toInt then r.1.take x.len.toNat else r.1).map Char.toNat) ?_
  intro x y
  simp only [Extras.compareStringW]
  cases utf16ToString x.mem <;> cases utf16ToString y.mem <;> rfl

theorem ordered_second (locale flags : BitVec 32) : Ordered fun x y =>
    (Extras2.compareStringW locale flags (some x.mem) x.len (some y.mem) y.len).map
      Outcome.result := by
  refine ordered_of_key (fun x => (Extras2.readWide x.mem x.len).map fun r =>
    r.1.map BitVec.toNat) ?_
  intro x y
  simp only [Extras2.compareStringW]
  cases Extras2.readWide x.mem x.len <;> cases Extras2.readWide y.mem y.len <;> rfl

/-! ## The order claimed -/

theorem codePointOrder_self (us : List CodeUnit) : codePointOrder us us = .eq :=
  Std.ReflOrd.compare_self

theorem unitOrder_self (us : List CodeUnit) : unitOrder us us = .eq :=
  Std.ReflOrd.compare_self

theorem codePointOrder_upToNul_iff (us vs : List CodeUnit) :
    codePointOrder (upToNul us) (upToNul vs) = unitOrder us vs ↔
      (upToNul us = upToNul vs → us = vs) ∧
        codePointOrder (upToNul us) (upToNul vs) = unitOrder (upToNul us) (upToNul vs) := by
  by_cases hsame : upToNul us = upToNul vs
  · rw [hsame, codePointOrder_self, unitOrder_self]
    constructor
    · intro h
      exact ⟨fun _ => unitOrder_eq_eq.mp h.symm, rfl⟩
    · intro h
      exact (unitOrder_eq_eq.mpr (h.1 rfl)).symm
  · rw [unitOrder_upToNul hsame]
    constructor
    · intro h
      exact ⟨fun heq => absurd heq hsame, h⟩
    · intro h
      exact h.2

/-- **Three comparisons return the order of the units exactly if** the two strings are comparable.
    What each of them returns is an order in any case. -/
theorem compare_string_iff (fold : CodeUnit → CodeUnit) (locale flags ignoreCase : BitVec 32) :
    (∀ x y, Compares fold locale flags ignoreCase x y ↔ Comparable fold ignoreCase x y) ∧
      Ordered (fun x y => (Extras.compareStringOrdinal (some x.mem) x.len (some y.mem) y.len
        ignoreCase).map Outcome.result) ∧
      Ordered (fun x y => (Extras.compareStringW locale flags (some x.mem) x.len (some y.mem)
        y.len).map Outcome.result) ∧
      Ordered (fun x y => (Extras2.compareStringW locale flags (some x.mem) x.len (some y.mem)
        y.len).map Outcome.result) := by
  refine ⟨?_, ordered_ordinal ignoreCase, ordered_first locale flags, ordered_second locale flags⟩
  intro x y
  constructor
  · intro h
    have hends := ordinal_ends h.ordinal
    obtain ⟨n, -, m, -, hcall⟩ := @ordinal_eq x y ignoreCase hends.1 hends.2
    have hresult (order : Ordering) (hr : Returns (Extras.compareStringOrdinal (some x.mem) x.len
        (some y.mem) y.len ignoreCase) x y order) :
        codePointOrder (upToNul x.units) (upToNul y.units) = order := by
      obtain ⟨out, hout, hres, -, -⟩ := hr
      rw [hcall] at hout
      rw [← Option.some.inj hout] at hres
      exact cstr_inj.mp hres
    have hfirst := h.first
    rw [first_eq_ordinal hends.1 hends.2] at hfirst
    have horder := hresult _ hfirst
    obtain ⟨hwhole, hchars⟩ := (codePointOrder_upToNul_iff _ _).mp horder
    refine ⟨hends, hwhole, hchars, ?_⟩
    intro hfold
    have hclaimed := hresult _ h.ordinal
    rw [claimed, if_neg hfold] at hclaimed
    exact hclaimed.symm.trans horder
  · intro h
    obtain ⟨n, hn, m, hm, hcall⟩ := @ordinal_eq x y ignoreCase h.ends.1 h.ends.2
    have horder := (codePointOrder_upToNul_iff _ _).mpr ⟨h.whole, h.order⟩
    have hclaimed : claimed fold ignoreCase x y = unitOrder x.units y.units := by
      unfold claimed
      split
      · rfl
      · rename_i hfold
        exact h.folded hfold
    rw [horder] at hcall
    refine ⟨⟨_, hcall, ?_, hn, hm⟩, ?_, second_returns locale flags x y⟩
    · rw [hclaimed]
    · rw [first_eq_ordinal h.ends.1 h.ends.2]
      exact ⟨_, hcall, rfl, hn, hm⟩

/-- U+1F600 and U+FF5E, each with a NUL behind it. -/
def grin : WideArg where
  units := [0xD83D, 0xDE00]
  after := [0]
  len := -1
  valid := Or.inl (by decide)

def tilde : WideArg where
  units := [0xFF5E]
  after := [0]
  len := -1
  valid := Or.inl (by decide)

/-- The surrogate is the lesser unit, and the greater character. -/
theorem grin_tilde :
    unitOrder grin.units tilde.units = .lt ∧
      Extras.compareStringOrdinal (some grin.mem) (-1) (some tilde.mem) (-1) 0 = some ⟨3, 3, 2⟩ ∧
      Extras.compareStringW 0 0 (some grin.mem) (-1) (some tilde.mem) (-1) = some ⟨3, 3, 2⟩ ∧
      Extras2.compareStringW 0 0 (some grin.mem) (-1) (some tilde.mem) (-1) = some ⟨1, 3, 2⟩ := by
  decide

end WinCompat.Text.Compare
