import WinCompat.Lib.Bytes
import WinCompat.Lib.Search

/-!
# Searching strings

The narrow and wide string functions of `win32-kernel32/src/ucrt.rs`. A pointer is the list of the
units that may be read from it on, and a function that reads past them has no result; so one with
a result on a string and its NUL, whatever is behind them, has read nothing else. Positions are
counted from the pointer.
-/

namespace WinCompat.Crt

open Lib Lib.Bytes Lib.Search

variable {α : Type} [Zero α] [DecidableEq α]

abbrev CodeUnit := BitVec 16

/-- Units without a NUL among them. -/
structure Text (α : Type) [Zero α] where
  units : List α
  clean : (0 : α) ∉ units

namespace Text

/-- The string in memory, with its NUL and what is behind it. -/
def held (s : Text α) (beyond : List α) : List α := s.units ++ 0 :: beyond

def length (s : Text α) : Nat := s.units.length

end Text

/-! ## The functions -/

/-- `strlen` and `wcslen` from `n` on. -/
def lengthFrom : List α → Nat → Option Nat
  | [], _ => none
  | ch :: m, n => if ch ≠ 0 then lengthFrom m (n + 1) else some n

/-- The loop of `strchr` and `wcschr`. -/
def chrFrom (c : α) : List α → Nat → Option (Option Nat)
  | [], _ => none
  | ch :: m, i =>
      if ch = c then some (some i) else if ch = 0 then some none else chrFrom c m (i + 1)

def strchr (s : Option (List Byte)) (c : BitVec 32) : Option (Option Nat) :=
  match s with
  | none => some none
  | some m => chrFrom (c.setWidth 8) m 0

def wcschr (s : Option (List CodeUnit)) (c : CodeUnit) : Option (Option Nat) :=
  match s with
  | none => some none
  | some m => chrFrom c m 0

/-- The loop of `wcsrchr`. -/
def rchrFrom (c : α) : List α → Nat → Option Nat → Option (Option Nat)
  | [], _, _ => none
  | ch :: m, i, found =>
      let found := if ch = c then some i else found
      if ch = 0 then some found else rchrFrom c m (i + 1) found

def wcsrchr (s : Option (List CodeUnit)) (c : CodeUnit) : Option (Option Nat) :=
  match s with
  | none => some none
  | some m => rchrFrom c m 0 none

/-- `(0..n).all(|j| *a.add(j) == *b.add(j))` -/
def agree : Nat → List α → List α → Option Bool
  | 0, _, _ => some true
  | n + 1, x :: a, y :: b => if x = y then agree n a b else some false
  | _ + 1, _, _ => none

/-- The body of `strstr` and of `wcsstr`. -/
def find (haystack needle : Option (List α)) : Option (Option Nat) :=
  match haystack, needle with
  | some hay, some needle => do
      let needleLen ← lengthFrom needle 0
      if needleLen = 0 then some (some 0)
      else
        let hayLen ← lengthFrom hay 0
        if hayLen < needleLen then some none
        else scanUp (fun i => agree needleLen (hay.drop i) needle) 0 (hayLen - needleLen + 1)
  | _, _ => some none

def strstr (haystack needle : Option (List Byte)) : Option (Option Nat) := find haystack needle

def wcsstr (haystack needle : Option (List CodeUnit)) : Option (Option Nat) := find haystack needle

/-- The inner loop of `wcspbrk` and `wcscspn`. -/
def hit (ch : α) : List α → Option Bool
  | [] => none
  | x :: set => if x = 0 then some false else if x = ch then some true else hit ch set

/-- The loop of `wcspbrk`. -/
def pbrkFrom (set : List α) : List α → Nat → Option (Option Nat)
  | [], _ => none
  | ch :: m, i =>
      if ch = 0 then some none
      else
        match hit ch set with
        | none => none
        | some true => some (some i)
        | some false => pbrkFrom set m (i + 1)

def wcspbrk (s set : Option (List CodeUnit)) : Option (Option Nat) :=
  match s, set with
  | some m, some set => pbrkFrom set m 0
  | _, _ => some none

/-- The loop of `wcscspn`. -/
def cspnFrom (set : List α) : List α → Nat → Option Nat
  | [], _ => none
  | ch :: m, i =>
      if ch = 0 then some i
      else
        match hit ch set with
        | none => none
        | some true => some i
        | some false => cspnFrom set m (i + 1)

def wcscspn (s set : Option (List CodeUnit)) : Option Nat :=
  match s, set with
  | some m, some set => cspnFrom set m 0
  | _, _ => some 0

/-- `wchar_ascii_tolower` -/
def wcharAsciiTolower (c : CodeUnit) : CodeUnit := if 0x41 ≤ c ∧ c ≤ 0x5A then c + 32 else c

/-- The loop of `wcsicmp`. -/
def icmpFrom : List CodeUnit → List CodeUnit → Option Int
  | x :: a, y :: b =>
      let ca := wcharAsciiTolower x
      let cb := wcharAsciiTolower y
      if ca ≠ cb then some ((ca.toNat : Int) - cb.toNat)
      else if ca = 0 then some 0
      else icmpFrom a b
  | _, _ => none

def wcsicmp (a b : Option (List CodeUnit)) : Option Int :=
  match a, b with
  | some a, some b => icmpFrom a b
  | _, _ => some ((if a.isNone then 1 else 0) - (if b.isNone then 1 else 0))

/-- The loop of `wcsnicmp`. -/
def nicmpFrom : Nat → List CodeUnit → List CodeUnit → Option Int
  | 0, _, _ => some 0
  | n + 1, x :: a, y :: b =>
      let ca := wcharAsciiTolower x
      let cb := wcharAsciiTolower y
      if ca ≠ cb then some ((ca.toNat : Int) - cb.toNat)
      else if ca = 0 then some 0
      else nicmpFrom n a b
  | _ + 1, _, _ => none

def wcsnicmp (a b : Option (List CodeUnit)) (n : Nat) : Option Int :=
  match a, b with
  | some a, some b => nicmpFrom n a b
  | _, _ => some 0

/-- The loop of `wcslwr`. -/
def lwrFrom : List CodeUnit → Option (List CodeUnit)
  | [] => none
  | c :: m => if c = 0 then some (c :: m) else (lwrFrom m).map (wcharAsciiTolower c :: ·)

/-- `wcslwr`: the memory after it. -/
def wcslwr (s : Option (List CodeUnit)) : Option (Option (List CodeUnit)) :=
  match s with
  | none => some none
  | some m => (lwrFrom m).map some

/-- The loop of `wcsrev`. -/
def swapEnds (m : List α) (i j : Nat) : Option (List α) :=
  if i < j then do
    let x ← m[i]?
    let y ← m[j]?
    swapEnds ((m.set i y).set j x) (i + 1) (j - 1)
  else some m
termination_by j - i

/-- `wcsrev`: the memory after it. -/
def wcsrev (s : Option (List CodeUnit)) : Option (Option (List CodeUnit)) :=
  match s with
  | none => some none
  | some m => do
      let len ← lengthFrom m 0
      if len ≤ 1 then some (some m) else (swapEnds m 0 (len - 1)).map some

/-! ## What they find -/

section

variable {s t : List α} {m : List α}

omit [DecidableEq α] in
theorem clean_cons {x : α} (h : (0 : α) ∉ x :: s) : x ≠ 0 ∧ (0 : α) ∉ s :=
  ⟨fun hx => h (hx ▸ List.mem_cons_self), fun hs => h (List.mem_cons_of_mem _ hs)⟩

theorem lengthFrom_eq (hs : (0 : α) ∉ s) (n : Nat) :
    lengthFrom (s ++ 0 :: m) n = some (n + s.length) := by
  induction s generalizing n with
  | nil => simp [lengthFrom]
  | cons x s ih =>
    obtain ⟨hx, hs⟩ := clean_cons hs
    simp only [List.cons_append, lengthFrom, if_pos hx, ih hs, List.length_cons]
    congr 1
    omega

theorem chrFrom_first (hs : (0 : α) ∉ s) (c : α) (n : Nat) :
    ∃ r, chrFrom c (s ++ 0 :: m) n = some (r.map (n + ·)) ∧
      First (fun i => (s ++ [0])[i]? = some c) r := by
  induction s generalizing n with
  | nil =>
    by_cases hc : (0 : α) = c
    · exact ⟨some 0, by simp [chrFrom, hc], by simp [hc], nofun⟩
    · refine ⟨none, by simp [chrFrom, hc], fun i hi => ?_⟩
      cases i with
      | zero => exact hc (by simpa using hi)
      | succ i => simp at hi
  | cons x s ih =>
    obtain ⟨hx, hs⟩ := clean_cons hs
    by_cases hc : x = c
    · exact ⟨some 0, by simp [chrFrom, hc], by simp [hc], nofun⟩
    · obtain ⟨r, hr, hfirst⟩ := ih hs (n + 1)
      refine ⟨r.map (· + 1), ?_, ?_⟩
      · simp only [List.cons_append, chrFrom, if_neg hc, if_neg hx, hr, Option.map_map]
        cases r <;> simp; omega
      · have hzero : ¬ (x :: (s ++ [0]))[0]? = some c := by simpa using hc
        cases r with
        | none =>
          rintro (_ | i) hi
          · exact hzero hi
          · exact hfirst i (by simpa using hi)
        | some k =>
          refine ⟨by simpa using hfirst.1, ?_⟩
          rintro (_ | i) hlt hi
          · exact hzero hi
          · exact hfirst.2 i (Nat.lt_of_succ_lt_succ hlt) (by simpa using hi)

theorem rchrFrom_last (hs : (0 : α) ∉ s) (c : α) (n : Nat) (found : Option Nat) :
    ∃ r, rchrFrom c (s ++ 0 :: m) n found = some ((r.map (n + ·)).or found) ∧
      Last (fun i => (s ++ [0])[i]? = some c) r := by
  induction s generalizing n found with
  | nil =>
    by_cases hc : (0 : α) = c
    · refine ⟨some 0, by simp [rchrFrom, hc], by simp [hc], fun i hi => ?_⟩
      simp [Nat.ne_of_gt hi]
    · refine ⟨none, by simp [rchrFrom, hc], fun i hi => ?_⟩
      cases i with
      | zero => exact hc (by simpa using hi)
      | succ i => simp at hi
  | cons x s ih =>
    obtain ⟨hx, hs⟩ := clean_cons hs
    obtain ⟨r, hr, hlast⟩ := ih hs (n + 1) (if x = c then some n else found)
    simp only [List.cons_append, rchrFrom, if_neg hx, hr]
    cases r with
    | some k =>
      refine ⟨some (k + 1), by simp; omega, by simpa using hlast.1, ?_⟩
      rintro (_ | i) hlt hi
      · omega
      · exact hlast.2 i (Nat.lt_of_succ_lt_succ hlt) (by simpa using hi)
    | none =>
      have hrest : ∀ i, ¬ (x :: (s ++ [0]))[i + 1]? = some c := fun i hi =>
        hlast i (by simpa using hi)
      by_cases hc : x = c
      · refine ⟨some 0, by simp [hc], by simp [hc], ?_⟩
        rintro (_ | i) hlt
        · omega
        · exact hrest i
      · refine ⟨none, by simp [hc], ?_⟩
        rintro (_ | i) hi
        · exact hc (by simpa using hi)
        · exact hrest i hi

omit [Zero α] in
theorem agree_eq (t m : List α) {hay : List α} (h : t.length ≤ hay.length) :
    ∃ b, agree t.length hay (t ++ m) = some b ∧ (b = true ↔ t <+: hay) := by
  induction t generalizing hay with
  | nil => exact ⟨true, rfl, by simp⟩
  | cons y t ih =>
    cases hay with
    | nil => simp at h
    | cons x hay =>
      simp only [List.length_cons, List.cons_append, agree, List.cons_prefix_cons]
      by_cases hxy : x = y
      · obtain ⟨b, hb, hiff⟩ := ih (Nat.le_of_succ_le_succ h)
        exact ⟨b, by rw [if_pos hxy, hb], by simp [hiff, hxy]⟩
      · exact ⟨false, if_neg hxy, by simp [Ne.symm hxy]⟩

theorem find_first {m' : List α} (hs : (0 : α) ∉ s) (ht : (0 : α) ∉ t) :
    ∃ r, find (some (s ++ 0 :: m)) (some (t ++ 0 :: m')) = some r ∧
      First (fun i => t <+: s.drop i) r := by
  simp only [find, lengthFrom_eq hs, lengthFrom_eq ht, Nat.zero_add, Option.bind_eq_bind,
    Option.bind_some]
  split
  · next hnil =>
    refine ⟨some 0, rfl, ?_, nofun⟩
    rw [List.length_eq_zero_iff.mp hnil]
    exact List.nil_prefix
  have hlen : ∀ i, t <+: s.drop i → t.length ≤ s.length - i := fun i h => by
    simpa using h.length_le
  split
  · exact ⟨none, rfl, fun i hi => by have := hlen i hi; omega⟩
  · have hat : ∀ i, 0 ≤ i → i < 0 + (s.length - t.length + 1) → ∃ b,
        agree t.length ((s ++ 0 :: m).drop i) (t ++ 0 :: m') = some b ∧
          (b = true ↔ t <+: s.drop i) := by
      intro i _ hi
      have hfits : t.length ≤ ((s ++ 0 :: m).drop i).length := by
        simp
        omega
      obtain ⟨b, hb, hiff⟩ := agree_eq t (0 :: m') hfits
      refine ⟨b, hb, hiff.trans ?_⟩
      rw [List.drop_append_of_le_length (by omega), List.prefix_iff_eq_take,
        List.prefix_iff_eq_take, List.take_append_of_le_length (by simp; omega)]
    obtain ⟨r, hr, hfirst⟩ := scanUp_first hat
    refine ⟨r, hr, hfirst.congr fun i => and_iff_right_of_imp fun hi => ?_⟩
    have := hlen i hi
    omega

theorem hit_eq (ht : (0 : α) ∉ t) (ch : α) : hit ch (t ++ 0 :: m) = some (decide (ch ∈ t)) := by
  induction t with
  | nil => simp [hit]
  | cons y t ih =>
    obtain ⟨hy, ht⟩ := clean_cons ht
    by_cases hch : y = ch
    · simp [hit, hch, hch ▸ hy]
    · simp [hit, hy, hch, Ne.symm hch, ih ht]

/-- The longest prefix of `s` without a unit of `set`. -/
def spanOutside (s set : List α) : List α := s.takeWhile (· ∉ set)

theorem cspnFrom_eq {m' : List α} (hs : (0 : α) ∉ s) (ht : (0 : α) ∉ t) (n : Nat) :
    cspnFrom (t ++ 0 :: m') (s ++ 0 :: m) n = some (n + (spanOutside s t).length) := by
  induction s generalizing n with
  | nil => simp [cspnFrom, spanOutside]
  | cons x s ih =>
    obtain ⟨hx, hs⟩ := clean_cons hs
    simp only [List.cons_append, cspnFrom, if_neg hx, hit_eq ht, spanOutside]
    by_cases hmem : x ∈ t
    · simp [hmem]
    · simp only [hmem, decide_false, ih hs, spanOutside, List.takeWhile_cons, not_false_eq_true,
        decide_true, if_true, List.length_cons]
      congr 1
      omega

theorem pbrkFrom_eq {m' : List α} (hs : (0 : α) ∉ s) (ht : (0 : α) ∉ t) (n : Nat) :
    pbrkFrom (t ++ 0 :: m') (s ++ 0 :: m) n =
      some (if (spanOutside s t).length = s.length then none
        else some (n + (spanOutside s t).length)) := by
  induction s generalizing n with
  | nil => simp [pbrkFrom, spanOutside]
  | cons x s ih =>
    obtain ⟨hx, hs⟩ := clean_cons hs
    simp only [List.cons_append, pbrkFrom, if_neg hx, hit_eq ht, spanOutside]
    by_cases hmem : x ∈ t
    · simp [hmem]
    · simp only [hmem, decide_false, ih hs, spanOutside, List.takeWhile_cons, not_false_eq_true,
        decide_true, if_true, List.length_cons, Nat.add_right_cancel_iff]
      congr 2
      rw [Nat.add_assoc, Nat.add_comm 1]

omit [Zero α] [DecidableEq α] in
theorem swapEnds_eq (mid pre post : List α) :
    swapEnds (pre ++ mid ++ post) pre.length (pre.length + mid.length - 1) =
      some (pre ++ mid.reverse ++ post) := by
  induction mid using List.bidirectionalRec generalizing pre post with
  | nil =>
    rw [swapEnds, if_neg (by simp)]
    simp
  | singleton x =>
    rw [swapEnds, if_neg (by simp)]
    simp
  | cons_append x mid y ih =>
    have hx : (pre ++ (x :: (mid ++ [y])) ++ post)[pre.length]? = some x := by simp
    have hy : (pre ++ (x :: (mid ++ [y])) ++ post)[pre.length + (mid.length + 1)]? = some y := by
      simp
    have hset : ((pre ++ (x :: (mid ++ [y])) ++ post).set pre.length y).set
        (pre.length + (mid.length + 1)) x = (pre ++ [y]) ++ mid ++ (x :: post) := by
      simp [List.set_append_right]
    have hnext := ih (pre ++ [y]) (x :: post)
    rw [List.length_append, List.length_singleton] at hnext
    have hlast : pre.length + (x :: (mid ++ [y])).length - 1 = pre.length + (mid.length + 1) := by
      simp
    rw [hlast, swapEnds, if_pos (by omega), hx, hy]
    simp only [Option.bind_eq_bind, Option.bind_some, hset]
    rw [show pre.length + (mid.length + 1) - 1 = pre.length + 1 + mid.length - 1 by omega, hnext]
    simp

end

theorem wcsrev_eq {s m : List CodeUnit} (hs : 0 ∉ s) :
    wcsrev (some (s ++ 0 :: m)) = some (some (s.reverse ++ 0 :: m)) := by
  simp only [wcsrev, lengthFrom_eq hs, Nat.zero_add, Option.bind_eq_bind, Option.bind_some]
  split
  · next hle =>
    obtain _ | ⟨x, _ | ⟨y, s⟩⟩ := s
    · rfl
    · rfl
    · simp at hle
  · have h := swapEnds_eq s [] (0 :: m)
    simpa using h

/-! ## Comparing without case -/

/-- The text after `_wcslwr`. -/
def folded (s : List CodeUnit) : List CodeUnit := s.map wcharAsciiTolower

theorem tolower_eq_zero {c : CodeUnit} : wcharAsciiTolower c = 0 ↔ c = 0 := by
  unfold wcharAsciiTolower
  split
  · bv_omega
  · rfl

theorem lwrFrom_eq {s : List CodeUnit} (hs : 0 ∉ s) (m : List CodeUnit) :
    lwrFrom (s ++ 0 :: m) = some (folded s ++ 0 :: m) := by
  induction s with
  | nil => simp [lwrFrom, folded]
  | cons x s ih =>
    obtain ⟨hx, hs⟩ := clean_cons hs
    simp only [List.cons_append, lwrFrom, if_neg hx, ih hs, Option.map_some]
    rfl

/-- The sign of `r` is that of the order of the units. -/
structure Orders {w : Nat} (r : Int) (a b : List (BitVec w)) : Prop where
  lt : r < 0 ↔ a.map BitVec.toNat < b.map BitVec.toNat
  eq : r = 0 ↔ a = b
  gt : 0 < r ↔ b.map BitVec.toNat < a.map BitVec.toNat

theorem Orders.cons {w : Nat} {r : Int} {a b : List (BitVec w)} (h : Orders r a b) (c : BitVec w) :
    Orders r (c :: a) (c :: b) := by
  refine ⟨?_, ?_, ?_⟩
  · simp [h.lt]
  · simp [h.eq]
  · simp [h.gt]

theorem Orders.head {w : Nat} {x y : BitVec w} (h : x ≠ y) (a b : List (BitVec w)) :
    Orders ((x.toNat : Int) - y.toNat) (x :: a) (y :: b) := by
  have hne : x.toNat ≠ y.toNat := fun heq => h (BitVec.eq_of_toNat_eq heq)
  refine ⟨?_, ?_, ?_⟩
  · rw [List.map_cons, List.map_cons, List.cons_lt_cons_iff]
    omega
  · simp only [List.cons.injEq, h, false_and, iff_false]
    omega
  · rw [List.map_cons, List.map_cons, List.cons_lt_cons_iff]
    omega

theorem Orders.nil {w : Nat} : Orders (w := w) 0 [] [] := ⟨by simp, by simp, by simp⟩

theorem nicmpFrom_orders {a b : List CodeUnit} (ha : 0 ∉ a) (hb : 0 ∉ b) (m m' : List CodeUnit)
    (n : Nat) : ∃ r, nicmpFrom n (a ++ 0 :: m) (b ++ 0 :: m') = some r ∧
      Orders r ((folded a).take n) ((folded b).take n) := by
  induction n generalizing a b with
  | zero => exact ⟨0, by simp [nicmpFrom], by simpa using Orders.nil⟩
  | succ n ih =>
    have hnul : wcharAsciiTolower 0 = 0 := by decide
    obtain _ | ⟨x, a⟩ := a
    · obtain _ | ⟨y, b⟩ := b
      · exact ⟨0, by simp only [List.nil_append, nicmpFrom, hnul, if_true, ne_eq, not_true_eq_false,
          if_false], by simpa [folded] using Orders.nil⟩
      · have hy : 0 ≠ wcharAsciiTolower y := fun h => (clean_cons hb).1 (tolower_eq_zero.mp h.symm)
        simp only [List.nil_append, List.cons_append, nicmpFrom, hnul]
        refine ⟨_, if_pos hy, ?_⟩
        have hpos : 0 < (wcharAsciiTolower y).toNat := by bv_omega
        refine ⟨?_, ?_, ?_⟩ <;> simp [folded] <;> omega
    · obtain ⟨hx, ha⟩ := clean_cons ha
      have hx : wcharAsciiTolower x ≠ 0 := fun h => hx (tolower_eq_zero.mp h)
      obtain _ | ⟨y, b⟩ := b
      · simp only [List.nil_append, List.cons_append, nicmpFrom, hnul]
        refine ⟨_, if_pos hx, ?_⟩
        have hpos : 0 < (wcharAsciiTolower x).toNat := by bv_omega
        refine ⟨?_, ?_, ?_⟩ <;> simp [folded] <;> omega
      · simp only [List.cons_append, nicmpFrom, folded, List.map_cons, List.take_succ_cons]
        by_cases hxy : wcharAsciiTolower x = wcharAsciiTolower y
        · obtain ⟨r, hr, horders⟩ := ih ha (clean_cons hb).2
          rw [if_neg (not_not.mpr hxy), if_neg hx, hr, hxy]
          exact ⟨r, rfl, horders.cons _⟩
        · exact ⟨_, if_pos hxy, .head hxy _ _⟩

theorem icmpFrom_eq (a m m' : List CodeUnit) {n : Nat} (h : a.length < n) :
    icmpFrom (a ++ 0 :: m) m' = nicmpFrom n (a ++ 0 :: m) m' := by
  induction a generalizing m' n with
  | nil =>
    obtain ⟨n, rfl⟩ := Nat.exists_eq_add_of_lt h
    have hnul : wcharAsciiTolower 0 = 0 := by decide
    cases m' with
    | nil => rfl
    | cons y m' => simp only [List.nil_append, icmpFrom, nicmpFrom, hnul, if_true]
  | cons x a ih =>
    obtain ⟨n, rfl⟩ : ∃ k, n = k + 1 := ⟨n - 1, by omega⟩
    cases m' with
    | nil => rfl
    | cons y m' =>
      simp only [List.cons_append, icmpFrom, nicmpFrom, ih m' (Nat.lt_of_succ_lt_succ h)]

theorem icmpFrom_orders {a b : List CodeUnit} (ha : 0 ∉ a) (hb : 0 ∉ b) (m m' : List CodeUnit) :
    ∃ r, icmpFrom (a ++ 0 :: m) (b ++ 0 :: m') = some r ∧ Orders r (folded a) (folded b) := by
  have h := nicmpFrom_orders ha hb m m' (a.length + 1 + b.length)
  rw [icmpFrom_eq a m _ (n := a.length + 1 + b.length) (by omega)]
  rwa [List.take_of_length_le (by simp [folded]; omega),
    List.take_of_length_le (by simp [folded])] at h

theorem nicmpFrom_take (n : Nat) (a b : List CodeUnit) :
    nicmpFrom n (a.take n) (b.take n) = nicmpFrom n a b := by
  induction n generalizing a b with
  | zero => rw [nicmpFrom, nicmpFrom]
  | succ n ih => cases a <;> cases b <;> simp [nicmpFrom, ih]

/-- **String searching**: on strings with anything behind their NUL the functions have a result, and
    it is the place, the length, the order (lexicographic, after `_wcslwr`) or the text that C
    says; `_wcsnicmp` has it where only `n` units are readable. -/
theorem string_searching :
    (∀ (s : Text Byte) (c : BitVec 32) (m : List Byte), ∃ r, strchr (s.held m) c = some r ∧
      First (fun i => (s.units ++ [0])[i]? = some (c.setWidth 8)) r) ∧
    (∀ (s : Text CodeUnit) (c : CodeUnit) (m : List CodeUnit),
      (∃ r, wcschr (s.held m) c = some r ∧ First (fun i => (s.units ++ [0])[i]? = some c) r) ∧
      ∃ r, wcsrchr (s.held m) c = some r ∧ Last (fun i => (s.units ++ [0])[i]? = some c) r) ∧
    (∀ (s t : Text Byte) (m m' : List Byte), ∃ r, strstr (s.held m) (t.held m') = some r ∧
      First (fun i => t.units <+: s.units.drop i) r) ∧
    (∀ (s t : Text CodeUnit) (m m' : List CodeUnit), ∃ r, wcsstr (s.held m) (t.held m') = some r ∧
      First (fun i => t.units <+: s.units.drop i) r) ∧
    (∀ (s set : Text CodeUnit) (m m' : List CodeUnit),
      let n := (spanOutside s.units set.units).length
      wcscspn (s.held m) (set.held m') = some n ∧
      wcspbrk (s.held m) (set.held m') = some (if n = s.length then none else some n)) ∧
    (∀ (a b : Text CodeUnit) (m m' : List CodeUnit),
      (∃ r, wcsicmp (a.held m) (b.held m') = some r ∧ Orders r (folded a.units) (folded b.units)) ∧
      ∀ n, ∃ r, wcsnicmp (a.held m) (b.held m') n = some r ∧
        wcsnicmp ((a.held m).take n) ((b.held m').take n) n = some r ∧
        Orders r ((folded a.units).take n) ((folded b.units).take n)) ∧
    ∀ (s : Text CodeUnit) (m : List CodeUnit),
      wcslwr (s.held m) = some (some (folded s.units ++ 0 :: m)) ∧
      wcsrev (s.held m) = some (some (s.units.reverse ++ 0 :: m)) ∧
      wcsrev (some (s.units.reverse ++ 0 :: m)) = some (some (s.held m)) := by
  refine ⟨fun s c m => ?_, fun s c m => ⟨?_, ?_⟩, fun s t m m' => find_first s.clean t.clean,
    fun s t m m' => find_first s.clean t.clean, fun s set m m' => ⟨?_, ?_⟩,
    fun a b m m' => ⟨icmpFrom_orders a.clean b.clean m m', fun n => ?_⟩, fun s m => ⟨?_, ?_, ?_⟩⟩
  · simpa [strchr, Text.held] using chrFrom_first s.clean (c.setWidth 8) (m := m) 0
  · simpa [wcschr, Text.held] using chrFrom_first s.clean c (m := m) 0
  · simpa [wcsrchr, Text.held] using rchrFrom_last s.clean c (m := m) 0 none
  · simpa [wcscspn, Text.held] using @cspnFrom_eq _ _ _ _ _ m m' s.clean set.clean 0
  · refine (pbrkFrom_eq s.clean set.clean 0).trans ?_
    rw [Nat.zero_add]
    rfl
  · obtain ⟨r, hr, horders⟩ := nicmpFrom_orders a.clean b.clean m m' n
    exact ⟨r, hr, (nicmpFrom_take n _ _).trans hr, horders⟩
  · exact congrArg (Option.map some) (lwrFrom_eq s.clean m)
  · exact wcsrev_eq s.clean
  · have h := wcsrev_eq (m := m) (s := s.units.reverse) fun h => s.clean (List.mem_reverse.mp h)
    rwa [List.reverse_reverse] at h

end WinCompat.Crt
