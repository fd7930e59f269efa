import WinCompat.Lib.CString
import WinCompat.Lib.Search
import WinCompat.Lib.Utf16

/-!
# The string search of the shell

`win32-kernel32/src/shlwapi.rs`: `cmp_wide` and `str_cmp_i_w`, `str_str_w_impl` with `str_str_w`,
`str_str_iw` and `str_str_niw`, and `str_rstr_iw`.

All strings lie in one memory. A read of a unit behind the NUL of a string is the outcome `none`;
otherwise the result is NULL or how far into the first argument it points.
-/

namespace WinCompat.Shell

open Lib.CString Lib.Search
open Lib.Utf16 (CodeUnit)

/-- The code unit at each address. -/
abbrev WideMemory := BitVec 64 → CodeUnit

/-- A pointer to a NUL-terminated string. -/
structure WidePtr (m : WideMemory) where
  addr : BitVec 64
  terminated : ∃ n, m (addr + BitVec.ofNat 64 (2 * n)) = 0

namespace WidePtr

variable {m : WideMemory}

def text (p : WidePtr m) : Terminated CodeUnit where
  unit i := m (p.addr + BitVec.ofNat 64 (2 * i))
  terminated := p.terminated

def length (p : WidePtr m) : Nat := p.text.length

/-- `*p.add(i)` -/
def read (p : WidePtr m) (i : Nat) : Option CodeUnit :=
  if i ≤ p.length then some (p.text.unit i) else none

theorem unit_at (p : WidePtr m) (k i : Nat) :
    m (p.addr + BitVec.ofNat 64 (2 * k) + BitVec.ofNat 64 (2 * i)) = p.text.unit (k + i) := by
  rw [BitVec.add_assoc, ← BitVec.ofNat_add, ← Nat.mul_add]
  rfl

/-- `p.add(k)`: a pointer into the string, or to its NUL. -/
def add (p : WidePtr m) (k : Fin (p.length + 1)) : WidePtr m where
  addr := p.addr + BitVec.ofNat 64 (2 * k)
  terminated := by
    refine ⟨p.length - k, ?_⟩
    rw [p.unit_at, Nat.add_sub_cancel' (Nat.le_of_lt_succ k.isLt)]
    exact p.text.unit_length

end WidePtr

/-! ## The functions -/

def toLower16 (c : CodeUnit) : CodeUnit :=
  if 0x41 ≤ c.toNat ∧ c.toNat ≤ 0x5A then c + 32 else c

def foldUnit (ignoreCase : Bool) (c : CodeUnit) : CodeUnit :=
  if ignoreCase then toLower16 c else c

section

variable {m : WideMemory}

theorem WidePtr.le_of_read {p : WidePtr m} {i : Nat} {c : CodeUnit} (h : p.read i = some c) :
    i ≤ p.length := by
  unfold WidePtr.read at h
  split at h
  · next hle => exact hle
  · exact absurd h (by simp)

/-- The loop of `cmp_wide`. -/
def cmpLoop (s₁ s₂ : WidePtr m) (n : Option Nat) (ignoreCase : Bool) (i : Nat) :
    Option (BitVec 32) :=
  if n.any (· ≤ i) then some 0
  else
    match _h : s₁.read i, s₂.read i with
    | some c₁, some c₂ =>
      let a := foldUnit ignoreCase c₁
      let b := foldUnit ignoreCase c₂
      if a ≠ b then some (a.setWidth 32 - b.setWidth 32)
      else if c₁ = 0 then some 0
      else cmpLoop s₁ s₂ n ignoreCase (i + 1)
    | _, _ => none
termination_by s₁.length + 1 - i
decreasing_by
  have hle := WidePtr.le_of_read _h
  omega

/-- `cmp_wide` -/
def cmpWide (s₁ s₂ : Option (WidePtr m)) (n : Option Nat) (ignoreCase : Bool) :
    Option (BitVec 32) :=
  match s₁, s₂ with
  | none, none => some 0
  | none, some _ => some (-1)
  | some _, none => some 1
  | some s₁, some s₂ => cmpLoop s₁ s₂ n ignoreCase 0

/-- `str_cmp_i_w` -/
def strCmpIW (s₁ s₂ : Option (WidePtr m)) : Option (BitVec 32) := cmpWide s₁ s₂ none true

/-- The inner loop of a search: the `n` units from `j` on of the needle against those from `i + j`
    on of the haystack. -/
def unitsMatch (ignoreCase : Bool) (hay needle : WidePtr m) (i j : Nat) : Nat → Option Bool
  | 0 => some true
  | n + 1 =>
    match hay.read (i + j), needle.read j with
    | some a, some b =>
      if foldUnit ignoreCase a ≠ foldUnit ignoreCase b then some false
      else unitsMatch ignoreCase hay needle i (j + 1) n
    | _, _ => none

/-- `str_str_w_impl` -/
def strStrWImpl (hay needle : Option (WidePtr m)) (maxHay : Option Nat) (ignoreCase : Bool) :
    Option (Option Nat) :=
  match hay, needle with
  | some hay, some needle =>
    let nlen := needle.length
    if nlen = 0 then some (some 0)
    else
      let hlen := maxHay.elim hay.length (min hay.length)
      if hlen < nlen then some none
      else scanUp (fun i => unitsMatch ignoreCase hay needle i 0 nlen) 0 (hlen - nlen + 1)
  | _, _ => some none

/-- `str_str_w` -/
def strStrW (s₁ s₂ : Option (WidePtr m)) : Option (Option Nat) := strStrWImpl s₁ s₂ none false

/-- `str_str_iw` -/
def strStrIW (s₁ s₂ : Option (WidePtr m)) : Option (Option Nat) := strStrWImpl s₁ s₂ none true

/-- `str_str_niw` -/
def strStrNIW (s₁ s₂ : Option (WidePtr m)) (n : BitVec 32) : Option (Option Nat) :=
  if n.toInt < 0 then some none else strStrWImpl s₁ s₂ (some n.toNat) true

/-- `str_rstr_iw` -/
def strRStrIW (s₁ s₂ sub : Option (WidePtr m)) : Option (Option Nat) :=
  match s₁, s₂ with
  | some s₁, some s₂ =>
    let nlen := s₂.length
    if nlen = 0 then some (some 0)
    else
      let hlen :=
        match sub with
        | some sub => min ((sub.addr - s₁.addr).toNat / 2) s₁.length
        | none => s₁.length
      if hlen < nlen then some none
      else scanDown (fun i => unitsMatch true s₁ s₂ i 0 nlen) (hlen - nlen + 1)
  | _, _ => some none

/-! ## Occurrences -/

/-- The units of `n` stand in `h` from `i` on, up to case if that is ignored. -/
def MatchesAt (ignoreCase : Bool) (h n : WidePtr m) (i : Nat) : Prop :=
  ∀ j, j < n.length →
    foldUnit ignoreCase (h.text.unit (i + j)) = foldUnit ignoreCase (n.text.unit j)

/-- `n` occurs in the first `bound` units of `h`, from `i` on. -/
def Occurs (ignoreCase : Bool) (h n : WidePtr m) (bound i : Nat) : Prop :=
  i + n.length ≤ bound ∧ MatchesAt ignoreCase h n i

variable {ignoreCase : Bool} {h n : WidePtr m}

theorem unitsMatch_spec {i j count : Nat} (hi : i + n.length ≤ h.length) (hj : j + count = n.length) :
    ∃ b, unitsMatch ignoreCase h n i j count = some b ∧
      (b = true ↔ ∀ x, j ≤ x → x < n.length →
        foldUnit ignoreCase (h.text.unit (i + x)) = foldUnit ignoreCase (n.text.unit x)) := by
  induction count generalizing j with
  | zero => exact ⟨true, rfl, by simp; intro x h₁ h₂; omega⟩
  | succ count ih =>
    have hread : h.read (i + j) = some (h.text.unit (i + j)) := if_pos (by omega)
    have hread' : n.read j = some (n.text.unit j) := if_pos (by omega)
    rw [unitsMatch, hread, hread']
    dsimp only
    by_cases heq : foldUnit ignoreCase (h.text.unit (i + j)) = foldUnit ignoreCase (n.text.unit j)
    · rw [if_neg (not_not.mpr heq)]
      obtain ⟨b, hb, hiff⟩ := ih (j := j + 1) (by omega)
      refine ⟨b, hb, hiff.trans ⟨fun hall x h₁ h₂ => ?_, fun hall x h₁ h₂ => ?_⟩⟩
      · obtain rfl | hlt := Nat.eq_or_lt_of_le h₁
        · exact heq
        · exact hall x hlt h₂
      · exact hall x (by omega) h₂
    · rw [if_pos heq]
      refine ⟨false, rfl, by simp, fun hall => ?_⟩
      exact absurd (hall j (Nat.le_refl _) (by omega)) heq

/-- A whole round of a search. -/
theorem unitsMatch_matchesAt {i : Nat} (hi : i + n.length ≤ h.length) :
    ∃ b, unitsMatch ignoreCase h n i 0 n.length = some b ∧
      (b = true ↔ MatchesAt ignoreCase h n i) := by
  obtain ⟨b, hb, hiff⟩ := unitsMatch_spec hi (Nat.zero_add n.length)
  refine ⟨b, hb, hiff.trans ⟨fun hall j hj => ?_, fun hall j _ hj => ?_⟩⟩
  · exact hall j (Nat.zero_le j) hj
  · exact hall j hj

/-! ## The searches -/

theorem strStrWImpl_first (ignoreCase : Bool) (h n : WidePtr m) :
    ∃ r, strStrWImpl (some h) (some n) none ignoreCase = some r ∧
      First (Occurs ignoreCase h n h.length) r := by
  unfold strStrWImpl
  dsimp only [Option.elim_none]
  by_cases hempty : n.length = 0
  · rw [if_pos hempty]
    refine ⟨some 0, rfl, ⟨by omega, fun j hj => by omega⟩, fun i hi => by omega⟩
  · rw [if_neg hempty]
    by_cases hlong : h.length < n.length
    · rw [if_pos hlong]
      exact ⟨none, rfl, fun i hi => by have := hi.1; omega⟩
    · rw [if_neg hlong]
      obtain ⟨r, hr, hfirst⟩ := @scanUp_first
        (fun i => unitsMatch ignoreCase h n i 0 n.length) (MatchesAt ignoreCase h n) 0
        (h.length - n.length + 1) fun x _ hx => unitsMatch_matchesAt (by omega)
      refine ⟨r, hr, hfirst.congr fun i => ?_⟩
      exact and_congr_left fun _ => by omega

theorem strRStrIW_last (sub : Option (WidePtr m)) (hne : n.length ≠ 0) :
    ∃ r, strRStrIW (some h) (some n) sub = some r ∧
      Last (Occurs true h n
        (sub.elim h.length fun sub => min ((sub.addr - h.addr).toNat / 2) h.length)) r := by
  have hbound : (match sub with
      | some sub => min ((sub.addr - h.addr).toNat / 2) h.length
      | none => h.length) =
      sub.elim h.length fun sub => min ((sub.addr - h.addr).toNat / 2) h.length := by
    cases sub <;> rfl
  have hle : sub.elim h.length (fun sub => min ((sub.addr - h.addr).toNat / 2) h.length) ≤
      h.length := by
    cases sub with
    | none => exact Nat.le_refl _
    | some sub => exact Nat.min_le_right _ _
  unfold strRStrIW
  dsimp only
  rw [if_neg hne, hbound]
  generalize sub.elim h.length (fun sub => min ((sub.addr - h.addr).toNat / 2) h.length) = bound
    at hle ⊢
  by_cases hlong : bound < n.length
  · rw [if_pos hlong]
    exact ⟨none, rfl, fun i hi => by have := hi.1; omega⟩
  · rw [if_neg hlong]
    obtain ⟨r, hr, hlast⟩ := @scanDown_last (fun i => unitsMatch true h n i 0 n.length)
      (MatchesAt true h n) (bound - n.length + 1) fun x hx =>
        unitsMatch_matchesAt (by omega)
    refine ⟨r, hr, hlast.congr fun i => ?_⟩
    exact and_congr_left fun _ => by omega

/-! ## The comparison -/

theorem foldUnit_eq_zero {c : CodeUnit} : foldUnit ignoreCase c = 0 ↔ c = 0 := by
  unfold foldUnit toLower16
  split
  · split
    · next hupper =>
      constructor
      · intro h
        bv_omega
      · rintro rfl
        exact absurd hupper.1 (by decide)
    · rfl
  · rfl

theorem setWidth_sub_eq_zero {a b : CodeUnit} : a.setWidth 32 - b.setWidth 32 = 0 ↔ a = b := by
  constructor
  · intro h
    bv_omega
  · rintro rfl
    exact BitVec.sub_self _

theorem cmpLoop_spec {s₁ s₂ : WidePtr m} (ignoreCase : Bool) {i : Nat} (h₁ : i ≤ s₁.length)
    (h₂ : i ≤ s₂.length) :
    ∃ v, cmpLoop s₁ s₂ none ignoreCase i = some v ∧
      (v = 0 ↔ s₁.length = s₂.length ∧ ∀ x, i ≤ x → x < s₂.length →
        foldUnit ignoreCase (s₁.text.unit x) = foldUnit ignoreCase (s₂.text.unit x)) := by
  have hread₁ : s₁.read i = some (s₁.text.unit i) := if_pos h₁
  have hread₂ : s₂.read i = some (s₂.text.unit i) := if_pos h₂
  have hnul₁ : s₁.text.unit s₁.length = 0 := s₁.text.unit_length
  have hnul₂ : s₂.text.unit s₂.length = 0 := s₂.text.unit_length
  induction hk : s₁.length - i generalizing i with
  | zero =>
    have hi : i = s₁.length := by omega
    subst hi
    rw [cmpLoop, hread₁, hread₂]
    simp only [Option.any_none, Bool.false_eq_true, if_false, hnul₁]
    by_cases hsame : s₂.text.unit s₁.length = 0
    · have hlen : s₁.length = s₂.length := by
        by_contra hne
        exact s₂.text.unit_ne_zero (Nat.lt_of_le_of_ne h₂ hne) hsame
      refine ⟨0, by simp [hsame], ?_⟩
      simp only [true_iff]
      exact ⟨hlen, fun x hx hlt => by omega⟩
    · have hfold : foldUnit ignoreCase 0 ≠ foldUnit ignoreCase (s₂.text.unit s₁.length) := by
        rw [foldUnit_eq_zero.mpr rfl, ne_comm]
        exact fun h => hsame (foldUnit_eq_zero.mp h)
      rw [if_pos hfold]
      refine ⟨_, rfl, ?_⟩
      rw [setWidth_sub_eq_zero]
      constructor
      · exact fun h => absurd h hfold
      · rintro ⟨hlen, -⟩
        exact absurd (hlen ▸ hnul₂) hsame
  | succ k ih =>
    have hne₁ : s₁.text.unit i ≠ 0 := s₁.text.unit_ne_zero (show i < s₁.length by omega)
    rw [cmpLoop, hread₁, hread₂]
    simp only [Option.any_none, Bool.false_eq_true, if_false, if_neg hne₁]
    by_cases hfold : foldUnit ignoreCase (s₁.text.unit i) = foldUnit ignoreCase (s₂.text.unit i)
    · rw [if_neg (not_not.mpr hfold)]
      have hlt : i < s₂.length := by
        refine Nat.lt_of_le_of_ne h₂ fun heq => hne₁ ?_
        rw [heq, hnul₂, foldUnit_eq_zero.mpr rfl] at hfold
        exact heq ▸ foldUnit_eq_zero.mp hfold
      obtain ⟨v, hv, hiff⟩ := @ih (i + 1) (by omega) hlt (if_pos (by omega)) (if_pos hlt) (by omega)
      refine ⟨v, hv, hiff.trans (and_congr_right fun _ => ?_)⟩
      refine ⟨fun h x hx hx₂ => ?_, fun h x hx hx₂ => ?_⟩
      · obtain rfl | hlt := Nat.eq_or_lt_of_le hx
        · exact hfold
        · exact h x hlt hx₂
      · exact h x (by omega) hx₂
    · rw [if_pos hfold]
      refine ⟨_, rfl, ?_⟩
      rw [setWidth_sub_eq_zero]
      constructor
      · exact fun h => absurd h hfold
      · rintro ⟨hlen, hall⟩
        exact hall i (Nat.le_refl _) (by omega)

theorem strCmpIW_spec (h n : WidePtr m) :
    ∃ v, strCmpIW (some h) (some n) = some v ∧
      (v = 0 ↔ h.length = n.length ∧ unitsMatch true h n 0 0 n.length = some true) := by
  obtain ⟨v, hv, hiff⟩ := cmpLoop_spec true (Nat.zero_le h.length) (Nat.zero_le n.length)
  refine ⟨v, hv, hiff.trans (and_congr_right fun hlen => ?_)⟩
  obtain ⟨b, hb, hmatch⟩ := @unitsMatch_matchesAt m true h n 0 (by omega)
  rw [hb, Option.some.injEq, hmatch]
  simp [MatchesAt]

/-! ## Pointers into a string -/

theorem unit_add (h : WidePtr m) (k : Fin (h.length + 1)) (i : Nat) :
    (h.add k).text.unit i = h.text.unit (k + i) := h.unit_at k i

theorem length_add (h : WidePtr m) (k : Fin (h.length + 1)) :
    (h.add k).length = h.length - k := by
  have hk : (k : Nat) ≤ h.length := Nat.le_of_lt_succ k.isLt
  refine Terminated.length_eq ?_ fun i hi => ?_
  · rw [unit_add, Nat.add_sub_cancel' hk]
    exact h.text.unit_length
  · rw [unit_add]
    exact h.text.unit_ne_zero (show k + i < h.length by omega)

/-! ## The whole search -/

/-- What is asked of the searches in `h` for `n`. The pointer that bounds the search backwards
    points into `h`, and the call has the order of arguments that its callers know: what is
    searched, where the search ends, what is looked for. -/
structure FindsRight (h n : WidePtr m) (last : Option (Fin (h.length + 1))) : Prop where
  strStrW : ∃ r, strStrW (some h) (some n) = some r ∧ First (Occurs false h n h.length) r
  strStrIW : ∃ r, strStrIW (some h) (some n) = some r ∧ First (Occurs true h n h.length) r
  strRStrIW : ∃ r, strRStrIW (some h) (last.map h.add) (some n) = some r ∧
    Last (fun i => Occurs true h n h.length i ∧ ∀ k ∈ last, i < k.val) r
  strCmpIW : ∃ v, strCmpIW (some h) (some n) = some v ∧
    (v = 0 ↔ h.length = n.length ∧ unitsMatch true h n 0 0 n.length = some true)

/-- How many units `n` lies behind `h`. -/
def distance (h n : WidePtr m) : Nat := (n.addr - h.addr).toNat / 2

/-- When `StrRStrIW` finds what it should although it takes the second argument for what is looked
    for and the third for where the search ends. -/
def SwapHarmless (h n : WidePtr m) : Option (Fin (h.length + 1)) → Prop
  | none => ∀ i, ¬ Occurs true h n h.length i
  | some k =>
    -- from the end of `h`: the only occurrence is at its start
    (k.val = h.length ∧ Last (fun i => Occurs true h n h.length i ∧ i < h.length) (some 0)) ∨
    -- from inside `h`, when `n` begins inside it as well
    (k.val < h.length ∧ distance h n < h.length ∧
      ∃ r, Last (Occurs true h (h.add k) (distance h n)) r ∧
        Last (fun i => Occurs true h n h.length i ∧ i < k.val) r)

theorem rest_occurs_last (h : WidePtr m) (k : Fin (h.length + 1)) :
    Last (Occurs true h (h.add k) h.length) (some k.val) := by
  have hk : k.val ≤ h.length := Nat.le_of_lt_succ k.isLt
  refine ⟨⟨by rw [length_add]; omega, fun j _ => by rw [unit_add]⟩, fun i hi hoccurs => ?_⟩
  have hlen := hoccurs.1
  rw [length_add] at hlen
  omega

theorem strRStrIW_iff (h n : WidePtr m) (last : Option (Fin (h.length + 1))) :
    (∃ r, strRStrIW (some h) (last.map h.add) (some n) = some r ∧
      Last (fun i => Occurs true h n h.length i ∧ ∀ k ∈ last, i < k.val) r) ↔
    SwapHarmless h n last := by
  cases last with
  | none =>
    simp [strRStrIW, SwapHarmless, Last]
  | some k =>
    have hk : k.val ≤ h.length := Nat.le_of_lt_succ k.isLt
    simp only [Option.map_some, Option.mem_def, Option.some.injEq, forall_eq', SwapHarmless]
    by_cases hend : k.val = h.length
    · have hempty : (h.add k).length = 0 := by rw [length_add, hend, Nat.sub_self]
      have hfound : strRStrIW (some h) (some (h.add k)) (some n) = some (some 0) := by
        simp [strRStrIW, hempty]
      have hnot : ¬ k.val < h.length := by omega
      simp [hfound, hend]
    · have hlt : k.val < h.length := by omega
      have hne : (h.add k).length ≠ 0 := by rw [length_add]; omega
      obtain ⟨r, hr, hlast⟩ := @strRStrIW_last m h (h.add k) (some n) hne
      have hnot : ¬ (k.val = h.length) := by omega
      simp only [hr, Option.some.injEq, exists_eq_left', hlt, hnot, true_and, false_and, false_or]
      change Last (Occurs true h (h.add k) (min (distance h n) h.length)) r at hlast
      by_cases hinside : distance h n < h.length
      · rw [Nat.min_eq_left hinside.le] at hlast
        constructor
        · exact fun hsearch => ⟨hinside, r, hlast, hsearch⟩
        · rintro ⟨-, r', hlast', hsearch⟩
          exact hlast.unique hlast' ▸ hsearch
      · rw [Nat.min_eq_right (Nat.not_lt.mp hinside)] at hlast
        obtain rfl := hlast.unique (rest_occurs_last h k)
        constructor
        · exact fun hsearch => absurd hsearch.1.2 (Nat.lt_irrefl _)
        · exact fun hharmless => absurd hharmless.1 hinside

/-- The searches find what is asked of them exactly when the order of arguments does no harm.
    `StrRStrIW` alone takes them in another order than it is called with. -/
theorem finds_right_iff (h n : WidePtr m) (last : Option (Fin (h.length + 1))) :
    FindsRight h n last ↔ SwapHarmless h n last := by
  constructor
  · exact fun hfinds => (strRStrIW_iff h n last).mp hfinds.strRStrIW
  · intro hharmless
    exact
      { strStrW := strStrWImpl_first false h n
        strStrIW := strStrWImpl_first true h n
        strRStrIW := (strRStrIW_iff h n last).mpr hharmless
        strCmpIW := strCmpIW_spec h n }

end

/-- "ab" and "b", one behind the other. -/
def twoStrings : WideMemory := fun a =>
  if a = 0x1000 then 0x61 else if a = 0x1002 then 0x62 else if a = 0x1006 then 0x62 else 0

def abText : WidePtr twoStrings := ⟨0x1000, 2, by decide⟩

def bText : WidePtr twoStrings := ⟨0x1006, 1, by decide⟩

/-- A search without an end is told to look for NULL. -/
theorem last_not_found :
    ∃ h n : WidePtr twoStrings, h.text.string = [0x61, 0x62] ∧ n.text.string = [0x62] ∧
      strRStrIW (some h) none (some n) = some none ∧ Occurs true h n h.length 1 ∧
      ¬ FindsRight h n none := by
  have hh : abText.text.string = [0x61, 0x62] := Terminated.string_eq
    ⟨by decide, fun i hi => by
      obtain rfl | rfl : i = 0 ∨ i = 1 := by simp at hi; omega
      · rfl
      · rfl, by decide⟩
  have hn : bText.text.string = [0x62] := Terminated.string_eq
    ⟨by decide, fun i hi => by
      obtain rfl : i = 0 := by simpa using hi
      rfl, by decide⟩
  have hhlen : abText.length = 2 := Terminated.length_of_string hh
  have hnlen : bText.length = 1 := Terminated.length_of_string hn
  have hoccurs : Occurs true abText bText abText.length 1 := by
    refine ⟨by omega, fun j hj => ?_⟩
    obtain rfl : j = 0 := by omega
    rfl
  refine ⟨abText, bText, hh, hn, rfl, hoccurs, fun hfinds => ?_⟩
  exact (strRStrIW_iff abText bText none).mp hfinds.strRStrIW 1 hoccurs

end WinCompat.Shell
