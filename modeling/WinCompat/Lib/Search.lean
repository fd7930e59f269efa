import Mathlib.Data.BitVec

/-!
# Searching an interval

Binary search for the end of the initial segment on which a test holds. The test may fail to
answer (a probe of memory that is not there), and then so does the search. Where it stops depends
on the order of what is searched (`partitionPoint_eq`); that it stops inside the interval, just
above a place that passes, does not (`partitionPoint_cases`).

A scan goes through the places one by one, up or down, and stops at the first that passes: so it
ends at the `First` or the `Last` place that passes, or at none if there is none.
-/

namespace WinCompat.Lib.Search

/-- The first place of `[lo, hi)` that does not pass `test`, or `hi`; `none` when a probe does not
    answer. -/
def partitionPoint (test : Nat → Option Bool) (lo hi : Nat) : Option Nat :=
  if lo < hi then
    match test (lo + (hi - lo) / 2) with
    | none => none
    | some true => partitionPoint test (lo + (hi - lo) / 2 + 1) hi
    | some false => partitionPoint test lo (lo + (hi - lo) / 2)
  else some lo
termination_by hi - lo

theorem partitionPoint_eq {test : Nat → Option Bool} {lo hi k : Nat}
    (htest : ∀ i, lo ≤ i → i < hi → test i = some (decide (i < k))) (hlo : lo ≤ k) (hhi : k ≤ hi) :
    partitionPoint test lo hi = some k := by
  fun_induction partitionPoint test lo hi with
  | case1 lo hi h hnone =>
    rw [htest _ (Nat.le_add_right _ _) (by omega)] at hnone
    exact absurd hnone (Option.some_ne_none _)
  | case2 lo hi h htrue ih =>
    rw [htest _ (Nat.le_add_right _ _) (by omega), Option.some.injEq, decide_eq_true_eq] at htrue
    apply ih _ htrue hhi
    intro i hi₁ hi₂
    exact htest i (by omega) hi₂
  | case3 lo hi h hfalse ih =>
    rw [htest _ (Nat.le_add_right _ _) (by omega), Option.some.injEq, decide_eq_false_iff_not,
      Nat.not_lt] at hfalse
    apply ih _ hlo hfalse
    intro i hi₁ hi₂
    exact htest i hi₁ (by omega)
  | case4 lo hi h => exact congrArg some (Nat.le_antisymm hlo (Nat.le_trans hhi (Nat.not_lt.mp h)))

theorem partitionPoint_cases {test : Nat → Option Bool} {lo hi : Nat}
    (htest : ∀ i, lo ≤ i → i < hi → (test i).isSome) (hle : lo ≤ hi) :
    ∃ k, partitionPoint test lo hi = some k ∧ lo ≤ k ∧ k ≤ hi ∧
      (k = lo ∨ test (k - 1) = some true) := by
  fun_induction partitionPoint test lo hi with
  | case1 lo hi h hnone =>
    have hprobe := htest (lo + (hi - lo) / 2) (Nat.le_add_right _ _) (by omega)
    rw [hnone] at hprobe
    exact absurd hprobe (by simp)
  | case2 lo hi h htrue ih =>
    obtain ⟨k, hk, hlo, hhi, hbelow⟩ := ih (fun i hi₁ hi₂ => htest i (by omega) hi₂) (by omega)
    refine ⟨k, hk, by omega, hhi, .inr ?_⟩
    obtain rfl | hbelow := hbelow
    · exact htrue
    · exact hbelow
  | case3 lo hi h hfalse ih =>
    obtain ⟨k, hk, hlo, hhi, hbelow⟩ := ih (fun i hi₁ hi₂ => htest i hi₁ (by omega)) (by omega)
    exact ⟨k, hk, hlo, by omega, hbelow⟩
  | case4 lo hi h => exact ⟨lo, rfl, Nat.le_refl _, hle, .inl rfl⟩

/-! ## The first and the last -/

/-- `r` is the first place where `P` holds; `none` that there is no such place. -/
def First (P : Nat → Prop) : Option Nat → Prop
  | none => ∀ i, ¬ P i
  | some k => P k ∧ ∀ i, i < k → ¬ P i

/-- `r` is the last place where `P` holds; `none` that there is no such place. -/
def Last (P : Nat → Prop) : Option Nat → Prop
  | none => ∀ i, ¬ P i
  | some k => P k ∧ ∀ i, k < i → ¬ P i

theorem First.congr {P Q : Nat → Prop} {r : Option Nat} (h : First P r) (hpq : ∀ i, P i ↔ Q i) :
    First Q r := by
  cases r with
  | none => exact fun i hi => h i ((hpq i).mpr hi)
  | some k => exact ⟨(hpq k).mp h.1, fun i hi hq => h.2 i hi ((hpq i).mpr hq)⟩

theorem Last.congr {P Q : Nat → Prop} {r : Option Nat} (h : Last P r) (hpq : ∀ i, P i ↔ Q i) :
    Last Q r := by
  cases r with
  | none => exact fun i hi => h i ((hpq i).mpr hi)
  | some k => exact ⟨(hpq k).mp h.1, fun i hi hq => h.2 i hi ((hpq i).mpr hq)⟩

theorem First.unique {P : Nat → Prop} {r r' : Option Nat} (h : First P r) (h' : First P r') :
    r = r' := by
  cases r with
  | none =>
    cases r' with
    | none => rfl
    | some k => exact absurd h'.1 (h k)
  | some k =>
    cases r' with
    | none => exact absurd h.1 (h' k)
    | some k' =>
      obtain hlt | heq | hgt := Nat.lt_trichotomy k k'
      · exact absurd h.1 (h'.2 k hlt)
      · rw [heq]
      · exact absurd h'.1 (h.2 k' hgt)

theorem Last.unique {P : Nat → Prop} {r r' : Option Nat} (h : Last P r) (h' : Last P r') :
    r = r' := by
  cases r with
  | none =>
    cases r' with
    | none => rfl
    | some k => exact absurd h'.1 (h k)
  | some k =>
    cases r' with
    | none => exact absurd h.1 (h' k)
    | some k' =>
      obtain hlt | heq | hgt := Nat.lt_trichotomy k k'
      · exact absurd h'.1 (h.2 k' hlt)
      · rw [heq]
      · exact absurd h.1 (h'.2 k hgt)

/-! ## Scans -/

section

variable {test : Nat → Option Bool} {P : Nat → Prop}

/-- The first of the `n` places from `i` on that passes; the outer `none` when a probe does not
    answer. -/
def scanUp (test : Nat → Option Bool) (i : Nat) : Nat → Option (Option Nat)
  | 0 => some none
  | n + 1 =>
    match test i with
    | none => none
    | some true => some (some i)
    | some false => scanUp test (i + 1) n

/-- The last of the first `n` places that passes. -/
def scanDown (test : Nat → Option Bool) : Nat → Option (Option Nat)
  | 0 => some none
  | i + 1 =>
    match test i with
    | none => none
    | some true => some (some i)
    | some false => scanDown test i

theorem scanUp_first {i n : Nat}
    (h : ∀ x, i ≤ x → x < i + n → ∃ b, test x = some b ∧ (b = true ↔ P x)) :
    ∃ r, scanUp test i n = some r ∧ First (fun x => (i ≤ x ∧ x < i + n) ∧ P x) r := by
  induction n generalizing i with
  | zero => exact ⟨none, rfl, fun x hx => by omega⟩
  | succ n ih =>
    obtain ⟨b, htest, hb⟩ := h i (Nat.le_refl _) (by omega)
    rw [scanUp, htest]
    cases b with
    | true =>
      refine ⟨some i, rfl, ⟨⟨Nat.le_refl _, by omega⟩, hb.mp rfl⟩, fun x hx hp => ?_⟩
      omega
    | false =>
      have hi : ¬ P i := fun hp => Bool.false_ne_true (hb.mpr hp)
      obtain ⟨r, hr, hfirst⟩ := ih (i := i + 1) fun x h₁ h₂ => h x (by omega) (by omega)
      refine ⟨r, hr, hfirst.congr fun x => ?_⟩
      constructor
      · rintro ⟨hx, hp⟩
        exact ⟨by omega, hp⟩
      · rintro ⟨hx, hp⟩
        have hne : x ≠ i := fun heq => hi (heq ▸ hp)
        exact ⟨by omega, hp⟩

theorem scanDown_last {n : Nat} (h : ∀ x, x < n → ∃ b, test x = some b ∧ (b = true ↔ P x)) :
    ∃ r, scanDown test n = some r ∧ Last (fun x => x < n ∧ P x) r := by
  induction n with
  | zero => exact ⟨none, rfl, fun x hx => by omega⟩
  | succ n ih =>
    obtain ⟨b, htest, hb⟩ := h n (Nat.lt_succ_self n)
    rw [scanDown, htest]
    cases b with
    | true =>
      refine ⟨some n, rfl, ⟨Nat.lt_succ_self n, hb.mp rfl⟩, fun x hx hp => ?_⟩
      omega
    | false =>
      have hn : ¬ P n := fun hp => Bool.false_ne_true (hb.mpr hp)
      obtain ⟨r, hr, hlast⟩ := ih fun x hx => h x (Nat.lt_succ_of_lt hx)
      refine ⟨r, hr, hlast.congr fun x => ?_⟩
      constructor
      · rintro ⟨hx, hp⟩
        exact ⟨by omega, hp⟩
      · rintro ⟨hx, hp⟩
        have hne : x ≠ n := fun heq => hn (heq ▸ hp)
        exact ⟨by omega, hp⟩

end

/-! ## A test that always answers -/

section

variable (p : Nat → Bool)

/-- The last place below `n` that passes. -/
def lastBelow : Nat → Option Nat
  | 0 => none
  | i + 1 => if p i then some i else lastBelow i

variable {p}

theorem scanDown_some (n : Nat) : scanDown (fun i => some (p i)) n = some (lastBelow p n) := by
  induction n with
  | zero => rfl
  | succ n ih =>
    rw [scanDown, lastBelow]
    cases hp : p n with
    | true => rfl
    | false => exact ih

theorem lastBelow_last (n : Nat) : Last (fun i => i < n ∧ p i = true) (lastBelow p n) := by
  obtain ⟨r, hr, hlast⟩ := @scanDown_last (fun i => some (p i)) (fun i => p i = true) n
    fun x _ => ⟨p x, rfl, Iff.rfl⟩
  rw [scanDown_some, Option.some.injEq] at hr
  exact hr ▸ hlast

theorem lastBelow_eq_some {n k : Nat} :
    lastBelow p n = some k ↔ k < n ∧ p k = true ∧ ∀ i, k < i → i < n → p i = false := by
  constructor
  · intro h
    have hlast := lastBelow_last (p := p) n
    rw [h] at hlast
    refine ⟨hlast.1.1, hlast.1.2, fun i hi hlt => ?_⟩
    exact Bool.eq_false_iff.mpr fun hp => hlast.2 i hi ⟨hlt, hp⟩
  · rintro ⟨hlt, hk, hlater⟩
    refine Last.unique (lastBelow_last n) (show Last _ (some k) from ⟨⟨hlt, hk⟩, fun i hi h => ?_⟩)
    exact Bool.false_ne_true ((hlater i hi h.1).symm.trans h.2)

end

end WinCompat.Lib.Search
