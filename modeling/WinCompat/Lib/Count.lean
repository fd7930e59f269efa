import Mathlib.Algebra.Order.BigOperators.Group.Finset
import Mathlib.Data.BitVec

/-!
# Counting the threads that satisfy a predicate

`countWhere p f` is the number of indices whose value under `f` satisfies `p`. A step of one
thread updates `f` at one index, and `countWhere_update` says what that does to the count; it
is the only bookkeeping a conservation law over thread states needs.
-/

namespace WinCompat.Lib

variable {ι α : Type} [Fintype ι]

theorem sum_eq_off [DecidableEq ι] {f g : ι → Nat} {i : ι} (h : ∀ j, j ≠ i → g j = f j) :
    ∑ j, g j + f i = ∑ j, f j + g i := by
  have hrest : ∑ j ∈ Finset.univ.erase i, g j = ∑ j ∈ Finset.univ.erase i, f j :=
    Finset.sum_congr rfl fun j hj => h j (Finset.ne_of_mem_erase hj)
  have hf := Finset.add_sum_erase Finset.univ f (Finset.mem_univ i)
  have hg := Finset.add_sum_erase Finset.univ g (Finset.mem_univ i)
  omega

theorem le_sum (f : ι → Nat) (i : ι) : f i ≤ ∑ j, f j :=
  Finset.single_le_sum (fun _ _ => Nat.zero_le _) (Finset.mem_univ i)

theorem pair_le_sum [DecidableEq ι] (f : ι → Nat) {i j : ι} (h : i ≠ j) :
    f i + f j ≤ ∑ k, f k := by
  rw [← Finset.sum_pair h]
  exact Finset.sum_le_sum_of_subset (Finset.subset_univ {i, j})

/-- How many indices hold a value satisfying `p`. -/
def countWhere (p : α → Bool) (f : ι → α) : Nat :=
  ∑ i, (p (f i)).toNat

/-- One index changes: the count gains the new value and loses the old one. -/
theorem countWhere_update [DecidableEq ι] (p : α → Bool) (f : ι → α) (i : ι) (v : α) :
    countWhere p (Function.update f i v) + (p (f i)).toNat = countWhere p f + (p v).toNat := by
  have h := sum_eq_off (f := fun j => (p (f j)).toNat) (i := i)
    (g := fun j => (p (Function.update f i v j)).toNat) fun j hj => by
      rw [Function.update_of_ne hj]
  simp only [Function.update_self] at h
  exact h

variable {p : α → Bool}

theorem countWhere_congr {f g : ι → α} (h : ∀ i, p (f i) = p (g i)) :
    countWhere p f = countWhere p g := by
  unfold countWhere
  exact Finset.sum_congr rfl fun i _ => by rw [h i]

variable {f : ι → α}

theorem countWhere_pos {i : ι} (h : p (f i) = true) : 0 < countWhere p f := by
  have hle := le_sum (fun j => (p (f j)).toNat) i
  simp only [h, Bool.toNat_true] at hle
  exact hle

theorem countWhere_eq_zero_of (h : ∀ i, p (f i) = false) : countWhere p f = 0 :=
  Finset.sum_eq_zero fun i _ => by rw [h i]; rfl

theorem countWhere_eq_zero (h : countWhere p f = 0) (i : ι) : p (f i) = false := by
  by_contra hne
  have := countWhere_pos (f := f) (i := i) (by simpa using hne)
  omega

/-- Two distinct indices that satisfy `p` make the count at least two. -/
theorem two_le_countWhere [DecidableEq ι] {i j : ι} (hij : i ≠ j) (hi : p (f i) = true)
    (hj : p (f j) = true) : 2 ≤ countWhere p f := by
  have hle := pair_le_sum (fun k => (p (f k)).toNat) hij
  simp only [hi, hj, Bool.toNat_true] at hle
  exact hle

theorem countWhere_le_card (p : α → Bool) (f : ι → α) : countWhere p f ≤ Fintype.card ι := by
  unfold countWhere
  calc ∑ j, (p (f j)).toNat ≤ ∑ _j : ι, 1 := Finset.sum_le_sum fun j _ => Bool.toNat_le (p (f j))
    _ = Fintype.card ι := by simp

theorem of_countWhere_eq {β : Type} {q : β → Bool} {g : ι → β}
    (h : ∀ i, p (f i) = true → q (g i) = true) (hcount : countWhere p f = countWhere q g) {i : ι}
    (hi : q (g i) = true) : p (f i) = true := by
  have hle : ∀ j ∈ Finset.univ, (p (f j)).toNat ≤ (q (g j)).toNat := by
    intro j _
    cases hp : p (f j) with
    | false => exact Nat.zero_le _
    | true => rw [h j hp]
  have heq := (Finset.sum_eq_sum_iff_of_le hle).mp hcount i (Finset.mem_univ i)
  cases hp : p (f i) with
  | true => rfl
  | false => simp [hp, hi] at heq

theorem countWhere_lt_card {i : ι} (h : p (f i) = false) : countWhere p f < Fintype.card ι := by
  unfold countWhere
  calc ∑ j, (p (f j)).toNat < ∑ _j : ι, 1 := by
        refine Finset.sum_lt_sum (fun j _ => Bool.toNat_le (p (f j))) ⟨i, Finset.mem_univ i, ?_⟩
        simp [h]
    _ = Fintype.card ι := by simp

end WinCompat.Lib
