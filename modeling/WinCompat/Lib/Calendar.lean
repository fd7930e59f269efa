import Mathlib.Data.BitVec
import Mathlib.Tactic.IntervalCases

/-!
# The Gregorian calendar

Dates with the year extended in both directions, one after the other by `next`. The `ordinal` of a
date counts the days from the first of January of the year 1: it grows by one from a day to the
`next` (`ordinal_next`), and so the valid dates in their order are the integers in theirs
(`ordinal_lt_iff`, `exists_ordinal`).
-/

namespace WinCompat.Lib.Calendar

def IsLeap (y : Int) : Prop := y % 4 = 0 ∧ (y % 100 ≠ 0 ∨ y % 400 = 0)

instance (y : Int) : Decidable (IsLeap y) := inferInstanceAs (Decidable (_ ∧ _))

/-- The days of February of the year `y`. -/
def february (y : Int) : Nat := if IsLeap y then 29 else 28

def daysInMonth (y : Int) : Nat → Nat
  | 2 => february y
  | 4 | 6 | 9 | 11 => 30
  | _ => 31

structure Date where
  year : Int
  month : Nat
  day : Nat
  deriving DecidableEq

namespace Date

structure Valid (d : Date) : Prop where
  month_pos : 1 ≤ d.month
  month_le : d.month ≤ 12
  day_pos : 1 ≤ d.day
  day_le : d.day ≤ daysInMonth d.year d.month

instance (d : Date) : Decidable d.Valid :=
  decidable_of_iff (1 ≤ d.month ∧ d.month ≤ 12 ∧ 1 ≤ d.day ∧ d.day ≤ daysInMonth d.year d.month)
    ⟨fun h => ⟨h.1, h.2.1, h.2.2.1, h.2.2.2⟩, fun h => ⟨h.1, h.2, h.3, h.4⟩⟩

/-- The day after. -/
def next (d : Date) : Date :=
  if d.day < daysInMonth d.year d.month then ⟨d.year, d.month, d.day + 1⟩
  else if d.month < 12 then ⟨d.year, d.month + 1, 1⟩
  else ⟨d.year + 1, 1, 1⟩

/-- The lexicographic order. -/
def Before (a b : Date) : Prop :=
  a.year < b.year ∨ a.year = b.year ∧ (a.month < b.month ∨ a.month = b.month ∧ a.day < b.day)

/-- Days from the first of January of the year 1 to that of the year `y`. -/
def yearStart (y : Int) : Int := 365 * (y - 1) + (y - 1) / 4 - (y - 1) / 100 + (y - 1) / 400

/-- Days of the year `y` before the month after the `m`-th. -/
def monthEnd (y : Int) : Nat → Nat
  | 0 => 0
  | m + 1 => monthEnd y m + daysInMonth y (m + 1)

/-- Days since the first of January of the year 1. -/
def ordinal (d : Date) : Int := yearStart d.year + monthEnd d.year (d.month - 1) + d.day - 1

end Date

/-! ## The lengths of months and years -/

theorem one_le_daysInMonth (y : Int) (m : Nat) : 1 ≤ daysInMonth y m := by
  have hfebruary : 1 ≤ february y := by
    unfold february
    split <;> decide
  unfold daysInMonth
  split
  · exact hfebruary
  all_goals decide

theorem daysInMonth_le (y : Int) (m : Nat) : daysInMonth y m ≤ 31 := by
  have hfebruary : february y ≤ 31 := by
    unfold february
    split <;> decide
  unfold daysInMonth
  split
  · exact hfebruary
  all_goals decide

namespace Date

theorem monthEnd_mono (y : Int) {m m' : Nat} (h : m ≤ m') : monthEnd y m ≤ monthEnd y m' := by
  induction h with
  | refl => exact Nat.le_refl _
  | step _ ih => exact ih.trans (Nat.le_add_right _ _)

theorem monthEnd_year (y : Int) : monthEnd y 12 = 337 + february y := by
  simp only [monthEnd, daysInMonth]
  omega

theorem yearStart_succ (y : Int) : yearStart (y + 1) = yearStart y + monthEnd y 12 := by
  rw [monthEnd_year]
  unfold yearStart february
  by_cases hleap : IsLeap y
  · rw [if_pos hleap]
    unfold IsLeap at hleap
    omega
  · rw [if_neg hleap]
    unfold IsLeap at hleap
    omega

theorem yearStart_mono {y y' : Int} (h : y ≤ y') : yearStart y ≤ yearStart y' := by
  unfold yearStart
  omega

/-! ## The ordinal -/

variable {d : Date}

theorem ordinal_bounds (h : d.Valid) :
    yearStart d.year + monthEnd d.year (d.month - 1) ≤ d.ordinal ∧
      d.ordinal < yearStart d.year + monthEnd d.year d.month := by
  obtain ⟨hpos, -, hday, hle⟩ := h
  obtain ⟨m, hm⟩ : ∃ m, d.month = m + 1 := ⟨d.month - 1, by omega⟩
  rw [hm] at hle
  rw [ordinal, hm, Nat.add_sub_cancel, monthEnd]
  omega

theorem ordinal_next (h : d.Valid) : d.next.ordinal = d.ordinal + 1 := by
  obtain ⟨m, hm⟩ : ∃ m, d.month = m + 1 := ⟨d.month - 1, by have := h.month_pos; omega⟩
  have hday := h.day_le
  unfold next
  split
  · simp only [ordinal]
    omega
  · next hlast =>
    have hend : d.day = daysInMonth d.year d.month := by omega
    split
    · simp only [ordinal, hend, hm, Nat.add_sub_cancel, monthEnd]
      omega
    · next hmonth =>
      have hdecember : d.month = 12 := by have := h.month_le; omega
      have hyear := yearStart_succ d.year
      have hyearEnd : monthEnd d.year 12 = monthEnd d.year 11 + daysInMonth d.year 12 := rfl
      simp only [ordinal, hend, hdecember, Nat.sub_self, Nat.reduceSub, hyear, hyearEnd]
      rw [monthEnd]
      omega

theorem Valid.next (h : d.Valid) : d.next.Valid := by
  obtain ⟨hpos, hmonth, hday, hle⟩ := h
  unfold Date.next
  split
  · next hlt => exact ⟨hpos, hmonth, Nat.le_add_left _ _, hlt⟩
  · split
    · next hlt => exact ⟨Nat.le_add_left _ _, hlt, Nat.le_refl _, one_le_daysInMonth _ _⟩
    · exact ⟨Nat.le_refl _, Nat.le_add_left _ _, Nat.le_refl _, one_le_daysInMonth _ _⟩

theorem Valid.exists_prev (h : d.Valid) : ∃ p : Date, p.Valid ∧ p.ordinal = d.ordinal - 1 := by
  obtain ⟨hpos, hmonth, hday, hle⟩ := h
  by_cases hfirst : d.day = 1
  · by_cases hjanuary : d.month = 1
    · refine ⟨⟨d.year - 1, 12, 31⟩, ⟨Nat.le_add_left _ _, Nat.le_refl _, Nat.le_add_left _ _,
        Nat.le_refl _⟩, ?_⟩
      have hyear := yearStart_succ (d.year - 1)
      rw [Int.sub_add_cancel] at hyear
      simp only [ordinal, hfirst, hjanuary, hyear, Nat.sub_self, monthEnd, daysInMonth]
      omega
    · obtain ⟨m, hm⟩ : ∃ m, d.month = m + 2 := ⟨d.month - 2, by omega⟩
      rw [hm] at hmonth
      have hlast := one_le_daysInMonth d.year (m + 1)
      refine ⟨⟨d.year, m + 1, daysInMonth d.year (m + 1)⟩, ⟨Nat.le_add_left _ _,
        by dsimp only; omega, hlast, Nat.le_refl _⟩, ?_⟩
      simp only [ordinal, hfirst, hm, Nat.add_sub_cancel, Nat.reduceSubDiff, monthEnd]
      omega
  · refine ⟨⟨d.year, d.month, d.day - 1⟩, ⟨hpos, hmonth, by dsimp only; omega,
      by dsimp only; omega⟩, ?_⟩
    simp only [ordinal]
    omega

theorem ordinal_lt_of_before {a b : Date} (ha : a.Valid) (hb : b.Valid) (h : a.Before b) :
    a.ordinal < b.ordinal := by
  have ha' := (ordinal_bounds ha).2
  have hb' := (ordinal_bounds hb).1
  obtain hyear | ⟨hyear, hmonth | ⟨hmonth, hday⟩⟩ := h
  · have hend := monthEnd_mono a.year ha.month_le
    have hstart := yearStart_mono (show a.year + 1 ≤ b.year by omega)
    rw [yearStart_succ] at hstart
    omega
  · have hend := monthEnd_mono a.year (show a.month ≤ b.month - 1 by omega)
    rw [hyear] at ha' hend
    omega
  · simp only [ordinal, hyear, hmonth]
    omega

theorem before_trichotomy (a b : Date) : a.Before b ∨ a = b ∨ b.Before a := by
  unfold Before
  obtain hlt | heq | hgt := Int.lt_trichotomy a.year b.year
  · exact .inl (.inl hlt)
  · obtain hlt' | heq' | hgt' := Nat.lt_trichotomy a.month b.month
    · exact .inl (.inr ⟨heq, .inl hlt'⟩)
    · obtain hlt'' | heq'' | hgt'' := Nat.lt_trichotomy a.day b.day
      · exact .inl (.inr ⟨heq, .inr ⟨heq', hlt''⟩⟩)
      · refine .inr (.inl ?_)
        cases a
        cases b
        simp_all
      · exact .inr (.inr (.inr ⟨heq.symm, .inr ⟨heq'.symm, hgt''⟩⟩))
    · exact .inr (.inr (.inr ⟨heq.symm, .inl hgt'⟩))
  · exact .inr (.inr (.inl hgt))

theorem ordinal_lt_iff {a b : Date} (ha : a.Valid) (hb : b.Valid) :
    a.ordinal < b.ordinal ↔ a.Before b := by
  constructor
  · intro h
    obtain hbefore | rfl | hafter := before_trichotomy a b
    · exact hbefore
    · exact absurd h (Int.lt_irrefl _)
    · exact absurd (ordinal_lt_of_before hb ha hafter) (Int.lt_asymm h)
  · exact ordinal_lt_of_before ha hb

theorem ordinal_inj {a b : Date} (ha : a.Valid) (hb : b.Valid) (h : a.ordinal = b.ordinal) :
    a = b := by
  obtain hbefore | heq | hafter := before_trichotomy a b
  · exact absurd h (ordinal_lt_of_before ha hb hbefore).ne
  · exact heq
  · exact absurd h.symm (ordinal_lt_of_before hb ha hafter).ne

theorem exists_ordinal (z : Int) : ∃ d : Date, d.Valid ∧ d.ordinal = z := by
  induction z using Int.induction_on with
  | zero => exact ⟨⟨1, 1, 1⟩, by decide, by decide⟩
  | succ i ih =>
    obtain ⟨d, hd, hz⟩ := ih
    exact ⟨d.next, hd.next, by rw [ordinal_next hd, hz]⟩
  | pred i ih =>
    obtain ⟨d, hd, hz⟩ := ih
    obtain ⟨p, hp, hprev⟩ := hd.exists_prev
    exact ⟨p, hp, by rw [hprev, hz]⟩

end Date

/-- Sunday is 0: the first of January of the year 1 is a Monday. -/
def weekday (d : Date) : Int := (d.ordinal + 1) % 7

example : weekday ⟨1970, 1, 1⟩ = 4 := by decide

end WinCompat.Lib.Calendar
