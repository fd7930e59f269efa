import Mathlib.Data.BitVec

/-!
# Placing items one after another

A rule says where an item goes when everything before it ends at some place, and how much it takes.
A rule that never goes back gives ranges in order and apart (`Rule.ranges_ordered`). Two rules place
a list alike when they place its first item alike, and then the rest, each from the end that its own
size gives (`Rule.offsets_cons_eq_iff`).
-/

namespace WinCompat.Lib.Placement

universe u

structure Rule (α : Type u) where
  place : α → Nat → Nat
  size : α → Nat

namespace Rule

variable {α : Type u}

/-- Each item with the end of what is before it. -/
def ends (r : Rule α) : List α → Nat → List (α × Nat)
  | [], _ => []
  | a :: rest, e => (a, e) :: r.ends rest (r.place a e + r.size a)

def offsets (r : Rule α) (as : List α) (e : Nat) : List Nat :=
  (r.ends as e).map fun p => r.place p.1 p.2

/-- Where each item starts and where it ends. -/
def ranges (r : Rule α) (as : List α) (e : Nat) : List (Nat × Nat) :=
  (r.ends as e).map fun p => (r.place p.1 p.2, r.place p.1 p.2 + r.size p.1)

variable {r r' : Rule α}

@[simp] theorem offsets_nil (e : Nat) : r.offsets [] e = [] := rfl

@[simp] theorem offsets_cons (a : α) (as : List α) (e : Nat) :
    r.offsets (a :: as) e = r.place a e :: r.offsets as (r.place a e + r.size a) := rfl

@[simp] theorem ranges_nil (e : Nat) : r.ranges [] e = [] := rfl

@[simp] theorem ranges_cons (a : α) (as : List α) (e : Nat) :
    r.ranges (a :: as) e =
      (r.place a e, r.place a e + r.size a) :: r.ranges as (r.place a e + r.size a) := rfl

/-- Nothing is placed before the end it starts from. -/
theorem le_of_mem_ranges (hle : ∀ a e, e ≤ r.place a e) :
    ∀ (as : List α) (e : Nat), ∀ x ∈ r.ranges as e, e ≤ x.1 := by
  intro as
  induction as with
  | nil => simp
  | cons a rest ih =>
    intro e x hx
    rcases List.mem_cons.mp hx with rfl | hx
    · exact hle a e
    · calc e ≤ r.place a e := hle a e
        _ ≤ r.place a e + r.size a := Nat.le_add_right _ _
        _ ≤ x.1 := ih _ x hx

theorem ranges_ordered (hle : ∀ a e, e ≤ r.place a e) (as : List α) :
    ∀ e, (r.ranges as e).Pairwise fun x y => x.2 ≤ y.1 := by
  induction as with
  | nil => simp
  | cons a rest ih =>
    intro e
    rw [ranges_cons, List.pairwise_cons]
    exact ⟨le_of_mem_ranges hle rest _, ih _⟩

theorem offsets_cons_eq_iff {a : α} {as : List α} {e e' : Nat} :
    r.offsets (a :: as) e = r'.offsets (a :: as) e' ↔ r.place a e = r'.place a e' ∧
      r.offsets as (r.place a e + r.size a) = r'.offsets as (r.place a e + r'.size a) := by
  rw [offsets_cons, offsets_cons, List.cons.injEq]
  exact and_congr_right fun hplace => by rw [hplace]

end Rule

end WinCompat.Lib.Placement
