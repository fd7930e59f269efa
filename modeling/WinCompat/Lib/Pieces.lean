import Mathlib.Data.BitVec

/-!
# Lists joined by a separator

A flat list stands for the pieces between its separators. Where no piece has a separator in it the
pieces can be read back (`List.splitOn_intercalate`), so joined lists are equal exactly when their
pieces are, and one begins another, up to a separator, exactly when its pieces are the first of them.
-/

namespace WinCompat.Lib.Pieces

universe u

variable {α : Type u} {x : α}

/-- No piece has the separator in it. -/
def Clean (x : α) (ls : List (List α)) : Prop := ∀ l ∈ ls, x ∉ l

variable {ks ls : List (List α)}

theorem Clean.append (hk : Clean x ks) (hl : Clean x ls) : Clean x (ks ++ ls) := by
  intro l hmem
  rcases List.mem_append.mp hmem with hmem | hmem
  · exact hk l hmem
  · exact hl l hmem

/-- Joining two groups of pieces takes one more separator between them, unless a group is empty. -/
theorem intercalate_append (hk : ks ≠ []) (hl : ls ≠ []) :
    [x].intercalate (ks ++ ls) = [x].intercalate ks ++ x :: [x].intercalate ls := by
  induction ks with
  | nil => exact absurd rfl hk
  | cons k ks ih =>
    cases ks with
    | nil =>
      rw [List.singleton_append, List.intercalate_cons_of_ne_nil hl, List.intercalate_singleton,
        List.append_assoc, List.singleton_append]
    | cons k' ks =>
      rw [List.cons_append, List.cons_append, List.intercalate_cons_cons, ← List.cons_append,
        ih (List.cons_ne_nil k' ks), List.intercalate_cons_cons]
      simp

variable [BEq α] [LawfulBEq α]

theorem clean_splitOn (l : List α) : Clean x (l.splitOn x) := by
  induction l with
  | nil =>
    rw [List.splitOn_nil]
    intro l hmem
    rw [List.mem_singleton.mp hmem]
    exact List.not_mem_nil
  | cons a l ih =>
    rw [List.splitOn_cons_eq_if_modifyHead]
    by_cases ha : a = x
    · rw [if_pos (beq_iff_eq.mpr ha)]
      intro l' hmem
      rcases List.mem_cons.mp hmem with rfl | hmem
      · exact List.not_mem_nil
      · exact ih l' hmem
    · rw [if_neg fun h => ha (beq_iff_eq.mp h)]
      cases hsplit : l.splitOn x with
      | nil => exact absurd hsplit (List.splitOn_ne_nil x l)
      | cons k ks =>
        rw [hsplit] at ih
        intro l' hmem
        rcases List.mem_cons.mp hmem with rfl | hmem
        · intro hx
          rcases List.mem_cons.mp hx with hx | hx
          · exact ha hx.symm
          · exact ih k List.mem_cons_self hx
        · exact ih l' (List.mem_cons_of_mem k hmem)

theorem splitOn_inj {l l' : List α} (h : l.splitOn x = l'.splitOn x) : l = l' := by
  have hjoined := congrArg [x].intercalate h
  rwa [List.intercalate_splitOn, List.intercalate_splitOn] at hjoined

theorem intercalate_inj (hk : Clean x ks) (hl : Clean x ls) (hk' : ks ≠ []) (hl' : ls ≠ []) :
    [x].intercalate ks = [x].intercalate ls ↔ ks = ls := by
  constructor
  · intro h
    rw [← List.splitOn_intercalate x hk hk', h, List.splitOn_intercalate x hl hl']
  · exact congrArg _

theorem intercalate_prefix_iff (hk : Clean x ks) (hl : Clean x ls) (hk' : ks ≠ []) (hl' : ls ≠ []) :
    [x].intercalate ks ++ [x] <+: [x].intercalate ls ↔ ∃ ms, ms ≠ [] ∧ ls = ks ++ ms := by
  constructor
  · rintro ⟨rest, hrest⟩
    refine ⟨rest.splitOn x, List.splitOn_ne_nil x rest, ?_⟩
    rw [List.append_assoc, List.singleton_append] at hrest
    rw [← List.splitOn_intercalate x hl hl', ← hrest, List.splitOn_append_cons_self,
      List.splitOn_intercalate x hk hk']
  · rintro ⟨ms, hms, rfl⟩
    rw [intercalate_append hk' hms]
    exact ⟨[x].intercalate ms, by simp⟩

end WinCompat.Lib.Pieces
