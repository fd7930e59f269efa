import Mathlib.Data.BitVec

/-!
# Association lists and partial arrays

An association list whose keys have one value each answers a lookup with that value, wherever in the
list it is (`lookup_eq_some_iff_mem`). Two lists with the same keys answer a lookup alike
(`Matched`). An array that is collected from what can be read, where
nothing can be read after the first failure, keeps its indices (`getElem?_filterMap_range`). `adjust`
changes the first entry under a key, `without` removes all of them.
-/

namespace WinCompat.Lib.Assoc

variable {ν : Type}

/-- Where everything can be read, nothing is dropped. -/
theorem filterMap_range_of_some {g : Nat → Option ν} {n : Nat} (h : ∀ i < n, (g i).isSome) :
    ((List.range n).filterMap g).length = n := by
  induction n with
  | zero => rfl
  | succ n ih =>
    obtain ⟨v, hv⟩ := Option.isSome_iff_exists.mp (h n (Nat.lt_succ_self n))
    rw [List.range_succ, List.filterMap_append, List.length_append,
      ih fun i hi => h i (Nat.lt_succ_of_lt hi)]
    simp [hv]

/-- Since nothing can be read after the first failure, the entries that could be read are the first
    ones, and none of them has moved. -/
theorem getElem?_filterMap_range {g : Nat → Option ν}
    (h : ∀ i j, i ≤ j → g i = none → g j = none) (n i : Nat) :
    ((List.range n).filterMap g)[i]? = if i < n then g i else none := by
  induction n with
  | zero => rfl
  | succ n ih =>
    rw [List.range_succ, List.filterMap_append]
    cases hn : g n with
    | none =>
      have hlast : [n].filterMap g = [] := by simp [hn]
      rw [hlast, List.append_nil, ih]
      by_cases hi : i < n
      · rw [if_pos hi, if_pos (Nat.lt_succ_of_lt hi)]
      · rw [if_neg hi]
        split_ifs with hi'
        · rw [Nat.le_antisymm (Nat.le_of_lt_succ hi') (Nat.le_of_not_lt hi), hn]
        · rfl
    | some v =>
      have hall : ∀ k < n, (g k).isSome := by
        intro k hk
        by_contra hnone
        rw [h k n (Nat.le_of_lt hk) (Option.not_isSome_iff_eq_none.mp hnone)] at hn
        cases hn
      have hlen := filterMap_range_of_some hall
      have hlast : [n].filterMap g = [v] := by simp [hn]
      rw [hlast]
      by_cases hi : i < n
      · rw [List.getElem?_append_left (by rwa [hlen]), ih, if_pos hi,
          if_pos (Nat.lt_succ_of_lt hi)]
      · by_cases hin : i = n
        · rw [hin, List.getElem?_append_right (Nat.le_of_eq hlen), hlen, Nat.sub_self,
            if_pos (Nat.lt_succ_self n), hn]
          rfl
        · rw [if_neg (by omega), List.getElem?_eq_none]
          rw [List.length_append, hlen, List.length_singleton]
          omega

variable {κ : Type}

/-! ## Lists with the same keys -/

/-- The same keys in the same order, with values that `R` relates. -/
def Matched {μ : Type} (R : ν → μ → Prop) (l : List (κ × ν)) (l' : List (κ × μ)) : Prop :=
  List.Forall₂ (fun p q => p.1 = q.1 ∧ R p.2 q.2) l l'

namespace Matched

variable {μ : Type} {R S : ν → μ → Prop} {l : List (κ × ν)} {l' : List (κ × μ)}

theorem nil : Matched R ([] : List (κ × ν)) [] := List.Forall₂.nil

theorem cons (h : Matched R l l') (k : κ) {v : ν} {w : μ} (hv : R v w) :
    Matched R ((k, v) :: l) ((k, w) :: l') := List.Forall₂.cons ⟨rfl, hv⟩ h

theorem mono (h : Matched R l l') (hs : ∀ v w, R v w → S v w) : Matched S l l' :=
  List.Forall₂.imp (fun _ _ hp => ⟨hp.1, hs _ _ hp.2⟩) h

theorem exists_of_mem (h : Matched R l l') {p : κ × ν} (hp : p ∈ l) : ∃ w, R p.2 w := by
  induction h with
  | nil => cases hp
  | @cons p' q l l' hpq _ ih =>
    rcases List.mem_cons.1 hp with rfl | hp
    · exact ⟨q.2, hpq.2⟩
    · exact ih hp

variable [BEq κ]

/-- Lists that match answer every lookup alike: both with a value, or neither. -/
theorem lookup (h : Matched R l l') (k : κ) : Option.Rel R (l.lookup k) (l'.lookup k) := by
  induction h with
  | nil => exact .none
  | @cons p q l l' hp _ ih =>
    obtain ⟨k', v⟩ := p
    obtain ⟨_, w⟩ := q
    obtain ⟨rfl, hv⟩ := hp
    cases hk : k == k' with
    | true => simpa [List.lookup_cons, hk] using Option.Rel.some hv
    | false => simpa [List.lookup_cons, hk] using ih

theorem lookup_some (h : Matched R l l') {k : κ} {v : ν} (hk : l.lookup k = some v) :
    ∃ w, l'.lookup k = some w ∧ R v w := by
  have hrel := h.lookup k
  rw [hk] at hrel
  cases hw : l'.lookup k with
  | none =>
    rw [hw] at hrel
    cases hrel
  | some w =>
    rw [hw] at hrel
    cases hrel with
    | some hv => exact ⟨w, rfl, hv⟩

theorem lookup_none (h : Matched R l l') {k : κ} (hk : l.lookup k = none) :
    l'.lookup k = none := by
  have hrel := h.lookup k
  rw [hk] at hrel
  cases hw : l'.lookup k with
  | none => rfl
  | some w =>
    rw [hw] at hrel
    cases hrel

end Matched

/-! ## The first entry under a key -/

section First

variable [DecidableEq κ] {k k' : κ} {f : ν → ν} {l : List (κ × ν)}

/-- The first entry under the key is changed. -/
def adjust (k : κ) (f : ν → ν) : List (κ × ν) → List (κ × ν)
  | [] => []
  | (k', v) :: rest => if k' = k then (k', f v) :: rest else (k', v) :: adjust k f rest

theorem map_adjust {μ : Type} (g : ν → μ) (hg : ∀ v, g (f v) = g v) :
    (adjust k f l).map (fun p => (p.1, g p.2)) = l.map fun p => (p.1, g p.2) := by
  induction l with
  | nil => rfl
  | cons p l ih =>
    obtain ⟨j, v⟩ := p
    unfold adjust
    by_cases hj : j = k
    · rw [if_pos hj, List.map_cons, List.map_cons, hg]
    · rw [if_neg hj, List.map_cons, List.map_cons, ih]

theorem map_modify {α β : Type} (g : α → β) (u : α → α) (hg : ∀ a, g (u a) = g a) (l : List α)
    (i : Nat) : (l.modify i u).map g = l.map g := by
  induction l generalizing i with
  | nil => cases i <;> rfl
  | cons a l ih =>
    cases i with
    | zero => rw [List.modify_zero_cons, List.map_cons, List.map_cons, hg]
    | succ i => rw [List.modify_succ_cons, List.map_cons, List.map_cons, ih]

variable [BEq κ] [LawfulBEq κ]

theorem lookup_cons_ite (k k' : κ) (v : ν) (l : List (κ × ν)) :
    ((k', v) :: l).lookup k = if k' = k then some v else l.lookup k := by
  rw [List.lookup_cons]
  by_cases h : k' = k
  · simp [h]
  · rw [if_neg h, beq_false_of_ne (Ne.symm h)]

theorem lookup_adjust_self : (adjust k f l).lookup k = (l.lookup k).map f := by
  induction l with
  | nil => rfl
  | cons p l ih =>
    obtain ⟨k', v⟩ := p
    unfold adjust
    by_cases h : k' = k
    · rw [if_pos h, lookup_cons_ite, lookup_cons_ite, if_pos h, if_pos h, Option.map_some]
    · rw [if_neg h, lookup_cons_ite, lookup_cons_ite, if_neg h, if_neg h, ih]

theorem lookup_adjust_ne (h : k' ≠ k) : (adjust k f l).lookup k' = l.lookup k' := by
  induction l with
  | nil => rfl
  | cons p l ih =>
    obtain ⟨j, v⟩ := p
    unfold adjust
    by_cases hj : j = k
    · rw [if_pos hj, lookup_cons_ite, lookup_cons_ite, hj, if_neg (Ne.symm h), if_neg (Ne.symm h)]
    · rw [if_neg hj, lookup_cons_ite, lookup_cons_ite, ih]

/-- What the change leaves as it is can be read as before. -/
theorem bind_lookup_adjust {μ : Type} (g : ν → Option μ) (hg : ∀ v, g (f v) = g v) :
    ((adjust k f l).lookup k').bind g = (l.lookup k').bind g := by
  by_cases h : k' = k
  · subst h
    rw [lookup_adjust_self, Option.bind_map]
    congr 1
    funext v
    exact hg v
  · rw [lookup_adjust_ne h]

theorem lookup_eraseP_ne (h : k' ≠ k) :
    (l.eraseP fun p => p.1 = k).lookup k' = l.lookup k' := by
  induction l with
  | nil => rfl
  | cons p l ih =>
    obtain ⟨j, v⟩ := p
    rw [List.eraseP_cons, lookup_cons_ite]
    by_cases hj : j = k
    · rw [hj, if_neg (Ne.symm h)]
      simp
    · rw [cond_eq_ite, if_neg (by simpa using hj), lookup_cons_ite, ih]

theorem lookup_eraseP_self (hnodup : (l.map Prod.fst).Nodup) :
    (l.eraseP fun p => p.1 = k).lookup k = none := by
  induction l with
  | nil => rfl
  | cons p l ih =>
    obtain ⟨j, v⟩ := p
    obtain ⟨hj, hrest⟩ := List.nodup_cons.mp hnodup
    rw [List.eraseP_cons]
    by_cases hjk : j = k
    · subst hjk
      rw [cond_eq_ite, if_pos (by simp)]
      apply List.lookup_eq_none_iff.mpr
      intro p hp
      exact bne_iff_ne.mpr fun heq => hj (List.mem_map.mpr ⟨p, hp, heq.symm⟩)
    · rw [cond_eq_ite, if_neg (by simpa using hjk), lookup_cons_ite, if_neg hjk, ih hrest]

theorem lookup_append (k : κ) (l l' : List (κ × ν)) :
    (l ++ l').lookup k = (l.lookup k).or (l'.lookup k) := by
  induction l with
  | nil => rfl
  | cons p l ih =>
    obtain ⟨k', v⟩ := p
    rw [List.cons_append, lookup_cons_ite, lookup_cons_ite, ih]
    by_cases h : k' = k
    · rw [if_pos h, if_pos h, Option.some_or]
    · rw [if_neg h, if_neg h]

end First

/-! ## Lookup and membership -/

variable [BEq κ]

theorem lookup_map_snd {μ : Type} (f : ν → μ) (l : List (κ × ν)) (k : κ) :
    (l.map fun p => (p.1, f p.2)).lookup k = (l.lookup k).map f := by
  induction l with
  | nil => rfl
  | cons p l ih =>
    obtain ⟨k', v⟩ := p
    cases h : k == k' with
    | true => simp [List.lookup_cons, h]
    | false => simpa [List.lookup_cons, h] using ih

variable [LawfulBEq κ]

theorem mem_of_lookup {l : List (κ × ν)} {k : κ} {v : ν} (h : l.lookup k = some v) :
    (k, v) ∈ l := by
  obtain ⟨front, back, rfl, -⟩ := List.lookup_eq_some_iff.mp h
  exact List.mem_append_right _ List.mem_cons_self

theorem exists_lookup_of_mem {l : List (κ × ν)} {k : κ} {v : ν} (h : (k, v) ∈ l) :
    ∃ v', l.lookup k = some v' := by
  apply Option.ne_none_iff_exists'.mp
  intro hnone
  have hne := List.lookup_eq_none_iff.mp hnone (k, v) h
  simp at hne

theorem lookup_eq_some_iff_mem {l : List (κ × ν)}
    (hone : ∀ k v v', (k, v) ∈ l → (k, v') ∈ l → v = v') {k : κ} {v : ν} :
    l.lookup k = some v ↔ (k, v) ∈ l := by
  constructor
  · exact mem_of_lookup
  · intro h
    obtain ⟨v', h'⟩ := exists_lookup_of_mem h
    rw [h', hone k v v' h (mem_of_lookup h')]

theorem lookup_cons_ne {k k' : κ} (h : k ≠ k') (v : ν) (l : List (κ × ν)) :
    ((k', v) :: l).lookup k = l.lookup k := by
  rw [List.lookup_cons, beq_false_of_ne h]

/-- All entries under a key are removed. -/
def without (k : κ) (l : List (κ × ν)) : List (κ × ν) := l.filter fun e => !(e.1 == k)

theorem mem_without {k : κ} {l : List (κ × ν)} {e : κ × ν} :
    e ∈ without k l ↔ e ∈ l ∧ e.1 ≠ k := by
  simp [without]

theorem lookup_without_self {k : κ} {l : List (κ × ν)} : (without k l).lookup k = none := by
  apply List.lookup_eq_none_iff.mpr
  intro e he
  exact bne_iff_ne.mpr (Ne.symm (mem_without.mp he).2)

theorem lookup_without_ne {k k' : κ} {l : List (κ × ν)} (h : k' ≠ k) :
    (without k l).lookup k' = l.lookup k' := by
  induction l with
  | nil => rfl
  | cons e l ih =>
    obtain ⟨j, v⟩ := e
    unfold without at ih ⊢
    cases hj : j == k with
    | true =>
      rw [List.filter_cons_of_neg (by simp [hj]), ih, eq_of_beq hj, lookup_cons_ne h]
    | false =>
      rw [List.filter_cons_of_pos (by simp [hj]), List.lookup_cons, List.lookup_cons, ih]

theorem lookup_of_nodup {l : List (κ × ν)} (h : (l.map Prod.fst).Nodup) {d : κ × ν} (hm : d ∈ l) :
    l.lookup d.1 = some d.2 := by
  apply (lookup_eq_some_iff_mem ?_).mpr hm
  intro k v v' hv hv'
  exact (Prod.mk.inj (List.inj_on_of_nodup_map h hv hv' rfl)).2

end WinCompat.Lib.Assoc
