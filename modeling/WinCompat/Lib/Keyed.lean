import Mathlib.Data.BitVec
import Mathlib.Data.List.AList

/-!
# Keyed stores

What a hash map offers beyond lookup, insertion and removal, for association lists whose keys are
distinct: an entry made when there is none, keeping the entries whose key passes a test, and giving
every key and value another name. Renaming keys injectively commutes with everything else.
-/

namespace WinCompat.Lib.Keyed

universe u v

/-- A hash map seen as an association list with distinct keys. -/
abbrev Store (α : Type u) (ν : Type v) := AList fun _ : α => ν

variable {α α' : Type u} {ν ν' : Type v}

/-- The entries whose key passes the test. -/
def retain (p : α → Bool) (s : Store α ν) : Store α ν where
  entries := s.entries.filter fun e => p e.1
  nodupKeys := List.NodupKeys.sublist List.filter_sublist s.nodupKeys

/-- Every key and every value under another name. Distinct keys must stay distinct, so the names of
    the keys have to be injective. -/
def rename (f : α → α') (hf : Function.Injective f) (g : ν → ν') (s : Store α ν) : Store α' ν' where
  entries := s.entries.map (Sigma.map f fun _ => g)
  nodupKeys := by
    have hkeys : (s.entries.map (Sigma.map f fun _ => g) : List (Σ _ : α', ν')).keys =
        s.entries.keys.map f := by
      simp [List.keys, Sigma.map]
    rw [List.NodupKeys, hkeys]
    exact s.nodupKeys.map hf

variable [DecidableEq α] [DecidableEq α']

/-- An entry for the key, `d` if there was none. -/
def orDefault (d : ν) (a : α) (s : Store α ν) : Store α ν :=
  if a ∈ s then s else s.insert a d

theorem lookup_orDefault_self {d : ν} {a : α} {s : Store α ν} :
    (orDefault d a s).lookup a = some ((s.lookup a).getD d) := by
  unfold orDefault
  by_cases h : a ∈ s
  · obtain ⟨b, hb⟩ := Option.isSome_iff_exists.mp (AList.lookup_isSome.mpr h)
    rw [if_pos h, hb]
    rfl
  · rw [if_neg h, AList.lookup_insert, AList.lookup_eq_none.mpr h]
    rfl

theorem lookup_orDefault_ne {d : ν} {a b : α} {s : Store α ν} (h : b ≠ a) :
    (orDefault d a s).lookup b = s.lookup b := by
  unfold orDefault
  by_cases ha : a ∈ s
  · rw [if_pos ha]
  · rw [if_neg ha, AList.lookup_insert_ne h]

theorem lookup_retain {p : α → Bool} {s : Store α ν} {a : α} :
    (retain p s).lookup a = if p a then s.lookup a else none := by
  apply Option.ext
  intro b
  have hmem : (retain p s).lookup a = some b ↔ ⟨a, b⟩ ∈ (retain p s).entries :=
    List.mem_dlookup_iff (retain p s).nodupKeys
  have hmem' : s.lookup a = some b ↔ ⟨a, b⟩ ∈ s.entries := List.mem_dlookup_iff s.nodupKeys
  have hretain : (⟨a, b⟩ : Σ _ : α, ν) ∈ (retain p s).entries ↔ ⟨a, b⟩ ∈ s.entries ∧ p a = true :=
    List.mem_filter
  rw [hmem, hretain]
  by_cases hp : p a
  · rw [if_pos hp, hmem']
    exact and_iff_left hp
  · rw [if_neg hp]
    simp [hp]

/-! ## Renaming -/

variable {f : α → α'} (hf : Function.Injective f) {g : ν → ν'} {s : Store α ν} {a : α} {b : ν}

omit [DecidableEq α] [DecidableEq α'] in
theorem keys_rename : (rename f hf g s).keys = s.keys.map f := by
  simp [AList.keys, rename, List.keys, Sigma.map]

theorem lookup_rename : (rename f hf g s).lookup (f a) = (s.lookup a).map g :=
  @List.dlookup_map α α' (fun _ => ν) (fun _ => ν') _ _ s.entries f hf (fun _ => g) a

theorem mem_rename : f a ∈ rename f hf g s ↔ a ∈ s := by
  rw [← AList.lookup_isSome, lookup_rename hf, Option.isSome_map, AList.lookup_isSome]

include hf in
theorem kerase_map (l : List (Σ _ : α, ν)) :
    (l.map (Sigma.map f fun _ => g) : List (Σ _ : α', ν')).kerase (f a) =
      (l.kerase a).map (Sigma.map f fun _ => g) := by
  unfold List.kerase
  rw [List.eraseP_map]
  congr 1
  apply congrArg (fun q => List.eraseP q l)
  funext e
  exact decide_eq_decide.mpr hf.eq_iff

theorem rename_erase : rename f hf g (s.erase a) = (rename f hf g s).erase (f a) :=
  AList.ext (kerase_map hf s.entries).symm

theorem rename_insert : rename f hf g (s.insert a b) = (rename f hf g s).insert (f a) (g b) := by
  apply AList.ext
  rw [AList.entries_insert]
  change List.map _ (AList.insert a b s).entries = _
  rw [AList.entries_insert, List.map_cons]
  exact congrArg _ (kerase_map hf s.entries).symm

theorem rename_orDefault {d : ν} :
    rename f hf g (orDefault d a s) = orDefault (g d) (f a) (rename f hf g s) := by
  unfold orDefault
  by_cases h : a ∈ s
  · rw [if_pos h, if_pos ((mem_rename hf).mpr h)]
  · rw [if_neg h, if_neg (fun h' => h ((mem_rename hf).mp h')), rename_insert]

omit [DecidableEq α] [DecidableEq α'] in
theorem rename_retain (p : α → Bool) (p' : α' → Bool) (hp : ∀ a, p' (f a) = p a) :
    rename f hf g (retain p s) = retain p' (rename f hf g s) := by
  apply AList.ext
  change List.map _ (List.filter _ _) = List.filter _ (List.map _ _)
  rw [List.filter_map]
  congr 1
  apply congrArg (fun q => List.filter q s.entries)
  funext e
  exact (hp e.1).symm

end WinCompat.Lib.Keyed
