import WinCompat.Lib.HostTree

/-!
# Files that are opened

The file that a path leads to is the one that the path is opened as, and also the one that an open
creates is found under the path afterwards (`open_create`). Bytes in a file lead nowhere.
-/

namespace WinCompat.Lib.HostTree.Tree

/-- The file that a path leads to. -/
def fileAt (t : Tree) (p : Path) : Option Nat :=
  match t.resolve true p with
  | .ok place =>
      match place.node with
      | some (.file n) => some n
      | _ => none
  | .error _ => none

def reading : OpenFlags := ⟨false, false, false, false⟩

/-- To write a file from its beginning, whether there is one or not. -/
def rewriting : OpenFlags := ⟨true, true, false, true⟩

variable {t t' : Tree} {p name : Path} {d n : Nat} {bytes : List UInt8}

/-! ## Contents -/

theorem contents_setContents_self (t : Tree) (n : Nat) (bytes : List UInt8) :
    (t.setContents n bytes).contents n = bytes := Function.update_self _ _ _

theorem contents_setContents_ne {m : Nat} (h : m ≠ n) :
    (t.setContents n bytes).contents m = t.contents m := Function.update_of_ne h _ _

theorem walkFrom_setContents {follow : Bool} {onLink : Nat → List Path → Except Errno Place}
    (names : List Path) : ∀ d, (t.setContents n bytes).walkFrom follow onLink d names =
      t.walkFrom follow onLink d names := by
  induction names with
  | nil => exact fun _ => rfl
  | cons name names ih =>
    intro d
    have hlookup : (t.setContents n bytes).lookup d name = t.lookup d name := rfl
    have hparent : (t.setContents n bytes).parent d = t.parent d := rfl
    simp only [walkFrom, hlookup, hparent, ih]

theorem walk_setContents (follow : Bool) (links : Nat) :
    (t.setContents n bytes).walk follow links = t.walk follow links := by
  induction links with
  | zero =>
    funext d names
    exact walkFrom_setContents names d
  | succ links ih =>
    funext d names
    rw [walk, walk, ih]
    exact walkFrom_setContents names d

theorem resolve_setContents (follow : Bool) (p : Path) :
    (t.setContents n bytes).resolve follow p = t.resolve follow p := by
  have hcwd : (t.setContents n bytes).cwd = t.cwd := rfl
  unfold resolve
  rw [hcwd, walk_setContents]

theorem fileAt_setContents (p : Path) : (t.setContents n bytes).fileAt p = t.fileAt p := by
  unfold fileAt
  rw [resolve_setContents]

/-! ## A file that is added -/

theorem lookup_addFile (t : Tree) (d : Nat) (name : Path) :
    (t.addFile d name).lookup d name = some (.file t.next) := List.lookup_cons_self

theorem lookup_addFile_ne {d' : Nat} {name' : Path} (h : (d', name') ≠ (d, name)) :
    (t.addFile d name).lookup d' name' = t.lookup d' name' := Assoc.lookup_cons_ne h _ _

theorem walkFrom_none {onLink : Nat → List Path → Except Errno Place} {names : List Path}
    (hlink : ∀ d' names, onLink d' names = .ok (.entry d name none) → t.lookup d name = none) :
    ∀ d', t.walkFrom true onLink d' names = .ok (.entry d name none) → t.lookup d name = none := by
  induction names with
  | nil => exact fun _ h => by cases h
  | cons first rest ih =>
    intro d' h
    unfold walkFrom at h
    split at h
    · exact ih _ h
    split at h
    · exact ih _ h
    split at h <;> rename_i hnode
    · split at h
      · cases h
        exact hnode
      · cases h
    · split at h
      · cases h
      · exact ih _ h
    · split at h <;> cases h
    · exact hlink _ _ (by simpa using h)

theorem walk_none {links : Nat} : ∀ {d' : Nat} {names : List Path},
    t.walk true links d' names = .ok (.entry d name none) → t.lookup d name = none := by
  induction links with
  | zero => exact fun h => walkFrom_none (fun _ _ hloop => by cases hloop) _ h
  | succ links ih => exact fun h => walkFrom_none (fun _ _ hnext => ih hnext) _ h

theorem walkFrom_addFile {onLink onLink' : Nat → List Path → Except Errno Place}
    {names : List Path} (hfree : t.lookup d name = none)
    (hlink : ∀ d' names, onLink d' names = .ok (.entry d name none) →
      onLink' d' names = .ok (.entry d name (some (.file t.next)))) :
    ∀ d', t.walkFrom true onLink d' names = .ok (.entry d name none) →
      (t.addFile d name).walkFrom true onLink' d' names =
        .ok (.entry d name (some (.file t.next))) := by
  have hkept (d' : Nat) (name' : Path) (node : Node) (h : t.lookup d' name' = some node) :
      (t.addFile d name).lookup d' name' = some node := by
    rw [lookup_addFile_ne, h]
    intro heq
    obtain ⟨rfl, rfl⟩ := Prod.mk.inj heq
    exact absurd (hfree.symm.trans h) (by simp)
  induction names with
  | nil => exact fun _ h => by cases h
  | cons first rest ih =>
    intro d' h
    have hparent : (t.addFile d name).parent d' = t.parent d' := rfl
    unfold walkFrom at h ⊢
    rw [hparent]
    by_cases hdot : first = dot
    · rw [if_pos hdot] at h ⊢
      exact ih _ h
    rw [if_neg hdot] at h ⊢
    by_cases hdotdot : first = dotdot
    · rw [if_pos hdotdot] at h ⊢
      exact ih _ h
    rw [if_neg hdotdot] at h ⊢
    split at h <;> rename_i hnode
    · split at h
      · rename_i hnil
        cases h
        rw [lookup_addFile]
        exact if_pos hnil
      · cases h
    · rw [hkept _ _ _ hnode]
      split at h
      · cases h
      · rename_i hnil
        exact (if_neg hnil).trans (ih _ h)
    · split at h <;> cases h
    · rw [hkept _ _ _ hnode]
      have hmore : ¬ (rest = [] ∧ true = false) := by simp
      rw [if_neg hmore] at h
      exact (if_neg hmore).trans (hlink _ _ h)

theorem walk_addFile (hfree : t.lookup d name = none) {links : Nat} :
    ∀ {d' : Nat} {names : List Path}, t.walk true links d' names = .ok (.entry d name none) →
      (t.addFile d name).walk true links d' names = .ok (.entry d name (some (.file t.next))) := by
  induction links with
  | zero => exact fun h => walkFrom_addFile hfree (fun _ _ hloop => by cases hloop) _ h
  | succ links ih => exact fun h => walkFrom_addFile hfree (fun _ _ hnext => ih hnext) _ h

/-- What is created under a path is found there. -/
theorem fileAt_addFile (h : t.resolve true p = .ok (.entry d name none))
    (hslash : endsInSlash p = false) : (t.addFile d name).fileAt p = some t.next := by
  unfold resolve at h
  split at h
  · cases h
  rename_i hne
  split at h
  · cases h
  rename_i place hwalk
  have hplace : place = .entry d name none := by
    split at h
    · rw [hslash] at h
      exact Except.ok.inj h
    · rw [hslash] at h
      exact Except.ok.inj h
    · exact Except.ok.inj h
  rw [hplace] at hwalk
  have hcwd : (t.addFile d name).cwd = t.cwd := rfl
  have hresolve : (t.addFile d name).resolve true p =
      .ok (.entry d name (some (.file t.next))) := by
    unfold resolve
    rw [if_neg hne, hcwd, walk_addFile (walk_none hwalk) hwalk]
    simp [Place.node, hslash]
  unfold fileAt
  rw [hresolve]
  rfl

/-! ## Opening -/

theorem open_reading {opened : Opened} (h : t.open_ p reading = .ok (opened, t')) :
    t' = t ∧ ∀ k, opened = .file k ↔ t.fileAt p = some k := by
  unfold open_ reading at h
  unfold fileAt
  cases hplace : t.resolve true p with
  | error e => simp [hplace] at h
  | ok place =>
    cases place with
    | dir n =>
      obtain ⟨rfl, rfl⟩ : opened = .dir n ∧ t' = t := by
        simpa [hplace, Place.node, eq_comm] using h
      simp [Place.node]
    | entry d name node =>
      cases node with
      | none => simp [hplace] at h
      | some node =>
        cases node with
        | link target => simp [hplace, Place.node] at h
        | dir n =>
          obtain ⟨rfl, rfl⟩ : opened = .dir n ∧ t' = t := by
            simpa [hplace, Place.node, eq_comm] using h
          simp [Place.node]
        | file n =>
          obtain ⟨rfl, rfl⟩ : opened = .file n ∧ t' = t := by
            simpa [hplace, Place.node, eq_comm] using h
          simp [Place.node]

/-- A file that is rewritten is the one under the path, or a new one, and afterwards it is the one
    under the path. It is empty, and the other ones are as they were. -/
theorem open_rewriting {opened : Opened} (h : t.open_ p rewriting = .ok (opened, t')) :
    ∃ n, opened = .file n ∧ (t.fileAt p = some n ∨ t.fileAt p = none ∧ n = t.next) ∧
      t'.fileAt p = some n ∧ t'.contents n = [] ∧ ∀ m ≠ n, t'.contents m = t.contents m := by
  unfold open_ rewriting at h
  cases hplace : t.resolve true p with
  | error e => simp [hplace] at h
  | ok place =>
    cases place with
    | dir n => simp [hplace, Place.node] at h
    | entry d name node =>
      cases node with
      | none =>
        cases hslash : endsInSlash p with
        | true => simp [hplace, hslash] at h
        | false =>
          obtain ⟨rfl, rfl⟩ : opened = .file t.next ∧ t' = t.addFile d name := by
            simpa [hplace, hslash, eq_comm] using h
          have hnone : t.fileAt p = none := by simp [fileAt, hplace, Place.node]
          refine ⟨t.next, rfl, Or.inr ⟨hnone, rfl⟩, fileAt_addFile hplace hslash, ?_, ?_⟩
          · exact Function.update_self _ _ _
          · exact fun m hm => Function.update_of_ne hm _ _
      | some node =>
        cases node with
        | dir n => simp [hplace, Place.node] at h
        | link target => simp [hplace, Place.node] at h
        | file n =>
          obtain ⟨rfl, rfl⟩ : opened = .file n ∧ t' = t.setContents n [] := by
            simpa [hplace, Place.node, eq_comm] using h
          have hsome : t.fileAt p = some n := by simp [fileAt, hplace, Place.node]
          refine ⟨n, rfl, Or.inl hsome, (fileAt_setContents p).trans hsome, ?_, ?_⟩
          · exact contents_setContents_self t n []
          · exact fun m hm => contents_setContents_ne hm

end WinCompat.Lib.HostTree.Tree
