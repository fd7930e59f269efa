import Mathlib.Data.Set.Card
import WinCompat.Registry.History

/-!
# Which keys exist

The store has no tree in it, only full paths. A key exists from a call that names it, a
`RegSetValueExW` through its handle included, to one that deletes it or a key above it (`live`), and
nothing asks whether its parent does. So there are orphans from the start, the parents of the seeded
keys; `Flat` says what makes more of them, and what the calls do with the keys otherwise.
-/

namespace WinCompat.Reg

open Lib

/-! ## What a history says of a key -/

def live (hs : History) (k : Key) : Prop :=
  match hs with
  | [] => False
  | .opened _ k' :: hs => k = k' ∨ live hs k
  | .closed _ :: hs => live hs k
  | .stored k' _ _ :: hs => k = k' ∨ live hs k
  | .deleted k' :: hs => k ≠ k' ∧ live hs k
  | .deletedTree k' :: hs => ¬k'.Covers k ∧ live hs k

/-- `k'` is directly below `k`, under a name that is not empty. -/
def Key.Child (k k' : Key) : Prop :=
  k'.root = k.root ∧ ∃ n : Name, n.units ≠ [] ∧ k'.components = k.components ++ [n]

/-- `p` is the key that `k` is directly below. Roots have none above them. -/
def Key.Parent (p k : Key) : Prop :=
  p.root = k.root ∧ ∃ n : Name, k.components = p.components ++ [n]

/-- The key exists and the one above it does not. Roots need not be stored to exist. -/
def Orphan (hs : History) (k : Key) : Prop :=
  live hs k ∧ ∃ p : Key, p.Parent k ∧ p.components ≠ [] ∧ ¬live hs p

/-! ## What a call says of a key -/

/-- The key that a call opens, creates or writes to. -/
def named (hs : History) : Call → Option Key
  | .openKey h subkey | .openKeyEx h subkey _ _ | .createKeyEx h subkey _ _ _ _ =>
    (keyAt hs h).map fun k => k.sub subkey
  | .setValueEx h _ _ _ _ _ => keyAt hs h
  | _ => none

/-- The key that a `RegDeleteKeyW` deletes. -/
def deleted (hs : History) : Call → Option Key
  | .deleteKey h subkey => (keyAt hs h).map fun k => k.sub subkey
  | _ => none

/-- The key that a `RegDeleteTreeW` deletes from. -/
def deletedTree (hs : History) : Call → Option Key
  | .deleteTree h subkey => (keyAt hs h).map fun k => k.sub subkey
  | _ => none

/-- The call removes the key, be it there or not. -/
def Removes (hs : History) (c : Call) (k : Key) : Prop :=
  deleted hs c = some k ∨ ∃ base, deletedTree hs c = some base ∧ base.Covers k

/-- Some call of the list names the key. -/
def Run.Names (s : Run) (k : Key) : List Call → Prop
  | [] => False
  | c :: calls => named s.history c = some k ∨ (s.call c).Names k calls

/-- A flat store of keys, said of the history of calls: which keys there are, and what any next call
    does to them. A key's parent is asked for nowhere. -/
structure Flat (s : Run) : Prop where
  stored : ∀ path, path ∈ s.registry.keys ↔ ∃ k : Key, k.path = path ∧ live s.history k
  /-- What a call opens, creates or writes to exists. -/
  named : ∀ c k, named s.history c = some k → live (s.call c).history k
  /-- What a call removes is gone until a call names it. -/
  removed : ∀ c k calls, Removes s.history c k → ¬(s.call c).Names k calls →
    ¬live (calls.foldl Run.call (s.call c)).history k
  /-- An orphan is named while its parent is absent, or its parent is deleted on its own. -/
  orphaned : ∀ c k, Orphan (s.call c).history k → Orphan s.history k ∨
    (Reg.named s.history c = some k ∧ ∃ p : Key, p.Parent k ∧ ¬live s.history p) ∨
    ∃ p : Key, p.Parent k ∧ deleted s.history c = some p
  /-- `*lpcSubKeys` is the number of the keys directly below. -/
  subKeys : ∀ h k, keyAt s.history h = some k → ∃ info,
    s.registry.regQueryInfoKeyW h = { code := errorSuccess, info := some info } ∧
      info.subKeys = BitVec.ofNat 32 {k' | k.Child k' ∧ live s.history k'}.ncard
  /-- A call that fails changes nothing, unless it deletes below a key that is absent. -/
  failed : ∀ c, (s.registry.run c).1.code ≠ errorSuccess →
    (s.registry.run c).2 = s.registry ∨
      ∃ base k', deletedTree s.history c = some base ∧ ¬live s.history base ∧
        base.Covers k' ∧ live s.history k'

/-! ## Children -/

variable {k k' p : Key} {hs : History} {h : Handle} {r : Registry} {c : Call} {s : Run} {t : Text}

theorem Key.child_iff : k.Child k' ↔ ∃ t : Text, t ≠ [] ∧ '\\' ∉ t ∧ k'.path = k.path ++ '\\' :: t := by
  constructor
  · rintro ⟨hroot, n, hn, hcomponents⟩
    have hpieces : k'.pieces = k.pieces ++ [n.text] := by
      simp [Key.pieces, hroot, hcomponents]
    refine ⟨n.text, fun h => hn (Utf16.decodeLossy_eq_nil.mp h), ?_, ?_⟩
    · apply k'.clean_pieces
      simp [hpieces]
    · unfold Key.path
      rw [hpieces, Pieces.intercalate_append k.pieces_ne_nil (List.cons_ne_nil _ _),
        List.intercalate_singleton]
  · rintro ⟨t, ht, hclean, hpath⟩
    have hpieces : k'.pieces = k.pieces ++ [t] := by
      apply (Pieces.intercalate_inj k'.clean_pieces
        (k.clean_pieces.append (by simpa [Pieces.Clean] using hclean)) k'.pieces_ne_nil
        (by simp)).mp
      rw [Pieces.intercalate_append k.pieces_ne_nil (List.cons_ne_nil _ _),
        List.intercalate_singleton]
      exact hpath
    unfold Key.pieces at hpieces
    obtain ⟨hroot, hcomponents⟩ := List.cons.inj hpieces
    obtain ⟨ns, rest, hsplit, hns, hrest⟩ := List.map_eq_append_iff.mp hcomponents
    obtain ⟨n, rfl, rfl⟩ := List.map_eq_singleton_iff.mp hrest
    refine ⟨Root.name_injective hroot, n, fun h => ht (Utf16.decodeLossy_eq_nil.mpr h), ?_⟩
    rw [hsplit, List.map_injective_iff.mpr Name.text_injective hns]

/-- What the path of a child has after its parent's. -/
def Key.below (k k' : Key) : Text := k'.path.drop (k.path.length + 1)

theorem Key.below_eq (hpath : k'.path = k.path ++ '\\' :: t) : k.below k' = t := by
  unfold Key.below
  simp [hpath]

theorem Key.below_injOn : Set.InjOn k.below {k' | k.Child k'} := by
  intro k₁ h₁ k₂ h₂ h
  obtain ⟨t₁, -, -, hpath₁⟩ := Key.child_iff.mp h₁
  obtain ⟨t₂, -, -, hpath₂⟩ := Key.child_iff.mp h₂
  rw [Key.below_eq hpath₁, Key.below_eq hpath₂] at h
  rw [← Key.path_inj, hpath₁, hpath₂, h]

/-! ## What is stored is what is live -/

/-- The store has exactly the paths of the keys that the history says exist. -/
def Holds (r : Registry) (hs : History) : Prop :=
  ∀ path, path ∈ r.keys ↔ ∃ k : Key, k.path = path ∧ live hs k

theorem Holds.mem_iff (hr : Holds r hs) (k : Key) : k.path ∈ r.keys ↔ live hs k := by
  rw [hr]
  constructor
  · rintro ⟨k', hpath, hlive⟩
    rwa [← Key.path_inj.mp hpath]
  · intro hlive
    exact ⟨k, rfl, hlive⟩

theorem mem_orDefault {path path' : Text} :
    path' ∈ Keyed.orDefault {} path r.keys ↔ path' = path ∨ path' ∈ r.keys := by
  rw [← AList.lookup_isSome]
  by_cases h : path' = path
  · rw [h, Keyed.lookup_orDefault_self]
    simp
  · rw [Keyed.lookup_orDefault_ne h, AList.lookup_isSome]
    simp [h]

theorem mem_retain {f : Text → Bool} {keys : Keyed.Store Text RegKey} {path : Text} :
    path ∈ Keyed.retain f keys ↔ f path ∧ path ∈ keys := by
  rw [← AList.lookup_isSome, Keyed.lookup_retain, ← AList.lookup_isSome]
  cases f path with
  | false => simp
  | true => simp

variable {r' : Registry}

theorem Holds.add (hr : Holds r hs) {e : Event}
    (hmem : ∀ path, path ∈ r'.keys ↔ path = k.path ∨ path ∈ r.keys)
    (hlive : ∀ k', live (e :: hs) k' ↔ k' = k ∨ live hs k') : Holds r' (e :: hs) := by
  intro path
  rw [hmem, hr]
  constructor
  · rintro (rfl | ⟨k', rfl, hk'⟩)
    · exact ⟨k, rfl, (hlive k).mpr (Or.inl rfl)⟩
    · exact ⟨k', rfl, (hlive k').mpr (Or.inr hk')⟩
  · rintro ⟨k', rfl, hk'⟩
    rcases (hlive k').mp hk' with rfl | hk'
    · exact Or.inl rfl
    · exact Or.inr ⟨k', rfl, hk'⟩

theorem Holds.mint (hr : Holds r hs) (k : Key) (h : Handle) :
    Holds ({ r with keys := Keyed.orDefault {} k.path r.keys }.mint k.path).2 (.opened h k :: hs) :=
  hr.add (fun _ => mem_orDefault) (fun _ => Iff.rfl)

theorem Holds.putValue (hr : Holds r hs) {n : Name} {name : Text} {v : RegValue}
    {regType : BitVec 32} {data : List Bytes.Byte} :
    Holds (r.putValue k.path name regType data) (.stored k n v :: hs) :=
  hr.add (fun _ => AList.mem_insert _) (fun _ => Iff.rfl)

theorem Holds.erase (hr : Holds r hs) (k : Key) :
    Holds { r with keys := r.keys.erase k.path } (.deleted k :: hs) := by
  intro path
  have herase : path ∈ r.keys.erase k.path ↔ path ≠ k.path ∧ path ∈ r.keys := AList.mem_erase
  constructor
  · intro hmem
    obtain ⟨hne, hmem⟩ := herase.mp hmem
    obtain ⟨k', rfl, hlive⟩ := (hr path).mp hmem
    exact ⟨k', rfl, fun h => hne (congrArg Key.path h), hlive⟩
  · rintro ⟨k', rfl, hne, hlive⟩
    exact herase.mpr ⟨fun h => hne (Key.path_inj.mp h), (hr.mem_iff k').mpr hlive⟩

theorem mem_eraseTree :
    k'.path ∈ Keyed.retain (fun path => !(k.path ++ ['\\']).isPrefixOf path) (r.keys.erase k.path) ↔
      ¬k.Covers k' ∧ k'.path ∈ r.keys := by
  rw [mem_retain, AList.mem_erase, Key.covers_iff]
  simp only [Bool.not_eq_true', ← Bool.not_eq_true, List.isPrefixOf_iff_prefix]
  tauto

theorem Holds.eraseTree (hr : Holds r hs) (k : Key) :
    Holds { r with
      keys := Keyed.retain (fun path => !(k.path ++ ['\\']).isPrefixOf path) (r.keys.erase k.path) }
      (.deletedTree k :: hs) := by
  intro path
  constructor
  · intro hmem
    obtain ⟨k', rfl, -⟩ := (hr path).mp (AList.mem_erase.mp (mem_retain.mp hmem).2).2
    obtain ⟨hcovers, hmem⟩ := mem_eraseTree.mp hmem
    exact ⟨k', rfl, hcovers, (hr.mem_iff k').mp hmem⟩
  · rintro ⟨k', rfl, hcovers, hlive⟩
    exact mem_eraseTree.mpr ⟨hcovers, (hr.mem_iff k').mpr hlive⟩

theorem Holds.close (hl : Holds r hs) (h : Handle) :
    Holds (r.regCloseKey h).2 (.closed h :: hs) := by
  unfold Registry.regCloseKey
  split
  · exact hl
  · exact hl

theorem Holds.of_did {e : Option Event} {code : BitVec 32} (hl : Holds r hs) (h : Did r e code r') :
    Holds r' (e.toList ++ hs) := by
  cases h with
  | nothing => exact hl
  | closed h => exact hl.close h
  | opened k => exact hl.mint k _
  | stored k n regType hfits => exact hl.putValue
  | deleted k => exact hl.erase k
  | deletedTree k => exact hl.eraseTree k

theorem Holds.call (hr : Refines s.registry s.history) (hl : Holds s.registry s.history) (c : Call) :
    Holds (s.call c).registry (s.call c).history :=
  hl.of_did (hr.did c)

theorem Holds.seed (hl : Holds r hs) {l : List Seed} (hpaths : ∀ s ∈ l, s.key.path = s.path) :
    Holds (l.foldl (fun r s => r.putValue s.path s.name s.regType s.data) r)
      ((l.map Seed.event).reverse ++ hs) := by
  induction l generalizing r hs with
  | nil => exact hl
  | cons s l ih =>
    have hput : Holds (r.putValue s.key.path s.name s.regType s.data) (s.event :: hs) := hl.putValue
    rw [hpaths s List.mem_cons_self] at hput
    rw [List.foldl_cons, List.map_cons, List.reverse_cons, List.append_assoc, List.singleton_append]
    exact ih hput fun s' hs' => hpaths s' (List.mem_cons_of_mem s hs')

theorem holds_seeded : Holds seeded (seeds.map Seed.event).reverse := by
  have hnew : Holds .new [] := by
    intro path
    constructor
    · intro h
      cases h
    · rintro ⟨_, -, h⟩
      exact h.elim
  have hseed := hnew.seed fun s hs => (seeds_paths s hs).1
  rwa [List.append_nil] at hseed

theorem reachable_holds (h : runs.Reachable s) :
    Refines s.registry s.history ∧ Holds s.registry s.history := by
  apply h.invariant
  · intro s hs
    rw [hs]
    exact ⟨refines_seeded, holds_seeded⟩
  · intro s c s' hs hn
    cases hn
    exact ⟨hs.1.call c, hs.2.call hs.1 c⟩

/-! ## What one call does to the keys -/

section

attribute [local simp] Run.call event named Removes deleted deletedTree live

theorem live_call (hr : Refines s.registry s.history) (c : Call) (k : Key) :
    live (s.call c).history k ↔
      named s.history c = some k ∨ live s.history k ∧ ¬Removes s.history c k := by
  cases c with
  | closeKey | stub | queryValueEx | queryInfoKey => simp
  | setValueEx h | deleteKey h | deleteTree h =>
    cases hk : keyAt s.history h with
    | none => simp [hk]
    | some k' => simp [hk, eq_comm, and_comm]
  | openKey h subkey =>
    cases hk : keyAt s.history h with
    | none => simp [hk]
    | some k' =>
      have hbuild := hr.buildPath_of_keyAt hk subkey
      simp [Registry.run, Registry.regOpenKeyW_eq hbuild, hk, eq_comm]
  | openKeyEx h subkey =>
    cases hk : keyAt s.history h with
    | none => simp [hk]
    | some k' =>
      have hbuild := hr.buildPath_of_keyAt hk subkey
      simp [Registry.run, Registry.regOpenKeyExW, Registry.regOpenKeyW_eq hbuild, hk, eq_comm]
  | createKeyEx h subkey =>
    cases hk : keyAt s.history h with
    | none => simp [hk]
    | some k' =>
      have hbuild := hr.buildPath_of_keyAt hk subkey
      simp [Registry.run, Registry.regCreateKeyExW_eq hbuild, hk, eq_comm]

theorem deletedTree_of_event {c : Call} {reply : Reply}
    (h : Reg.event hs c reply = some (.deletedTree k)) : Reg.deletedTree hs c = some k := by
  cases c with
  | deleteTree h' subkey => cases hk : keyAt hs h' <;> simp_all
  | openKey h' | openKeyEx h' | createKeyEx h' =>
    cases hk : keyAt hs h' <;> cases hh : reply.handle <;> simp_all
  | setValueEx h' | deleteKey h' => cases hk : keyAt hs h' <;> simp_all
  | _ => simp at h

end

theorem not_removes_of_named (hnamed : named s.history c = some k) (k' : Key) :
    ¬Removes s.history c k' := by
  cases c with
  | deleteKey h subkey => cases hnamed
  | deleteTree h subkey => cases hnamed
  | _ => simp [Removes, deleted, deletedTree]

theorem Key.Parent.covers (hp : p.Parent k) : p.Covers k := by
  obtain ⟨hroot, n, hcomponents⟩ := hp
  exact ⟨hroot, [n], hcomponents.symm⟩

theorem Key.Covers.trans {k₁ k₂ k₃ : Key} (h : k₁.Covers k₂) (h' : k₂.Covers k₃) : k₁.Covers k₃ :=
  ⟨h.1.trans h'.1, h.2.trans h'.2⟩

theorem orphan_call (hr : Refines s.registry s.history) (h : Orphan (s.call c).history k) :
    Orphan s.history k ∨ (named s.history c = some k ∧ ∃ p : Key, p.Parent k ∧ ¬live s.history p) ∨
      ∃ p : Key, p.Parent k ∧ deleted s.history c = some p := by
  obtain ⟨hlive, p, hp, hroot, hdead⟩ := h
  rw [live_call hr, not_or] at hdead
  obtain ⟨-, hdead⟩ := hdead
  rcases (live_call hr c k).mp hlive with hnamed | ⟨hlive, hkept⟩
  · have hparent : ¬live s.history p := fun h => hdead ⟨h, not_removes_of_named hnamed p⟩
    exact Or.inr (Or.inl ⟨hnamed, p, hp, hparent⟩)
  · by_cases hparent : live s.history p
    · have hremoved : Removes s.history c p := not_not.mp fun h => hdead ⟨hparent, h⟩
      rcases hremoved with hdeleted | ⟨base, htree, hcovers⟩
      · exact Or.inr (Or.inr ⟨p, hp, hdeleted⟩)
      · -- what covers the parent covers the child, so the child would be gone as well
        exact absurd (Or.inr ⟨base, htree, hcovers.trans hp.covers⟩) hkept
    · exact Or.inl ⟨hlive, p, hp, hroot, hparent⟩

theorem not_live_foldl (hr : Refines s.registry s.history) (hdead : ¬live s.history k)
    {calls : List Call} (hnames : ¬s.Names k calls) :
    ¬live (calls.foldl Run.call s).history k := by
  induction calls generalizing s with
  | nil => exact hdead
  | cons c calls ih =>
    unfold Run.Names at hnames
    rw [not_or] at hnames
    rw [List.foldl_cons]
    apply ih (hr.call c) _ hnames.2
    rw [live_call hr, not_or]
    exact ⟨hnames.1, fun h => hdead h.1⟩

/-! ## Counting the keys below one -/

theorem mem_subkeyNames {path : Text} :
    t ∈ r.subkeyNames path ↔ path ++ '\\' :: t ∈ r.keys ∧ t ≠ [] ∧ '\\' ∉ t := by
  unfold Registry.subkeyNames
  rw [List.mem_filter, decide_eq_true_iff, List.mem_filterMap]
  simp [AList.mem_keys]

theorem nodup_subkeyNames (path : Text) : (r.subkeyNames path).Nodup := by
  apply List.Nodup.filter
  apply List.Nodup.filterMap _ r.keys.keys_nodup
  intro path₁ path₂ rest h₁ h₂
  rw [Option.mem_def, List.isPrefixOf?_eq_some_iff_append_eq] at h₁ h₂
  exact h₁.symm.trans h₂

theorem Holds.length_subkeyNames (hl : Holds r hs) (k : Key) :
    (r.subkeyNames k.path).length = {k' | k.Child k' ∧ live hs k'}.ncard := by
  have himage : k.below '' {k' | k.Child k' ∧ live hs k'} = ↑(r.subkeyNames k.path).toFinset := by
    ext t
    rw [Finset.mem_coe, List.mem_toFinset, mem_subkeyNames]
    constructor
    · rintro ⟨k', ⟨hchild, hlive⟩, rfl⟩
      obtain ⟨t, ht, hclean, hpath⟩ := Key.child_iff.mp hchild
      rw [Key.below_eq hpath, ← hpath]
      exact ⟨(hl.mem_iff k').mpr hlive, ht, hclean⟩
    · rintro ⟨hmem, ht, hclean⟩
      obtain ⟨k', hpath, hlive⟩ := (hl _).mp hmem
      exact ⟨k', ⟨Key.child_iff.mpr ⟨t, ht, hclean, hpath⟩, hlive⟩, Key.below_eq hpath⟩
  have hinj : Set.InjOn k.below {k' | k.Child k' ∧ live hs k'} :=
    Key.below_injOn.mono fun k' h => h.1
  rw [← hinj.ncard_image, himage, Set.ncard_coe_finset,
    List.toFinset_card_of_nodup (nodup_subkeyNames k.path)]

theorem Holds.subKeys (hr : Refines r hs) (hl : Holds r hs) (hk : keyAt hs h = some k) :
    ∃ info, r.regQueryInfoKeyW h = { code := errorSuccess, info := some info } ∧
      info.subKeys = BitVec.ofNat 32 {k' | k.Child k' ∧ live hs k'}.ncard := by
  have hresolve := hr.resolvePath_of_keyAt hk
  unfold Registry.regQueryInfoKeyW
  rw [hresolve]
  exact ⟨_, rfl, congrArg (BitVec.ofNat 32) (hl.length_subkeyNames k)⟩

/-! ## Calls that fail -/

theorem erase_absent {path : Text} (h : path ∉ r.keys) : r.keys.erase path = r.keys :=
  AList.ext (List.kerase_of_notMem_keys h)

theorem eraseTree_absent (hl : Holds r hs) (hcovers : ∀ k', k.Covers k' → ¬live hs k') :
    Keyed.retain (fun path => !(k.path ++ ['\\']).isPrefixOf path) (r.keys.erase k.path) = r.keys := by
  have habsent : k.path ∉ r.keys := fun h =>
    hcovers k (Key.covers_iff.mpr (Or.inl rfl)) ((hl.mem_iff k).mp h)
  rw [erase_absent habsent]
  apply AList.ext
  apply List.filter_eq_self.mpr
  intro e he
  obtain ⟨k', hpath, hlive⟩ := (hl e.1).mp (List.mem_keys_of_mem he)
  rw [Bool.not_eq_true', ← Bool.not_eq_true, List.isPrefixOf_iff_prefix, ← hpath]
  exact fun h => hcovers k' (Key.covers_iff.mpr (Or.inr h)) hlive

theorem Holds.failed_did {e : Option Event} {code : BitVec 32} (hl : Holds r hs)
    (h : Did r e code r') (hcode : code ≠ errorSuccess) :
    r' = r ∨ ∃ base k', e = some (.deletedTree base) ∧ ¬live hs base ∧
      base.Covers k' ∧ live hs k' := by
  cases h with
  | nothing => exact Or.inl rfl
  | closed | opened | stored => exact absurd rfl hcode
  | deleted k =>
    have habsent : k.path ∉ r.keys := fun h => hcode (if_pos h)
    rw [erase_absent habsent]
    exact Or.inl rfl
  | deletedTree k =>
    have habsent : k.path ∉ r.keys := fun h => hcode (if_pos h)
    by_cases hbelow : ∃ k', k.Covers k' ∧ live hs k'
    · obtain ⟨k', hcovers, hlive⟩ := hbelow
      exact Or.inr ⟨k, k', rfl, fun h => habsent ((hl.mem_iff k).mpr h), hcovers, hlive⟩
    · rw [eraseTree_absent hl fun k' hcovers hlive => hbelow ⟨k', hcovers, hlive⟩]
      exact Or.inl rfl

theorem Holds.failed (hr : Refines r hs) (hl : Holds r hs) (hcode : (r.run c).1.code ≠ errorSuccess) :
    (r.run c).2 = r ∨ ∃ base k', deletedTree hs c = some base ∧ ¬live hs base ∧
      base.Covers k' ∧ live hs k' := by
  rcases hl.failed_did (hr.did c) hcode with hsame | ⟨base, k', hevent, hrest⟩
  · exact Or.inl hsame
  · exact Or.inr ⟨base, k', deletedTree_of_event hevent, hrest⟩

/-! ## Every run -/

/-- In every run the registry is a flat store of the keys that calls have named: a key lives from
    the call that names it to one that deletes it or a key above it, and its parent has no say. -/
theorem registry_flat (h : runs.Reachable s) : Flat s := by
  obtain ⟨hr, hl⟩ := reachable_holds h
  constructor
  · exact hl
  · intro c k hnamed
    exact (live_call hr c k).mpr (Or.inl hnamed)
  · intro c k calls hremoves
    apply not_live_foldl (hr.call c)
    rw [live_call hr, not_or]
    exact ⟨fun hnamed => not_removes_of_named hnamed k hremoves, fun h => h.2 hremoves⟩
  · intro c k
    exact orphan_call hr
  · intro h k
    exact hl.subKeys hr
  · intro c
    exact hl.failed hr

/-- `A` below `HKEY_CURRENT_USER`, created and deleted while a handle is on it. -/
def staleHandle : List Call :=
  [.createKeyEx Root.currentUser.hkey (some [0x41]) 0 none 0 0,
    .deleteKey Root.currentUser.hkey (some [0x41])]

def atStart : Run := ⟨seeded, (seeds.map Seed.event).reverse⟩

theorem registry_flat_staleHandle :
    ¬live ([Call.queryInfoKey 0x0002000000000001].foldl Run.call
      ((staleHandle.foldl Run.call atStart).call (.deleteTree Root.currentUser.hkey none))).history
        (Key.ofRoot .currentUser) :=
  (registry_flat (Machine.reachable_of_exec (l := staleHandle) rfl rfl)).removed
    (.deleteTree Root.currentUser.hkey none) (.ofRoot .currentUser)
    [.queryInfoKey 0x0002000000000001]
    (Or.inr ⟨.ofRoot .currentUser, by decide, by decide⟩) (by
      simp [Run.Names, named])

/-- The registry starts with orphans, a stale handle and an open bring back what was deleted, and a
    tree deletion that finds no key deletes what is below. -/
theorem not_a_tree :
    ("HKLM\\HARDWARE\\DESCRIPTION\\System\\BIOS".toList ∈ seeded.keys ∧
      "HKLM\\HARDWARE".toList ∉ seeded.keys) ∧
    ("HKCU\\A".toList ∉ (staleHandle.foldl Run.call atStart).registry.keys ∧
      "HKCU\\A".toList ∈ ((staleHandle.foldl Run.call atStart).call
        (.setValueEx 0x0002000000000001 none 0 3 none 0)).registry.keys ∧
      "HKCU\\A".toList ∈ ((staleHandle.foldl Run.call atStart).call
        (.openKey Root.currentUser.hkey (some [0x41]))).registry.keys) ∧
    ((seeded.regDeleteTreeW Root.localMachine.hkey none).1.code = errorFileNotFound ∧
      "HKLM\\HARDWARE\\DESCRIPTION\\System\\BIOS".toList ∉
        (seeded.regDeleteTreeW Root.localMachine.hkey none).2.keys) := by
  decide

end WinCompat.Reg
