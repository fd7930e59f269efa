import WinCompat.Lib.Pieces
import WinCompat.Registry.Model

/-!
# Respelling names

The store compares paths and value names as they are spelled. What does not matter is which spelling
a guest uses for a name, as long as it uses the same one in every call, different ones for different
names, and for the seeded names the one they are seeded with: a `Respelling` carries a run to one that
returns and writes the same (`replies_respelled`). The store of the one run is the other's with every
path and value name replaced, and each function commutes with that.
-/

namespace WinCompat.Reg

open Lib

/-- Two texts that differ in nothing but ASCII letter case. -/
def SameLetters (t t' : Text) : Prop := t.map Char.toLower = t'.map Char.toLower

/-- Another spelling for each path component and each value name. -/
structure Respelling where
  component : Text → Text
  value : Text → Text
  component_injective : Function.Injective component
  value_injective : Function.Injective value
  component_letters : ∀ t, SameLetters (component t) t
  value_letters : ∀ t, SameLetters (value t) t
  component_seeds : ∀ s ∈ seeds, ∀ t ∈ (s.path.splitOn '\\').tail, component t = t
  value_seeds : ∀ s ∈ seeds, value s.name = s.name

namespace Respelling

/-- A subkey path, component by component. -/
def subkey (f : Respelling) (t : Text) : Text := ['\\'].intercalate ((t.splitOn '\\').map f.component)

/-- A full path. Its first component is a root. -/
def path (f : Respelling) (t : Text) : Text :=
  match t.splitOn '\\' with
  | [] => []
  | root :: components => ['\\'].intercalate (root :: components.map f.component)

end Respelling

/-- The calls of two runs that name everything the same but for the spelling. -/
inductive Respelled (f : Respelling) : Call → Call → Prop
  | openKey {h : Handle} {p p' : WStr} (hp : utf16ToString p' = f.subkey (utf16ToString p)) :
      Respelled f (.openKey h p) (.openKey h p')
  | openKeyEx {h : Handle} {p p' : WStr} {reserved access : BitVec 32}
      (hp : utf16ToString p' = f.subkey (utf16ToString p)) :
      Respelled f (.openKeyEx h p reserved access) (.openKeyEx h p' reserved access)
  | createKeyEx {h : Handle} {p p' className : WStr} {reserved options access : BitVec 32}
      (hp : utf16ToString p' = f.subkey (utf16ToString p)) :
      Respelled f (.createKeyEx h p reserved className options access)
        (.createKeyEx h p' reserved className options access)
  | closeKey {h : Handle} : Respelled f (.closeKey h) (.closeKey h)
  | queryValueEx {h : Handle} {n n' : WStr} {buffer : Buffer}
      (hn : utf16ToString n' = f.value (utf16ToString n)) :
      Respelled f (.queryValueEx h n buffer) (.queryValueEx h n' buffer)
  | setValueEx {h : Handle} {n n' : WStr} {reserved regType cbData : BitVec 32}
      {data : Option (Nat → Bytes.Byte)} (hn : utf16ToString n' = f.value (utf16ToString n)) :
      Respelled f (.setValueEx h n reserved regType data cbData)
        (.setValueEx h n' reserved regType data cbData)
  | deleteKey {h : Handle} {p p' : WStr} (hp : utf16ToString p' = f.subkey (utf16ToString p)) :
      Respelled f (.deleteKey h p) (.deleteKey h p')
  | queryInfoKey {h : Handle} : Respelled f (.queryInfoKey h) (.queryInfoKey h)
  | deleteTree {h : Handle} {p p' : WStr} (hp : utf16ToString p' = f.subkey (utf16ToString p)) :
      Respelled f (.deleteTree h p) (.deleteTree h p')
  | stub {fn : Stub} {h : Handle} {n n' : WStr} : Respelled f (.stub fn h n) (.stub fn h n')

/-! ## What letter case does not change -/

variable {t t' : Text}

theorem toLower_cases (c : Char) :
    c.toLower = c ∨ 65 ≤ c.toNat ∧ c.toNat ≤ 90 ∧ c.toLower.toNat = c.toNat + 32 := by
  unfold Char.toLower
  by_cases h : c.val ≥ 'A'.val ∧ c.val ≤ 'Z'.val
  · right
    rw [dif_pos h]
    have hlow : 65 ≤ c.toNat := h.1
    have hhigh : c.toNat ≤ 90 := h.2
    refine ⟨hlow, hhigh, ?_⟩
    change (c.val + ('a'.val - 'A'.val)).toNat = _
    rw [UInt32.toNat_add]
    exact Nat.mod_eq_of_lt (Nat.lt_of_le_of_lt (Nat.add_le_add_right hhigh 32) (by decide))
  · left
    rw [dif_neg h]

theorem toLower_eq_separator {c : Char} : c.toLower = '\\' ↔ c = '\\' := by
  rcases toLower_cases c with h | ⟨hlow, hhigh, hlower⟩
  · rw [h]
  · constructor
    · intro h
      rw [h] at hlower
      change 92 = c.toNat + 32 at hlower
      omega
    · rintro rfl
      exact absurd hhigh (by decide)

theorem SameLetters.separator (h : SameLetters t t') : '\\' ∈ t ↔ '\\' ∈ t' := by
  have hmem : ∀ t : Text, '\\' ∈ t ↔ '\\' ∈ t.map Char.toLower := by
    intro t
    simp [toLower_eq_separator]
  rw [hmem t, hmem t', show t.map Char.toLower = t'.map Char.toLower from h]

theorem SameLetters.length (h : SameLetters t t') : t.length = t'.length := by
  have hlength := congrArg List.length h
  rwa [List.length_map, List.length_map] at hlength

theorem length_encodeChar_toLower (c : Char) :
    (Utf16.encodeChar c.toLower).length = (Utf16.encodeChar c).length := by
  rcases toLower_cases c with h | ⟨-, hhigh, hlower⟩
  · rw [h]
  · have hunit : ∀ d : Char, d.toNat < 0x10000 → (Utf16.encodeChar d).length = 1 := by
      intro d hd
      rw [Utf16.encodeChar, if_pos hd]
      rfl
    rw [hunit c (by omega), hunit c.toLower (by omega)]

/-- `RegQueryInfoKeyW` counts UTF-16 units, and lowering an ASCII letter changes none of the
    counts. -/
theorem length_encode_toLower (t : Text) :
    (Utf16.encode (t.map Char.toLower)).length = (Utf16.encode t).length := by
  induction t with
  | nil => rfl
  | cons c t ih =>
    rw [List.map_cons, Utf16.encode_cons, Utf16.encode_cons, List.length_append, List.length_append,
      length_encodeChar_toLower, ih]

theorem SameLetters.length_encode (h : SameLetters t t') :
    (Utf16.encode t).length = (Utf16.encode t').length := by
  rw [← length_encode_toLower t, ← length_encode_toLower t',
    show t.map Char.toLower = t'.map Char.toLower from h]

/-! ## Paths -/

namespace Respelling

variable (f : Respelling)

/-- A component of a path never holds the separator, and respelling brings none in. -/
theorem component_clean {ls : List Text} (h : Pieces.Clean '\\' ls) :
    Pieces.Clean '\\' (ls.map f.component) := by
  intro l hl hsep
  obtain ⟨l, hmem, rfl⟩ := List.mem_map.mp hl
  exact h l hmem ((f.component_letters l).separator.mp hsep)

theorem component_eq_nil : f.component t = [] ↔ t = [] := by
  rw [← List.length_eq_zero_iff, (f.component_letters t).length, List.length_eq_zero_iff]

theorem splitOn_subkey (t : Text) :
    (f.subkey t).splitOn '\\' = (t.splitOn '\\').map f.component := by
  apply List.splitOn_intercalate '\\' (f.component_clean (Pieces.clean_splitOn t))
  simp

theorem subkey_injective : Function.Injective f.subkey := by
  intro t t' h
  have hsplit : (t.splitOn '\\').map f.component = (t'.splitOn '\\').map f.component := by
    rw [← f.splitOn_subkey, h, f.splitOn_subkey]
  exact Pieces.splitOn_inj (List.map_injective_iff.mpr f.component_injective hsplit)

theorem subkey_of_notMem (h : '\\' ∉ t) : f.subkey t = f.component t := by
  unfold subkey
  rw [List.splitOn_eq_singleton h]
  exact List.intercalate_singleton

theorem subkey_eq_nil : f.subkey t = [] ↔ t = [] := by
  have hnil : f.subkey [] = [] := by
    rw [f.subkey_of_notMem List.not_mem_nil, f.component_eq_nil]
  rw [← hnil, f.subkey_injective.eq_iff, hnil]

theorem subkey_append (t u : Text) : f.subkey (t ++ '\\' :: u) = f.subkey t ++ '\\' :: f.subkey u := by
  unfold subkey
  rw [List.splitOn_append_cons_self, List.map_append]
  exact Pieces.intercalate_append (by simp) (by simp)

theorem separator_mem_subkey : '\\' ∈ f.subkey t ↔ '\\' ∈ t := by
  by_cases h : '\\' ∈ t
  · obtain ⟨a, b, rfl⟩ := List.append_of_mem h
    rw [f.subkey_append]
    simp
  · rw [f.subkey_of_notMem h, (f.component_letters t).separator]

/-- A path is its root and what is below. -/
theorem path_of_splitOn {root : Text} {components : List Text}
    (h : t.splitOn '\\' = root :: components) :
    f.path t = ['\\'].intercalate (root :: components.map f.component) := by
  unfold path
  rw [h]

theorem splitOn_path {root : Text} {components : List Text}
    (h : t.splitOn '\\' = root :: components) :
    (f.path t).splitOn '\\' = root :: components.map f.component := by
  have hclean : Pieces.Clean '\\' (root :: components) := h ▸ Pieces.clean_splitOn t
  rw [f.path_of_splitOn h]
  apply List.splitOn_intercalate '\\' _ (List.cons_ne_nil _ _)
  intro l hl
  rcases List.mem_cons.mp hl with rfl | hl
  · exact hclean l List.mem_cons_self
  · exact f.component_clean (fun l hl => hclean l (List.mem_cons_of_mem root hl)) l hl

theorem exists_splitOn (t : Text) : ∃ root components, t.splitOn '\\' = root :: components :=
  List.exists_cons_of_ne_nil (List.splitOn_ne_nil '\\' t)

/-- Two keys do not become one, and this is why respelling commutes with lookup and insertion. -/
theorem path_injective : Function.Injective f.path := by
  intro t t' h
  obtain ⟨root, components, ht⟩ := exists_splitOn t
  obtain ⟨root', components', ht'⟩ := exists_splitOn t'
  have hsplit : root :: components.map f.component = root' :: components'.map f.component := by
    rw [← f.splitOn_path ht, h, f.splitOn_path ht']
  obtain ⟨hroot, hcomponents⟩ := List.cons.inj hsplit
  apply Pieces.splitOn_inj
  rw [ht, ht', hroot, List.map_injective_iff.mpr f.component_injective hcomponents]

theorem path_root (root : Root) : f.path root.name = root.name := by
  have hclean : '\\' ∉ root.name := by cases root <;> decide
  rw [f.path_of_splitOn (List.splitOn_eq_singleton hclean)]
  exact List.intercalate_singleton

theorem path_append (t u : Text) : f.path (t ++ '\\' :: u) = f.path t ++ '\\' :: f.subkey u := by
  obtain ⟨root, components, ht⟩ := exists_splitOn t
  have hsplit : (t ++ '\\' :: u).splitOn '\\' = root :: (components ++ u.splitOn '\\') := by
    rw [List.splitOn_append_cons_self, ht, List.cons_append]
  rw [f.path_of_splitOn hsplit, f.path_of_splitOn ht, List.map_append, ← List.cons_append,
    Pieces.intercalate_append (List.cons_ne_nil _ _) (by simp)]
  rfl

theorem path_eq_append {u rest : Text} (h : f.path u = f.path t ++ '\\' :: rest) :
    ∃ rest', u = t ++ '\\' :: rest' ∧ rest = f.subkey rest' := by
  obtain ⟨root, components, ht⟩ := exists_splitOn t
  obtain ⟨root', components', hu⟩ := exists_splitOn u
  have hsplit : root' :: components'.map f.component =
      root :: components.map f.component ++ rest.splitOn '\\' := by
    rw [← f.splitOn_path hu, h, List.splitOn_append_cons_self, f.splitOn_path ht]
  obtain ⟨hroot, hcomponents⟩ := List.cons.inj hsplit
  obtain ⟨ks, ls, hsum, hks, hls⟩ := List.map_eq_append_iff.mp hcomponents
  have hks := List.map_injective_iff.mpr f.component_injective hks
  have hls' : ls ≠ [] := by
    rintro rfl
    exact List.splitOn_ne_nil '\\' rest hls.symm
  refine ⟨['\\'].intercalate ls, ?_, ?_⟩
  · have hjoined : ['\\'].intercalate (u.splitOn '\\') = u := List.intercalate_splitOn '\\'
    rw [← hjoined, hu, hsum, hroot, hks, ← List.cons_append, ← ht,
      Pieces.intercalate_append (List.splitOn_ne_nil '\\' t) hls', List.intercalate_splitOn]
  · have hclean : Pieces.Clean '\\' ls := by
      intro l hl
      apply Pieces.clean_splitOn u l
      rw [hu, hsum]
      exact List.mem_cons_of_mem root' (List.mem_append_right ks hl)
    unfold subkey
    rw [List.splitOn_intercalate '\\' hclean hls', hls, List.intercalate_splitOn]

theorem isPrefixOf?_path (t u : Text) :
    (f.path t ++ ['\\']).isPrefixOf? (f.path u) = ((t ++ ['\\']).isPrefixOf? u).map f.subkey := by
  apply Option.ext
  intro rest
  simp only [Option.map_eq_some_iff, List.isPrefixOf?_eq_some_iff_append_eq, List.append_assoc,
    List.singleton_append]
  constructor
  · intro h
    obtain ⟨rest', hu, hrest⟩ := f.path_eq_append h.symm
    exact ⟨rest', hu.symm, hrest.symm⟩
  · rintro ⟨rest', hu, hrest⟩
    rw [← hu, f.path_append, hrest]

/-! ## Stores -/

def key (k : RegKey) : RegKey := ⟨Keyed.rename f.value f.value_injective id k.values⟩

/-- The store that the respelled calls act on. Only paths and value names change. -/
def registry (r : Registry) : Registry where
  keys := Keyed.rename f.path f.path_injective f.key r.keys
  handles h := (r.handles h).map f.path
  next := r.next

variable {f} {r : Registry} {h : Handle} {path name : Text}

theorem resolvePath_registry : (f.registry r).resolvePath h = (r.resolvePath h).map f.path := by
  unfold Registry.resolvePath rootName
  cases root? h with
  | none => rfl
  | some root => exact congrArg some (f.path_root root).symm

theorem buildPath_registry {p p' : WStr} (hp : utf16ToString p' = f.subkey (utf16ToString p)) :
    (f.registry r).buildPath h p' = (r.buildPath h p).map f.path := by
  unfold Registry.buildPath
  rw [resolvePath_registry, Option.map_map, Option.map_map]
  congr 1
  funext path
  simp only [Function.comp_apply, hp, f.subkey_eq_nil]
  by_cases hnil : utf16ToString p = []
  · rw [if_pos hnil, if_pos hnil]
  · rw [if_neg hnil, if_neg hnil, f.path_append]

theorem mem_registry : f.path path ∈ (f.registry r).keys ↔ path ∈ r.keys :=
  Keyed.mem_rename f.path_injective

theorem registry_mint : f.registry ({ r with keys := Keyed.orDefault {} path r.keys }.mint path).2 =
    ({ f.registry r with
      keys := Keyed.orDefault {} (f.path path) (f.registry r).keys }.mint (f.path path)).2 := by
  have hkeys : Keyed.rename f.path f.path_injective f.key (Keyed.orDefault {} path r.keys) =
      Keyed.orDefault {} (f.path path) (f.registry r).keys :=
    Keyed.rename_orDefault f.path_injective
  have hhandles : (fun h => (Function.update r.handles r.next (some path) h).map f.path) =
      Function.update (f.registry r).handles r.next (some (f.path path)) := by
    funext h
    by_cases hh : h = r.next
    · rw [hh, Function.update_self, Function.update_self]
      rfl
    · rw [Function.update_of_ne hh, Function.update_of_ne hh]
      rfl
  unfold registry Registry.mint
  simp only [hkeys, hhandles]
  rfl

theorem registry_putValue {regType : BitVec 32} {data : List Bytes.Byte} :
    f.registry (r.putValue path name regType data) =
      (f.registry r).putValue (f.path path) (f.value name) regType data := by
  have hlookup : ((f.registry r).keys.lookup (f.path path)).getD {} =
      f.key ((r.keys.lookup path).getD {}) := by
    rw [show (f.registry r).keys.lookup (f.path path) = (r.keys.lookup path).map f.key from
      Keyed.lookup_rename f.path_injective]
    cases r.keys.lookup path with
    | none => rfl
    | some k => rfl
  have hvalues : ∀ k : RegKey, (f.key k).values.insert (f.value name) ⟨regType, data⟩ =
      (f.key ⟨k.values.insert name ⟨regType, data⟩⟩).values := by
    intro k
    exact (Keyed.rename_insert (g := id) f.value_injective).symm
  unfold Registry.putValue
  simp only [hlookup, hvalues]
  unfold registry
  rw [Keyed.rename_insert f.path_injective]

theorem subkeyNames_registry :
    (f.registry r).subkeyNames (f.path path) = (r.subkeyNames path).map f.subkey := by
  unfold Registry.subkeyNames
  have hkeys : (f.registry r).keys.keys = r.keys.keys.map f.path :=
    Keyed.keys_rename f.path_injective
  rw [hkeys, List.filterMap_map]
  have hrest : (fun keyPath => (f.path path ++ ['\\']).isPrefixOf? keyPath) ∘ f.path =
      fun keyPath => ((path ++ ['\\']).isPrefixOf? keyPath).map f.subkey := by
    funext keyPath
    exact f.isPrefixOf?_path path keyPath
  rw [hrest, ← List.map_filterMap, List.filter_map]
  congr 1
  apply congrArg (fun q => List.filter q _)
  funext rest
  simp only [Function.comp_apply, ne_eq, f.subkey_eq_nil, f.separator_mem_subkey]

theorem maxChars_subkeyNames :
    maxChars ((f.registry r).subkeyNames (f.path path)) = maxChars (r.subkeyNames path) := by
  rw [subkeyNames_registry]
  unfold maxChars
  rw [List.map_map]
  congr 1
  apply List.map_congr_left
  intro rest hrest
  have hclean := (of_decide_eq_true (List.mem_filter.mp hrest).2).2
  rw [Function.comp_apply, f.subkey_of_notMem hclean]
  exact (f.component_letters rest).length_encode

theorem valueNames_registry :
    (f.registry r).valueNames (f.path path) = (r.valueNames path).map f.value := by
  unfold Registry.valueNames
  rw [show (f.registry r).keys.lookup (f.path path) = (r.keys.lookup path).map f.key from
    Keyed.lookup_rename f.path_injective]
  cases r.keys.lookup path with
  | none => rfl
  | some k => exact Keyed.keys_rename f.value_injective

theorem maxChars_valueNames :
    maxChars ((f.registry r).valueNames (f.path path)) = maxChars (r.valueNames path) := by
  rw [valueNames_registry]
  unfold maxChars
  rw [List.map_map]
  congr 1
  apply List.map_congr_left
  intro name _
  exact (f.value_letters name).length_encode

theorem registry_erase : f.registry { r with keys := r.keys.erase path } =
    { f.registry r with keys := (f.registry r).keys.erase (f.path path) } := by
  unfold registry
  rw [Keyed.rename_erase f.path_injective]

theorem registry_eraseTree :
    f.registry { r with
      keys := Keyed.retain (fun p => !(path ++ ['\\']).isPrefixOf p) (r.keys.erase path) } =
      { f.registry r with
        keys := Keyed.retain (fun p => !(f.path path ++ ['\\']).isPrefixOf p)
          ((f.registry r).keys.erase (f.path path)) } := by
  have hbelow : ∀ p, (!(f.path path ++ ['\\']).isPrefixOf (f.path p)) =
      !(path ++ ['\\']).isPrefixOf p := by
    intro p
    rw [← List.isSome_isPrefixOf?_eq_isPrefixOf, ← List.isSome_isPrefixOf?_eq_isPrefixOf,
      f.isPrefixOf?_path, Option.isSome_map]
  have hkeys := Keyed.rename_retain (g := f.key) (s := r.keys.erase path) f.path_injective
    (fun p => !(path ++ ['\\']).isPrefixOf p) (fun p => !(f.path path ++ ['\\']).isPrefixOf p) hbelow
  rw [Keyed.rename_erase f.path_injective] at hkeys
  unfold registry
  rw [hkeys]

/-! ## Runs -/

theorem registry_close : ((f.registry r).regCloseKey h) =
    ((r.regCloseKey h).1, f.registry (r.regCloseKey h).2) := by
  have hhandles : (fun h' => (Function.update r.handles h none h').map f.path) =
      Function.update (f.registry r).handles h none := by
    funext h'
    by_cases hh : h' = h
    · rw [hh, Function.update_self, Function.update_self]
      rfl
    · rw [Function.update_of_ne hh, Function.update_of_ne hh]
      rfl
  unfold Registry.regCloseKey
  by_cases hroot : (rootName h).isSome
  · rw [if_pos hroot, if_pos hroot]
  · rw [if_neg hroot, if_neg hroot, ← hhandles]
    rfl

theorem exists_buildPath {p p' : WStr} (hp : utf16ToString p' = f.subkey (utf16ToString p))
    (h' : r.resolvePath h = some path) : ∃ full, r.buildPath h p = some full ∧
      (f.registry r).buildPath h p' = some (f.path full) := by
  have hbuild : (r.buildPath h p).isSome := by
    unfold Registry.buildPath
    rw [h']
    rfl
  obtain ⟨full, hfull⟩ := Option.isSome_iff_exists.mp hbuild
  refine ⟨full, hfull, ?_⟩
  rw [buildPath_registry hp, hfull]
  rfl

theorem registry_query {n n' : WStr} (hn : utf16ToString n' = f.value (utf16ToString n))
    (hresolve : r.resolvePath h = some path) (buffer : Buffer) :
    (f.registry r).regQueryValueExW h n' buffer = r.regQueryValueExW h n buffer := by
  have hresolve' : (f.registry r).resolvePath h = some (f.path path) := by
    rw [resolvePath_registry, hresolve]
    rfl
  rw [Registry.regQueryValueExW_eq hresolve, Registry.regQueryValueExW_eq hresolve', hn,
    show (f.registry r).keys.lookup (f.path path) = (r.keys.lookup path).map f.key from
      Keyed.lookup_rename f.path_injective]
  cases r.keys.lookup path with
  | none => rfl
  | some k =>
    have hvalue : (f.key k).values.lookup (f.value (utf16ToString n)) =
        (k.values.lookup (utf16ToString n)).map id := Keyed.lookup_rename f.value_injective
    rw [Option.map_some, Option.bind_some, Option.bind_some, hvalue, Option.map_id]
    rfl

theorem registry_info (hresolve : r.resolvePath h = some path) :
    (f.registry r).regQueryInfoKeyW h = r.regQueryInfoKeyW h := by
  have hresolve' : (f.registry r).resolvePath h = some (f.path path) := by
    rw [resolvePath_registry, hresolve]
    rfl
  have hsubkeys : ((f.registry r).subkeyNames (f.path path)).length = (r.subkeyNames path).length := by
    rw [subkeyNames_registry, List.length_map]
  have hvalues : ((f.registry r).valueNames (f.path path)).length = (r.valueNames path).length := by
    rw [valueNames_registry, List.length_map]
  simp only [Registry.regQueryInfoKeyW, hresolve, hresolve', hsubkeys, hvalues, maxChars_subkeyNames,
    maxChars_valueNames]

/-- One step of the simulation: equal replies, and the stores still correspond. -/
theorem run_respelled {c c' : Call} (hc : Respelled f c c') (r : Registry) :
    (f.registry r).run c' = ((r.run c).1, f.registry (r.run c).2) := by
  have htarget : c'.target = c.target := by cases hc <;> rfl
  cases h : c.target with
  | none =>
    cases hc with
    | closeKey => exact registry_close
    | stub => rfl
    | _ => cases h
  | some hkey =>
    cases hresolve : r.resolvePath hkey with
    | none =>
      have hresolve' : (f.registry r).resolvePath hkey = none := by
        rw [resolvePath_registry, hresolve]
        rfl
      rw [Registry.run_invalid h hresolve, Registry.run_invalid (htarget.trans h) hresolve']
    | some path =>
      cases hc with
      | openKey hp =>
        cases h
        obtain ⟨full, hfull, hfull'⟩ := exists_buildPath hp hresolve
        simp only [Registry.run, Registry.regOpenKeyW_eq hfull, Registry.regOpenKeyW_eq hfull',
          registry_mint]
        rfl
      | openKeyEx hp =>
        cases h
        obtain ⟨full, hfull, hfull'⟩ := exists_buildPath hp hresolve
        simp only [Registry.run, Registry.regOpenKeyExW, Registry.regOpenKeyW_eq hfull,
          Registry.regOpenKeyW_eq hfull', registry_mint]
        rfl
      | createKeyEx hp =>
        cases h
        obtain ⟨full, hfull, hfull'⟩ := exists_buildPath hp hresolve
        simp only [Registry.run, Registry.regCreateKeyExW_eq hfull, Registry.regCreateKeyExW_eq hfull',
          registry_mint, mem_registry]
        rfl
      | closeKey => cases h
      | queryValueEx hn =>
        cases h
        simp only [Registry.run, registry_query hn hresolve]
      | setValueEx hn =>
        cases h
        have hresolve' : (f.registry r).resolvePath hkey = some (f.path path) := by
          rw [resolvePath_registry, hresolve]
          rfl
        simp only [Registry.run, Registry.regSetValueExW_eq hresolve,
          Registry.regSetValueExW_eq hresolve', hn, registry_putValue]
      | deleteKey hp =>
        cases h
        obtain ⟨full, hfull, hfull'⟩ := exists_buildPath hp hresolve
        simp only [Registry.run, Registry.regDeleteKeyW_eq hfull, Registry.regDeleteKeyW_eq hfull',
          mem_registry, registry_erase]
      | queryInfoKey =>
        cases h
        simp only [Registry.run, registry_info hresolve]
      | deleteTree hp =>
        cases h
        obtain ⟨full, hfull, hfull'⟩ := exists_buildPath hp hresolve
        simp only [Registry.run, Registry.regDeleteTreeW_eq hfull, Registry.regDeleteTreeW_eq hfull',
          mem_registry, registry_eraseTree]
      | stub => cases h

theorem replies_registry {cs cs' : List Call} (h : List.Forall₂ (Respelled f) cs cs') (r : Registry) :
    (f.registry r).replies cs' = r.replies cs := by
  induction h generalizing r with
  | nil => rfl
  | cons hc _ ih =>
    unfold Registry.replies
    rw [run_respelled hc, ih]

/-! ## The seeded registry -/

theorem registry_new : f.registry .new = .new := rfl

theorem path_seed {s : Seed} (hs : s ∈ seeds) : f.path s.path = s.path := by
  obtain ⟨root, components, hsplit⟩ := exists_splitOn s.path
  have hfixed : components.map f.component = components := by
    apply (List.map_congr_left _).trans (List.map_id components)
    intro t ht
    apply f.component_seeds s hs t
    rw [hsplit]
    exact ht
  rw [f.path_of_splitOn hsplit, hfixed, ← hsplit, List.intercalate_splitOn]

theorem registry_seeds {l : List Seed} (hl : ∀ s ∈ l, s ∈ seeds) (r : Registry) :
    f.registry (l.foldl (fun r s => r.putValue s.path s.name s.regType s.data) r) =
      l.foldl (fun r s => r.putValue s.path s.name s.regType s.data) (f.registry r) := by
  induction l generalizing r with
  | nil => rfl
  | cons s l ih =>
    have hs := hl s List.mem_cons_self
    rw [List.foldl_cons, List.foldl_cons, ih fun s' hs' => hl s' (List.mem_cons_of_mem s hs'),
      registry_putValue, path_seed hs, f.value_seeds s hs]

theorem registry_seeded : f.registry seeded = seeded := by
  unfold seeded seedSecurityDefaults
  rw [registry_seeds (fun s hs => hs), registry_new]

end Respelling

/-- Spelling every name otherwise, consistently, changes nothing that any call returns or writes.
    The respelled calls act on the respelled store, which is the seeded one again at the start. -/
theorem replies_respelled (f : Respelling) {calls calls' : List Call}
    (h : List.Forall₂ (Respelled f) calls calls') : seeded.replies calls' = seeded.replies calls := by
  have hreplies := Respelling.replies_registry h seeded
  rwa [Respelling.registry_seeded] at hreplies

def wstr (s : String) : WStr := some (Utf16.encode s.toList)

theorem swap_letters {a b : Text} (h : SameLetters a b) (t : Text) :
    SameLetters (Equiv.swap a b t) t := by
  rw [Equiv.swap_apply_def]
  by_cases ha : t = a
  · rw [if_pos ha, ha]
    exact h.symm
  · rw [if_neg ha]
    by_cases hb : t = b
    · rw [if_pos hb, hb]
      exact h
    · rw [if_neg hb]
      rfl

/-- `App` and `APP` change places among the components, `Path` and `PATH` among the value names. -/
def exchange : Respelling where
  component := Equiv.swap "App".toList "APP".toList
  value := Equiv.swap "Path".toList "PATH".toList
  component_injective := Equiv.injective _
  value_injective := Equiv.injective _
  component_letters := swap_letters (by unfold SameLetters; decide)
  value_letters := swap_letters (by unfold SameLetters; decide)
  component_seeds := by decide
  value_seeds := by decide

theorem replies_respelled_exchange :
    seeded.replies [.createKeyEx Root.currentUser.hkey (wstr "Soft\\APP") 0 none 0 0,
      .setValueEx 0x0002000000000001 (wstr "PATH") 0 3 (some fun i => BitVec.ofNat 8 i) 2,
      .queryValueEx 0x0002000000000001 (wstr "PATH") ⟨true, some 2⟩] =
    seeded.replies [.createKeyEx Root.currentUser.hkey (wstr "Soft\\App") 0 none 0 0,
      .setValueEx 0x0002000000000001 (wstr "Path") 0 3 (some fun i => BitVec.ofNat 8 i) 2,
      .queryValueEx 0x0002000000000001 (wstr "Path") ⟨true, some 2⟩] :=
  replies_respelled exchange
    (.cons (.createKeyEx (by decide)) (.cons (.setValueEx (by decide))
      (.cons (.queryValueEx (by decide)) .nil)))

/-- A seeded value is there under the seeded spelling only. -/
theorem letter_case_matters :
    SameLetters "uefisecurebootenabled".toList "UEFISecureBootEnabled".toList ∧
    seeded.replies [.openKey Root.localMachine.hkey
        (wstr "SYSTEM\\CurrentControlSet\\Control\\SecureBoot\\State"),
      .queryValueEx 0x0002000000000001 (wstr "UEFISecureBootEnabled") ⟨true, some 4⟩] =
      [{ code := errorSuccess, handle := some 0x0002000000000001 },
        { code := errorSuccess, regType := some regDword, len := some 4, data := some [1, 0, 0, 0] }] ∧
    seeded.replies [.openKey Root.localMachine.hkey
        (wstr "SYSTEM\\CurrentControlSet\\Control\\SecureBoot\\State"),
      .queryValueEx 0x0002000000000001 (wstr "uefisecurebootenabled") ⟨true, some 4⟩] =
      [{ code := errorSuccess, handle := some 0x0002000000000001 }, { code := errorFileNotFound }] := by
  unfold SameLetters
  decide

end WinCompat.Reg
