import WinCompat.Lib.Pieces
import WinCompat.Registry.Model

/-!
# Keys and names

What the flat store stands for. A name is a well-formed sequence of UTF-16 units, a key a root and
the names of the components below it. The source reads every name through `from_utf16_lossy`, so a
sequence of units names what is left after `repair`; well-formed sequences name themselves
(`Name.ofUnits_eq_iff`).

The path under which the store has a key determines it (`Key.path_inj`), opening a subkey appends to
the path what `build_path` appends (`Key.path_sub`), and the paths that a tree deletion drops are those
of the keys below (`Key.covers_iff`).
-/

namespace WinCompat.Reg

open Lib
open Lib.Utf16 (CodeUnit WellFormed)

/-- `\\`, the separator of path components. -/
def separator : CodeUnit := 0x5C

/-- The units of a guest string. -/
def WStr.units : WStr → List CodeUnit
  | none => []
  | some units => units.takeWhile (· ≠ 0)

structure Name where
  units : List CodeUnit
  wellFormed : WellFormed units
  deriving DecidableEq

structure Key where
  root : Root
  components : List Name
  clean : ∀ n ∈ components, separator ∉ n.units
  deriving DecidableEq

namespace Name

def ofUnits (units : List CodeUnit) : Name := ⟨Utf16.repair units, Utf16.wellFormed_repair units⟩

def text (n : Name) : Text := Utf16.decodeLossy n.units

end Name

def WStr.name (s : WStr) : Name := .ofUnits s.units

namespace Key

def ofRoot (root : Root) : Key := ⟨root, [], fun _ h => absurd h List.not_mem_nil⟩

/-- The components that a subkey string names. -/
def componentsOf (units : List CodeUnit) : List Name := (units.splitOn separator).map Name.ofUnits

theorem clean_componentsOf (units : List CodeUnit) : ∀ n ∈ componentsOf units, separator ∉ n.units := by
  intro n hn hsep
  obtain ⟨piece, hpiece, rfl⟩ := List.mem_map.mp hn
  apply Pieces.clean_splitOn units piece hpiece
  exact (Utf16.mem_repair (by decide) (by decide)).mp hsep

/-- The key that a subkey string names from here; an empty string names the key itself. -/
def sub (k : Key) (subkey : WStr) : Key :=
  if subkey.units = [] then k
  else
    { root := k.root
      components := k.components ++ componentsOf subkey.units
      clean := fun n hn => (List.mem_append.mp hn).elim (k.clean n) (clean_componentsOf _ n) }

/-- The key itself, or one below it. -/
def Covers (k k' : Key) : Prop := k.root = k'.root ∧ k.components <+: k'.components

instance (k k' : Key) : Decidable (k.Covers k') := inferInstanceAs (Decidable (_ ∧ _))

def pieces (k : Key) : List Text := k.root.name :: k.components.map Name.text

/-- Where the store has the key. -/
def path (k : Key) : Text := ['\\'].intercalate k.pieces

end Key

variable {k k' : Key} {n n' : Name} {us vs : List CodeUnit}

/-! ## Names -/

theorem utf16ToString_eq (s : WStr) : utf16ToString s = Utf16.decodeLossy s.units := by
  cases s <;> rfl

theorem Name.ext_units (h : n.units = n'.units) : n = n' := by
  cases n
  cases n'
  cases h
  rfl

theorem Name.text_injective : Function.Injective Name.text := by
  intro n n' h
  apply Name.ext_units
  rw [← n.wellFormed.encode_decodeLossy, ← n'.wellFormed.encode_decodeLossy]
  exact congrArg Utf16.encode h

theorem Name.text_ofUnits (us : List CodeUnit) : (Name.ofUnits us).text = Utf16.decodeLossy us :=
  Utf16.decodeLossy_eq_iff.mpr (Utf16.wellFormed_repair us).repair

theorem WStr.text_name (s : WStr) : s.name.text = utf16ToString s := by
  rw [utf16ToString_eq]
  exact Name.text_ofUnits s.units

theorem Name.ofUnits_eq_iff (hu : WellFormed us) (hv : WellFormed vs) :
    Name.ofUnits us = Name.ofUnits vs ↔ us = vs := by
  constructor
  · intro h
    rw [← hu.repair, ← hv.repair]
    exact congrArg Name.units h
  · exact congrArg Name.ofUnits

/-! ## Paths -/

theorem Root.name_injective : Function.Injective Root.name := by
  intro r r' h
  cases r <;> cases r' <;> first | rfl | exact absurd h (by decide)

theorem charOf_separator : Utf16.charOf separator = '\\' := rfl

theorem Key.clean_pieces (k : Key) : Pieces.Clean '\\' k.pieces := by
  intro piece hpiece hsep
  rcases List.mem_cons.mp hpiece with rfl | hpiece
  · revert hsep
    cases k.root <;> decide
  · obtain ⟨n, hn, rfl⟩ := List.mem_map.mp hpiece
    apply k.clean n hn
    exact Utf16.charOf_mem_decodeLossy (by decide) (by decide) hsep

theorem Key.pieces_ne_nil (k : Key) : k.pieces ≠ [] := List.cons_ne_nil _ _

theorem Key.ext_components (hroot : k.root = k'.root) (h : k.components = k'.components) : k = k' := by
  cases k
  cases k'
  cases hroot
  cases h
  rfl

theorem Key.path_inj : k.path = k'.path ↔ k = k' := by
  constructor
  · intro h
    have hpieces := (Pieces.intercalate_inj k.clean_pieces k'.clean_pieces k.pieces_ne_nil
      k'.pieces_ne_nil).mp h
    obtain ⟨hroot, hcomponents⟩ := List.cons.inj hpieces
    exact Key.ext_components (Root.name_injective hroot)
      (List.map_injective_iff.mpr Name.text_injective hcomponents)
  · exact congrArg Key.path

theorem Key.path_ofRoot (root : Root) : (Key.ofRoot root).path = root.name := by
  unfold Key.path Key.pieces Key.ofRoot
  exact List.intercalate_singleton

theorem Key.text_componentsOf (us : List CodeUnit) :
    ['\\'].intercalate ((Key.componentsOf us).map Name.text) = Utf16.decodeLossy us := by
  have htext : (Key.componentsOf us).map Name.text =
      (us.splitOn separator).map Utf16.decodeLossy := by
    unfold Key.componentsOf
    rw [List.map_map]
    apply List.map_congr_left
    intro piece _
    exact Name.text_ofUnits piece
  rw [htext, ← charOf_separator, ← Utf16.decodeLossy_intercalate (by decide),
    List.intercalate_splitOn]

theorem Key.path_sub (k : Key) (subkey : WStr) : (k.sub subkey).path =
    if utf16ToString subkey = [] then k.path else k.path ++ '\\' :: utf16ToString subkey := by
  rw [utf16ToString_eq]
  unfold Key.sub
  by_cases h : subkey.units = []
  · rw [if_pos h, if_pos (Utf16.decodeLossy_eq_nil.mpr h)]
  · rw [if_neg h, if_neg (fun h' => h (Utf16.decodeLossy_eq_nil.mp h'))]
    have hne : (Key.componentsOf subkey.units).map Name.text ≠ [] := by
      simp [Key.componentsOf]
    unfold Key.path Key.pieces
    rw [List.map_append, ← List.cons_append,
      Pieces.intercalate_append (List.cons_ne_nil _ _) hne, Key.text_componentsOf]

/-- A key reached in two steps is the one that the joined path names. -/
theorem Key.sub_sub {p q r : WStr} (hp : p.units ≠ []) (hq : q.units ≠ [])
    (hr : r.units = p.units ++ separator :: q.units) : (k.sub p).sub q = k.sub r := by
  have hne : r.units ≠ [] := by
    rw [hr]
    exact List.append_ne_nil_of_left_ne_nil hp _
  have hcomponents : k.components ++ Key.componentsOf p.units ++ Key.componentsOf q.units =
      k.components ++ Key.componentsOf r.units := by
    unfold Key.componentsOf
    rw [List.append_assoc, hr, List.splitOn_append_cons_self, List.map_append]
  unfold Key.sub
  rw [if_neg hp, if_neg hq, if_neg hne]
  exact Key.ext_components rfl hcomponents

theorem Key.covers_iff : k.Covers k' ↔ k'.path = k.path ∨ k.path ++ ['\\'] <+: k'.path := by
  have hbelow : k.path ++ ['\\'] <+: k'.path ↔ ∃ ms, ms ≠ [] ∧ k'.pieces = k.pieces ++ ms :=
    Pieces.intercalate_prefix_iff k.clean_pieces k'.clean_pieces k.pieces_ne_nil k'.pieces_ne_nil
  rw [Key.path_inj, hbelow]
  constructor
  · rintro ⟨hroot, rest, hrest⟩
    by_cases hnil : rest = []
    · rw [hnil, List.append_nil] at hrest
      exact Or.inl (Key.ext_components hroot.symm hrest.symm)
    · refine Or.inr ⟨rest.map Name.text, by simpa using hnil, ?_⟩
      unfold Key.pieces
      rw [← hroot, ← hrest, List.map_append, List.cons_append]
  · rintro (rfl | ⟨ms, -, hms⟩)
    · exact ⟨rfl, List.prefix_rfl⟩
    · unfold Key.pieces at hms
      obtain ⟨hroot, hcomponents⟩ := List.cons.inj hms
      obtain ⟨ns, rest, hsplit, hns, -⟩ := List.map_eq_append_iff.mp hcomponents
      refine ⟨(Root.name_injective hroot).symm, rest, ?_⟩
      rw [hsplit, List.map_injective_iff.mpr Name.text_injective hns]

end WinCompat.Reg
