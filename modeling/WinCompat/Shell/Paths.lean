import Mathlib.Data.List.TakeWhile
import WinCompat.Lib.CString
import WinCompat.Lib.Search
import WinCompat.Lib.Utf16

/-!
# The path functions of the shell

`win32-kernel32/src/shlwapi.rs`: `path_find_file_name_w`, `path_find_extension_w`,
`path_remove_file_spec_w`, `path_append_w`, `path_combine_w` and `path_is_relative_w`.

A pointer is null or shows memory with a NUL in it; where a function returns a pointer into its
argument, the model returns how far in. The buffer that is written is apart from the strings that
are read, and what is written to it is given as the edits that are made, in their order.
-/

namespace WinCompat.Shell

open Lib Lib.CString Lib.Search
open Lib.Utf16 (CodeUnit)

abbrev Wide := Terminated CodeUnit

/-- `MAX_PATH` -/
def maxPath : Nat := 260

def backslash : CodeUnit := 0x5C

def slash : CodeUnit := 0x2F

def colon : CodeUnit := 0x3A

def dot : CodeUnit := 0x2E

def isSeparator (c : CodeUnit) : Bool := c == backslash || c == slash

/-- `is_ascii_alpha16` -/
def isAsciiAlpha16 (c : CodeUnit) : Bool :=
  (0x41 ≤ c.toNat && c.toNat ≤ 0x5A) || (0x61 ≤ c.toNat && c.toNat ≤ 0x7A)

/-! ## The functions -/

/-- `path_find_file_name_w`: going down, the place after the first separator that is met. -/
def fileName (path : Wide) : Nat :=
  match lastBelow (fun i => isSeparator (path.unit i)) path.length with
  | some i => i + 1
  | none => 0

def pathFindFileNameW (path : Option Wide) : Option Nat := path.map fileName

/-- `last_dot` and `last_sep` after `n` rounds. -/
def scanExtension (path : Wide) : Nat → Option Nat × Option Nat
  | 0 => (none, none)
  | i + 1 =>
    let (lastDot, lastSep) := scanExtension path i
    let c := path.unit i
    (if c = dot then some i else lastDot, if isSeparator c then some i else lastSep)

/-- `path_find_extension_w` -/
def extension (path : Wide) : Nat :=
  match scanExtension path path.length with
  | (some dot, some sep) => if dot < sep then path.length else dot
  | (some dot, none) => dot
  | (none, _) => path.length

def pathFindExtensionW (path : Option Wide) : Option Nat := path.map extension

/-- `path_remove_file_spec_w` -/
def pathRemoveFileSpecW (path : Option Wide) : BitVec 32 × List (Edit CodeUnit) :=
  match path with
  | none => (0, [])
  | some path =>
    match lastBelow (fun i => isSeparator (path.unit i)) path.length with
    | some i => (1, [⟨i, []⟩])
    | none => (0, [])

/-- The loop of `path_append_w`: units are taken while `pos` is below `cap`. -/
def copyLoop (cap : Nat) : Nat → List CodeUnit → List CodeUnit
  | _, [] => []
  | pos, c :: more => if cap ≤ pos then [] else c :: copyLoop cap (pos + 1) more

/-- `path_append_w` -/
def pathAppendW (path more : Option Wide) : BitVec 32 × List (Edit CodeUnit) :=
  match path, more with
  | some path, some more =>
    let plen := path.length
    let cap := maxPath - 1
    let endSep := 0 < plen && isSeparator (path.unit (plen - 1))
    let rest := if 0 < plen then more.string.dropWhile isSeparator else more.string
    if rest = [] then (1, [])
    else
      let sep := if 0 < plen && !endSep && plen < cap then [backslash] else []
      (1, [⟨plen, sep ++ copyLoop cap (plen + sep.length) rest⟩])
  | _, _ => (1, [])

/-- `copy_wide` -/
def copyWide (src : Option Wide) (cap : Nat) : Edit CodeUnit :=
  match src with
  | none => ⟨0, []⟩
  | some src => ⟨0, src.string.take (min src.length (cap - 1))⟩

/-- `file_abs` of `path_combine_w` -/
def fileAbs (file : Wide) : Bool :=
  let f₀ := file.unit 0
  if f₀ = 0 then false
  else
    let f₁ := file.unit 1
    f₁ == colon || (f₀ == backslash && f₁ == backslash)

/-- `path_combine_w`. What is returned is `dest`. -/
def pathCombineW (dest : Option (Nat → CodeUnit)) (dir file : Option Wide) :
    Option Nat × List (Edit CodeUnit) :=
  match dest with
  | none => (none, [])
  | some dest =>
    match file with
    | none => (some 0, [copyWide dir maxPath])
    | some file =>
      if fileAbs file then (some 0, [copyWide (some file) maxPath])
      else
        let copied := copyWide dir maxPath
        (some 0, copied :: (pathAppendW (some (copied.store dest)) (some file)).2)

/-- `path_is_relative_w` -/
def pathIsRelativeW (path : Option Wide) : BitVec 32 :=
  match path with
  | none => 1
  | some path =>
    let c₀ := path.unit 0
    if c₀ = 0 then 1
    else
      let c₁ := path.unit 1
      if c₁ = colon ∧ isAsciiAlpha16 c₀ then 0
      else if c₀ = backslash ∧ c₁ = backslash then 0
      else 1

/-! ## The last separator -/

variable {p : Wide}

theorem exists_lastSeparator {k : Nat}
    (h : lastBelow (fun i => isSeparator (p.unit i)) p.length = some k) :
    ∃ d c f, p.string = d ++ c :: f ∧ d.length = k ∧ isSeparator c = true ∧
      ∀ x ∈ f, isSeparator x = false := by
  obtain ⟨hk, hsep, hlater⟩ := lastBelow_eq_some.mp h
  have hlt : k < p.string.length := by rwa [Terminated.length_string]
  refine ⟨p.string.take k, p.string[k], p.string.drop (k + 1), ?_, ?_, ?_, ?_⟩
  · rw [← List.drop_eq_getElem_cons hlt, List.take_append_drop]
  · exact List.length_take_of_le hlt.le
  · rwa [Terminated.getElem_string]
  · intro x hx
    obtain ⟨i, hi, rfl⟩ := List.mem_iff_getElem.mp hx
    rw [List.length_drop, Terminated.length_string] at hi
    rw [List.getElem_drop, Terminated.getElem_string]
    exact hlater _ (by omega) (by omega)

variable {d f : List CodeUnit} {c : CodeUnit}

theorem lastSeparator_eq (h : p.string = d ++ c :: f) (hc : isSeparator c = true)
    (hf : ∀ x ∈ f, isSeparator x = false) :
    lastBelow (fun i => isSeparator (p.unit i)) p.length = some d.length := by
  have hlen : p.length = d.length + (f.length + 1) := by
    rw [Terminated.length_of_string h, List.length_append, List.length_cons]
  have hunit : ∀ i, i < p.length → some (p.unit i) = (d ++ c :: f)[i]? := fun i hi => by
    rw [← Terminated.getElem?_string p hi, h]
  refine lastBelow_eq_some.mpr ⟨by omega, ?_, fun i h₁ h₂ => ?_⟩
  · have hd := hunit d.length (by omega)
    rw [List.getElem?_append_right (Nat.le_refl _), Nat.sub_self, List.getElem?_cons_zero,
      Option.some.injEq] at hd
    rwa [hd]
  · have hi := hunit i h₂
    rw [List.getElem?_append_right h₁.le] at hi
    obtain ⟨j, hj⟩ : ∃ j, i - d.length = j + 1 := ⟨i - d.length - 1, by omega⟩
    rw [hj, List.getElem?_cons_succ] at hi
    exact hf _ (List.mem_of_getElem? hi.symm)

theorem fileName_eq (h : p.string = d ++ c :: f) (hc : isSeparator c = true)
    (hf : ∀ x ∈ f, isSeparator x = false) : fileName p = d.length + 1 := by
  rw [fileName, lastSeparator_eq h hc hf]

theorem pathRemoveFileSpecW_eq (h : p.string = d ++ c :: f) (hc : isSeparator c = true)
    (hf : ∀ x ∈ f, isSeparator x = false) :
    pathRemoveFileSpecW (some p) = (1, [⟨d.length, []⟩]) := by
  simp only [pathRemoveFileSpecW, lastSeparator_eq h hc hf]

theorem pathRemoveFileSpecW_cases (p : Wide) :
    pathRemoveFileSpecW (some p) = (0, []) ∨
      ∃ d c f, p.string = d ++ c :: f ∧ isSeparator c = true ∧ (∀ x ∈ f, isSeparator x = false) ∧
        fileName p = d.length + 1 ∧ pathRemoveFileSpecW (some p) = (1, [⟨d.length, []⟩]) := by
  cases hlast : lastBelow (fun i => isSeparator (p.unit i)) p.length with
  | none => exact .inl (by simp only [pathRemoveFileSpecW, hlast])
  | some k =>
    obtain ⟨d, c, f, hp, -, hc, hf⟩ := exists_lastSeparator hlast
    exact .inr ⟨d, c, f, hp, hc, hf, fileName_eq hp hc hf, pathRemoveFileSpecW_eq hp hc hf⟩

theorem holds_remove {d rest : List CodeUnit} (h : p.string = d ++ rest) :
    Holds (Edit.after p.unit [⟨d.length, []⟩]) d := by
  have hle : d.length ≤ p.string.length := by simp [h]
  have hholds := Edit.holds_store p.holds_string (e := ⟨d.length, []⟩) hle (by simp)
  simpa [h] using hholds

/-! ## The extension -/

theorem scanExtension_eq (path : Wide) (n : Nat) :
    scanExtension path n =
      (lastBelow (fun i => path.unit i == dot) n,
        lastBelow (fun i => isSeparator (path.unit i)) n) := by
  induction n with
  | zero => rfl
  | succ n ih => simp [scanExtension, lastBelow, ih]

theorem fileName_le (p : Wide) : fileName p ≤ p.length := by
  unfold fileName
  split
  · next i h => exact (lastBelow_eq_some.mp h).1
  · exact Nat.zero_le _

theorem extension_spec (p : Wide) :
    fileName p ≤ extension p ∧ extension p ≤ p.length ∧
      (extension p < p.length → p.unit (extension p) = dot) := by
  have hname := fileName_le p
  unfold extension
  rw [scanExtension_eq]
  cases hdot : lastBelow (fun i => p.unit i == dot) p.length with
  | none => exact ⟨hname, Nat.le_refl _, fun h => absurd h (Nat.lt_irrefl _)⟩
  | some k =>
    obtain ⟨hk, hunit, -⟩ := lastBelow_eq_some.mp hdot
    have hunit : p.unit k = dot := by simpa using hunit
    cases hsep : lastBelow (fun i => isSeparator (p.unit i)) p.length with
    | none => exact ⟨by simp [fileName, hsep], hk.le, fun _ => hunit⟩
    | some j =>
      dsimp only
      obtain ⟨-, hj, -⟩ := lastBelow_eq_some.mp hsep
      -- A dot is not a separator, so the two places differ.
      have hne : j ≠ k := by
        rintro rfl
        rw [hunit] at hj
        exact absurd hj (by decide)
      split
      · exact ⟨hname, Nat.le_refl _, fun h => absurd h (Nat.lt_irrefl _)⟩
      · have hle : fileName p ≤ k := by
          simp only [fileName, hsep]
          omega
        exact ⟨hle, hk.le, fun _ => hunit⟩

/-! ## Appending -/

/-- What goes between a path and what is appended to it. -/
def joint (path : List CodeUnit) : List CodeUnit :=
  if path = [] ∨ path.getLast?.any isSeparator then [] else [backslash]

/-- A path with `more` behind it, if there is room. -/
def joined (path more : List CodeUnit) : List CodeUnit :=
  let rest := if path = [] then more else more.dropWhile isSeparator
  if rest = [] then path else path ++ (joint path ++ rest)

theorem isPrefix_joined (path more : List CodeUnit) : path <+: joined path more := by
  unfold joined
  dsimp only
  split
  · split
    · exact List.prefix_refl _
    · exact List.prefix_append _ _
  · split
    · exact List.prefix_refl _
    · exact List.prefix_append _ _

theorem copyLoop_eq (cap pos : Nat) (more : List CodeUnit) :
    copyLoop cap pos more = more.take (cap - pos) := by
  induction more generalizing pos with
  | nil => simp [copyLoop]
  | cons c more ih =>
    rw [copyLoop]
    split
    · next h => simp [Nat.sub_eq_zero_of_le h]
    · next h =>
      have hsub : cap - pos = cap - (pos + 1) + 1 := by omega
      rw [ih, hsub, List.take_succ_cons]

theorem joint_eq (path : Wide) :
    joint path.string =
      if 0 < path.length && !(0 < path.length && isSeparator (path.unit (path.length - 1))) then
        [backslash]
      else [] := by
  unfold joint
  by_cases hempty : path.string = []
  · have hlen : path.length = 0 := Terminated.length_of_string hempty
    simp [hempty, hlen]
  · have hlen : 0 < path.length := by
      rw [← Terminated.length_string]
      exact List.length_pos_iff.mpr hempty
    have hlast : path.string.getLast? = some (path.unit (path.length - 1)) := by
      rw [List.getLast?_eq_getElem?, Terminated.length_string,
        Terminated.getElem?_string path (Nat.sub_lt hlen Nat.one_pos)]
    cases hsep : isSeparator (path.unit (path.length - 1)) with
    | true => simp [hempty, hlast, hsep]
    | false => simp [hempty, hlast, hsep, hlen]

theorem pathAppendW_eq (path more : Wide) :
    pathAppendW (some path) (some more) =
      let added := (joined path.string more.string).drop path.length
      (1, if joined path.string more.string = path.string then []
        else [⟨path.length, added.take (maxPath - 1 - path.length)⟩]) := by
  have hpos : path.string = [] ↔ ¬ 0 < path.length := by
    rw [← Terminated.length_string, List.length_pos_iff, not_not]
  have hrest : (if 0 < path.length then more.string.dropWhile isSeparator else more.string) =
      if path.string = [] then more.string else more.string.dropWhile isSeparator := by
    simp only [hpos, ite_not]
  unfold pathAppendW joined
  dsimp only
  rw [hrest]
  generalize (if path.string = [] then more.string else more.string.dropWhile isSeparator) = rest
  split
  · next h => rw [if_pos rfl]
  · next h =>
    have hne : path.string ++ (joint path.string ++ rest) ≠ path.string := by simp [h]
    rw [if_neg hne, List.drop_left' (Terminated.length_string path), joint_eq, copyLoop_eq]
    by_cases hroom : path.length < maxPath - 1
    · have hsub : maxPath - 1 - path.length = maxPath - 1 - (path.length + 1) + 1 := by omega
      split
      · next hsep =>
        rw [if_pos (by simpa [hroom] using hsep), hsub, List.singleton_append,
          List.singleton_append, List.take_succ_cons, List.length_singleton]
      · next hsep =>
        rw [if_neg (by simpa [hroom] using hsep), List.length_nil, Nat.add_zero, List.nil_append,
          List.nil_append]
    · have hsub : maxPath - 1 - path.length = 0 := by omega
      simp [hroom, hsub]

theorem zero_not_mem_joined (path more : Wide) :
    (0 : CodeUnit) ∉ joined path.string more.string := by
  have hpath := path.holds_string.clean
  have hmore := more.holds_string.clean
  have hjoint : (0 : CodeUnit) ∉ joint path.string := by
    unfold joint
    split
    · exact List.not_mem_nil
    · decide
  have hrest : (0 : CodeUnit) ∉
      (if path.string = [] then more.string else more.string.dropWhile isSeparator) := by
    split
    · exact hmore
    · exact fun hmem => hmore ((List.dropWhile_sublist _).subset hmem)
  unfold joined
  generalize (if path.string = [] then more.string else more.string.dropWhile isSeparator) = rest
    at hrest
  by_cases hempty : rest = []
  · simpa [hempty] using hpath
  · simpa [hempty] using ⟨hpath, hjoint, hrest⟩

theorem holds_append (path more : Wide) :
    Holds (Edit.after path.unit (pathAppendW (some path) (some more)).2)
      ((joined path.string more.string).take (max (maxPath - 1) path.length)) := by
  have hclean := zero_not_mem_joined path more
  obtain ⟨t, ht⟩ := isPrefix_joined path.string more.string
  rw [pathAppendW_eq]
  rw [← ht] at hclean ⊢
  have hcut : (path.string ++ t).take (max (maxPath - 1) path.length) =
      path.string ++ t.take (maxPath - 1 - path.length) := by
    have hroom : max (maxPath - 1) path.length - path.length = maxPath - 1 - path.length := by omega
    rw [List.take_append, Terminated.length_string, hroom,
      List.take_of_length_le (by simp only [Terminated.length_string]; omega)]
  rw [hcut]
  split
  · next h =>
    have ht : t = [] := by simpa using h
    simpa [ht] using path.holds_string
  · next h =>
    rw [List.drop_left' (Terminated.length_string path)]
    have ht : (0 : CodeUnit) ∉ t.take (maxPath - 1 - path.length) := fun hmem =>
      hclean (List.mem_append_right _ (List.mem_of_mem_take hmem))
    have hstore := Edit.holds_store path.holds_string (e := ⟨path.length, t.take _⟩) (by simp) ht
    rwa [List.take_of_length_le (Terminated.length_string path).le] at hstore

theorem append_indices {path more : Wide} {e : Edit CodeUnit}
    (he : e ∈ (pathAppendW (some path) (some more)).2) {i : Nat} (hi : i ∈ e.indices) :
    i < maxPath ∨ (e.units = [] ∧ i = path.length) := by
  rw [pathAppendW_eq] at he
  dsimp only at he
  split at he
  · exact absurd he List.not_mem_nil
  · rw [List.mem_singleton] at he
    subst he
    rw [Edit.mem_indices] at hi
    dsimp only at hi ⊢
    have htake := List.length_take_le (maxPath - 1 - path.length)
      ((joined path.string more.string).drop path.length)
    by_cases hroom : path.length < maxPath
    · exact .inl (by omega)
    · have hzero : maxPath - 1 - path.length = 0 := by omega
      rw [hzero] at hi htake ⊢
      exact .inr ⟨List.take_zero, by omega⟩

/-! ## Combining -/

/-- The string at a pointer; NULL counts as an empty one. -/
def stringOf (s : Option Wide) : List CodeUnit := (s.map Terminated.string).getD []

theorem copyWide_eq (src : Option Wide) (cap : Nat) :
    copyWide src cap = ⟨0, (stringOf src).take (cap - 1)⟩ := by
  cases src with
  | none => simp [copyWide, stringOf]
  | some src =>
    simp only [copyWide, stringOf, Option.map_some, Option.getD_some, Edit.mk.injEq, true_and]
    rw [← Terminated.length_string, Nat.min_comm, ← List.take_take, List.take_length]

theorem holds_copyWide (dest : Nat → CodeUnit) (src : Option Wide) (cap : Nat) :
    Holds ((copyWide src cap).store dest).unit ((stringOf src).take (cap - 1)) := by
  rw [copyWide_eq]
  refine Edit.holds_store_zero dest fun hmem => ?_
  have hmem := List.mem_of_mem_take hmem
  cases src with
  | none => exact List.not_mem_nil hmem
  | some src => exact src.holds_string.clean hmem

theorem length_copied (dest : Nat → CodeUnit) (dir : Option Wide) :
    ((copyWide dir maxPath).store dest).length ≤ maxPath - 1 := by
  rw [Terminated.length_of_string (Terminated.string_eq (holds_copyWide dest dir maxPath))]
  exact List.length_take_le _ _

theorem joined_take (dir file : List CodeUnit) (n : Nat) :
    (joined (dir.take n) file).take n = (joined dir file).take n := by
  by_cases hle : dir.length ≤ n
  · rw [List.take_of_length_le hle]
  · obtain ⟨t, ht⟩ := isPrefix_joined (dir.take n) file
    obtain ⟨t', ht'⟩ := isPrefix_joined dir file
    have hlen : (dir.take n).length = n := List.length_take_of_le (Nat.le_of_not_le hle)
    rw [← ht, ← ht', List.take_left' hlen, List.take_append_of_le_length (Nat.le_of_not_le hle)]

theorem holds_combine (dest : Nat → CodeUnit) (dir : Option Wide) (file : Wide)
    (h : fileAbs file = false) :
    Holds (Edit.after dest (pathCombineW (some dest) dir (some file)).2)
      ((joined (stringOf dir) file.string).take (maxPath - 1)) := by
  have hcopied := holds_copyWide dest dir maxPath
  have happended := holds_append ((copyWide dir maxPath).store dest) file
  rw [Terminated.string_eq hcopied] at happended
  rw [Nat.max_eq_left (length_copied dest dir), joined_take] at happended
  simpa [pathCombineW, h] using happended

theorem holds_combine_abs (dest : Nat → CodeUnit) (dir : Option Wide) (file : Wide)
    (h : fileAbs file = true) :
    Holds (Edit.after dest (pathCombineW (some dest) dir (some file)).2)
      (file.string.take (maxPath - 1)) := by
  simpa [pathCombineW, h, stringOf] using holds_copyWide dest (some file) maxPath

theorem copyWide_indices {src : Option Wide} {i : Nat} (hi : i ∈ (copyWide src maxPath).indices) :
    i < maxPath := by
  rw [copyWide_eq, Edit.mem_indices] at hi
  have hlen := List.length_take_le (maxPath - 1) (stringOf src)
  have hmax : maxPath = 260 := rfl
  dsimp only at hi
  omega

/-! ## The laws -/

/-- `p` and `q` end in `name` and are the same but for the separators in front of it. -/
def SameButJoint (p q name : List CodeUnit) : Prop :=
  ∃ front seps seps' : List CodeUnit, seps ≠ [] ∧ seps' ≠ [] ∧
    (∀ c ∈ seps ++ seps', isSeparator c = true) ∧ p = front ++ (seps ++ name) ∧
    q = front ++ (seps' ++ name)

/-- What a file is in a directory: with exactly one separator between the two, unless one of them
    has nothing to offer. -/
inductive Combined : List CodeUnit → List CodeUnit → List CodeUnit → Prop
  | alone {file : List CodeUnit} : Combined [] file file
  | nothing {dir file : List CodeUnit} (hdir : dir ≠ [])
      (hfile : ∀ c ∈ file, isSeparator c = true) : Combined dir file dir
  | oneSeparator {front own dropped rest : List CodeUnit} {c : CodeUnit}
      (hdir : front ++ own ≠ []) (hfront : front.getLast?.any isSeparator = false)
      (hown : own = [] ∨ own = [c]) (hc : isSeparator c = true)
      (hdropped : ∀ c ∈ dropped, isSeparator c = true)
      (hrest : rest.head?.any isSeparator = false) :
      Combined (front ++ own) (dropped ++ rest) (front ++ c :: rest)

/-- A path whose last two units are separators. -/
def EndsInTwo (path : List CodeUnit) : Prop :=
  ∃ front c c', isSeparator c = true ∧ isSeparator c' = true ∧ path = front ++ [c, c']

variable {path : List CodeUnit}

theorem joint_of_not_any (hne : path ≠ []) (h : path.getLast?.any isSeparator = false) :
    joint path = [backslash] := by
  simp [joint, hne, h]

theorem joint_of_any (h : path.getLast?.any isSeparator = true) : joint path = [] := by
  simp [joint, h]

theorem exists_getLast_of_any (h : path.getLast?.any isSeparator = true) :
    ∃ front c, path = front ++ [c] ∧ isSeparator c = true := by
  obtain rfl | ⟨front, c, rfl⟩ := List.eq_nil_or_concat path
  · exact absurd h (by simp)
  · refine ⟨front, c, List.concat_eq_append, ?_⟩
    simpa using h

/-- Appending the name to what is left of the path. -/
theorem joined_restores (hd : d ≠ []) (hf : f ≠ []) (hc : isSeparator c = true)
    (hclean : ∀ x ∈ f, isSeparator x = false) :
    (joined d f).length ≤ (d ++ c :: f).length ∧ SameButJoint (d ++ c :: f) (joined d f) f := by
  have hdrop : f.dropWhile isSeparator = f := by
    cases f with
    | nil => rfl
    | cons x f => rw [List.dropWhile_cons, hclean x List.mem_cons_self, if_neg Bool.false_ne_true]
  have hjoined : joined d f = d ++ (joint d ++ f) := by simp [joined, hd, hdrop, hf]
  rw [hjoined]
  cases hlast : d.getLast?.any isSeparator with
  | true =>
    obtain ⟨front, c', rfl, hc'⟩ := exists_getLast_of_any hlast
    rw [joint_of_any hlast]
    refine ⟨by simp, front, [c', c], [c'], by simp, by simp, ?_, by simp, by simp⟩
    simp [hc, hc']
  | false =>
    rw [joint_of_not_any hd hlast]
    refine ⟨by simp, d, [c], [backslash], by simp, by simp, ?_, by simp, by simp⟩
    simpa [hc] using (by decide : isSeparator backslash = true)

theorem joined_combined {dir file : List CodeUnit} (h : ¬ EndsInTwo dir) :
    Combined dir file (joined dir file) := by
  by_cases hdir : dir = []
  · subst hdir
    have hjoined : joined [] file = file := by
      unfold joined joint
      by_cases hfile : file = []
      · simp [hfile]
      · simp [hfile]
    rw [hjoined]
    exact .alone
  · by_cases hrest : file.dropWhile isSeparator = []
    · have hjoined : joined dir file = dir := by simp only [joined, if_neg hdir, if_pos hrest]
      rw [hjoined]
      exact .nothing hdir (List.dropWhile_eq_nil_iff.mp hrest)
    · have hjoined : joined dir file = dir ++ (joint dir ++ file.dropWhile isSeparator) := by
        simp only [joined, if_neg hdir, if_neg hrest]
      have hdropped : ∀ c ∈ file.takeWhile isSeparator, isSeparator c = true := fun c hc =>
        List.mem_takeWhile_imp hc
      have hhead : (file.dropWhile isSeparator).head?.any isSeparator = false := by
        have hnot := List.head?_dropWhile_not isSeparator file
        cases hx : (file.dropWhile isSeparator).head? with
        | none => rfl
        | some x => simpa [hx] using hnot
      rw [hjoined]
      conv => arg 2; rw [← List.takeWhile_append_dropWhile (p := isSeparator) (l := file)]
      cases hlast : dir.getLast?.any isSeparator with
      | true =>
        obtain ⟨front, c, rfl, hc⟩ := exists_getLast_of_any hlast
        have hfront : front.getLast?.any isSeparator = false := by
          by_contra hany
          obtain ⟨front', c', rfl, hc'⟩ := exists_getLast_of_any (by simpa using hany)
          exact h ⟨front', c', c, hc', hc, by simp⟩
        rw [joint_of_any hlast, List.nil_append, List.append_assoc, List.singleton_append]
        exact .oneSeparator hdir hfront (.inr rfl) hc hdropped hhead
      | false =>
        rw [joint_of_not_any hdir hlast]
        have hcombined := @Combined.oneSeparator dir [] _ _ backslash
          (by simpa using hdir) hlast (.inl rfl) (by decide) hdropped hhead
        simpa using hcombined

theorem fileAbs_of_not_relative {file : Option Wide} (h : pathIsRelativeW file = 0) :
    ∃ f, file = some f ∧ fileAbs f = true := by
  cases file with
  | none => exact absurd h (by decide)
  | some f =>
    refine ⟨f, rfl, ?_⟩
    simp only [pathIsRelativeW] at h
    split at h
    · exact absurd h (by decide)
    · next h₀ =>
      split at h
      · next hdrive => simpa [fileAbs, hdrive.1] using h₀
      · split at h
        · next hunc => simpa [fileAbs, hunc.1, hunc.2] using (by decide : backslash ≠ 0)
        · exact absurd h (by decide)

theorem not_fileAbs_of_relative {f : Wide} (h : pathIsRelativeW (some f) = 1)
    (hcolon : f.string[1]? ≠ some colon) : fileAbs f = false := by
  by_contra habs
  have habs : fileAbs f = true := by simpa using habs
  unfold fileAbs at habs
  dsimp only at habs
  split at habs
  · exact absurd habs Bool.false_ne_true
  · next h₀ =>
    rw [Bool.or_eq_true, Bool.and_eq_true, beq_iff_eq, beq_iff_eq, beq_iff_eq] at habs
    obtain hdrive | hunc := habs
    · have hlen : 1 < f.length := by
        have hnul := f.unit_length
        by_contra hle
        obtain hlen | hlen : f.length = 0 ∨ f.length = 1 := by omega
        · exact h₀ (hlen ▸ hnul)
        · rw [hlen, hdrive] at hnul
          exact absurd hnul (by decide)
      exact hcolon (hdrive ▸ f.getElem?_string hlen)
    · have hne : ¬ (backslash = colon ∧ isAsciiAlpha16 backslash = true) := by decide
      simp only [pathIsRelativeW, hunc.1, hunc.2, if_neg hne] at h
      exact absurd h (by decide)

theorem combine_relative (dest : Nat → CodeUnit) (dir file : Option Wide)
    (h : pathIsRelativeW file = 1) (hcolon : (stringOf file)[1]? ≠ some colon)
    (htwo : ¬ EndsInTwo (stringOf dir)) :
    ∃ r, Combined (stringOf dir) (stringOf file) r ∧
      Holds (Edit.after dest (pathCombineW (some dest) dir file).2) (r.take (maxPath - 1)) := by
  cases file with
  | none =>
    have hjoined : joined (stringOf dir) [] = stringOf dir := by
      by_cases hdir : stringOf dir = [] <;> simp [joined, hdir]
    refine ⟨stringOf dir, ?_, holds_copyWide dest dir maxPath⟩
    conv => arg 3; rw [← hjoined]
    exact joined_combined htwo
  | some f =>
    exact ⟨_, joined_combined htwo, holds_combine dest dir f (not_fileAbs_of_relative h hcolon)⟩

/-- Edits of memory with its NUL at `nul`: they stay in the first 260 units or only put a NUL no
    later than there, and leave one. -/
structure Contained (m : Nat → CodeUnit) (nul : Nat) (edits : List (Edit CodeUnit)) : Prop where
  inside : ∀ e ∈ edits, ∀ i ∈ e.indices, i < maxPath ∨ (e.units = [] ∧ i ≤ nul)
  terminated : ∃ s, s.length ≤ max (maxPath - 1) nul ∧ Holds (Edit.after m edits) s

theorem contained_remove (p : Wide) :
    Contained p.unit p.length (pathRemoveFileSpecW (some p)).2 := by
  obtain h | ⟨d, c, f, hp, -, -, -, h⟩ := pathRemoveFileSpecW_cases p
  · rw [h]
    exact ⟨by simp, p.string, p.length_string.trans_le (Nat.le_max_right _ _), p.holds_string⟩
  · have hlen : d.length ≤ p.length := by simp [Terminated.length_of_string hp]
    rw [h]
    refine ⟨?_, d, by omega, holds_remove hp⟩
    simp only [List.mem_singleton, forall_eq, Edit.mem_indices]
    rintro i ⟨-, hi⟩
    exact .inr ⟨trivial, hi.trans hlen⟩

theorem contained_append (path more : Wide) :
    Contained path.unit path.length (pathAppendW (some path) (some more)).2 where
  inside _ he _ hi := (append_indices he hi).imp_right fun h => ⟨h.1, h.2.le⟩
  terminated := ⟨_, List.length_take_le _ _, holds_append path more⟩

theorem contained_combine (dest : Nat → CodeUnit) (dir file : Option Wide) :
    Contained dest 0 (pathCombineW (some dest) dir file).2 where
  inside e he i hi := by
    cases file with
    | none =>
      rw [List.mem_singleton.mp he] at hi
      exact .inl (copyWide_indices hi)
    | some f =>
      simp only [pathCombineW] at he
      split at he
      · rw [List.mem_singleton.mp he] at hi
        exact .inl (copyWide_indices hi)
      · obtain rfl | he := List.mem_cons.mp he
        · exact .inl (copyWide_indices hi)
        · obtain hlt | ⟨-, rfl⟩ := append_indices he hi
          · exact .inl hlt
          · exact .inl (Nat.lt_of_le_of_lt (length_copied dest dir) (by decide))
  terminated := by
    cases file with
    | none => exact ⟨_, List.length_take_le _ _, holds_copyWide dest dir maxPath⟩
    | some f =>
      cases habs : fileAbs f with
      | true => exact ⟨_, List.length_take_le _ _, holds_combine_abs dest dir f habs⟩
      | false => exact ⟨_, List.length_take_le _ _, holds_combine dest dir f habs⟩

theorem remove_append {p left name : Wide} (hp : p.length < maxPath)
    (hremoved : (pathRemoveFileSpecW (some p)).1 = 1)
    (hleft : left.unit = Edit.after p.unit (pathRemoveFileSpecW (some p)).2)
    (hne : left.string ≠ []) (hname : name.string = p.string.drop (fileName p))
    (hname_ne : name.string ≠ []) :
    ∃ q, Holds (Edit.after left.unit (pathAppendW (some left) (some name)).2) q ∧
      SameButJoint p.string q name.string := by
  obtain h | ⟨d, c, f, hstring, hc, hf, hfile, h⟩ := pathRemoveFileSpecW_cases p
  · rw [h] at hremoved
    exact absurd hremoved (by decide)
  · rw [h] at hleft
    have hd : left.string = d := Terminated.string_eq (hleft ▸ holds_remove hstring)
    have hdrop : name.string = f := by
      rw [hname, hfile, hstring, List.drop_append, List.drop_of_length_le (Nat.le_succ _)]
      simp
    obtain ⟨hlen, hsame⟩ := joined_restores (hd ▸ hne) (hdrop ▸ hname_ne) hc hf
    rw [← hstring, Terminated.length_string] at hlen
    rw [← hstring] at hsame
    have hholds := holds_append left name
    rw [hd, hdrop, List.take_of_length_le (by omega)] at hholds
    exact ⟨_, hholds, hdrop ▸ hsame⟩

/-- The laws of the path functions, for paths of any length. Each is about the buffer after the
    call, so that what is cut off at `MAX_PATH` and what is not written at all is part of it. -/
theorem path_algebra (p left name path more : Wide) (dir file : Option Wide)
    (dest : Nat → CodeUnit) :
    -- removing the last component and appending it again
    (p.length < maxPath → (pathRemoveFileSpecW (some p)).1 = 1 →
      left.unit = Edit.after p.unit (pathRemoveFileSpecW (some p)).2 → left.string ≠ [] →
      name.string = p.string.drop (fileName p) → name.string ≠ [] →
      ∃ q, Holds (Edit.after left.unit (pathAppendW (some left) (some name)).2) q ∧
        SameButJoint p.string q name.string) ∧
    -- combining
    (pathIsRelativeW file = 0 →
      Holds (Edit.after dest (pathCombineW (some dest) dir file).2)
        ((stringOf file).take (maxPath - 1))) ∧
    (pathIsRelativeW file = 1 → (stringOf file)[1]? ≠ some colon → ¬ EndsInTwo (stringOf dir) →
      ∃ r, Combined (stringOf dir) (stringOf file) r ∧
        Holds (Edit.after dest (pathCombineW (some dest) dir file).2) (r.take (maxPath - 1))) ∧
    -- the extension
    (fileName p ≤ extension p ∧ extension p ≤ p.length ∧
      (extension p < p.length → p.unit (extension p) = dot)) ∧
    -- what does not fit is cut, and TRUE or the buffer returned all the same
    Holds (Edit.after path.unit (pathAppendW (some path) (some more)).2)
      ((joined path.string more.string).take (max (maxPath - 1) path.length)) ∧
    (pathAppendW (some path) (some more)).1 = 1 ∧
    (pathCombineW (some dest) dir file).1 = some 0 ∧
    -- where is written
    Contained p.unit p.length (pathRemoveFileSpecW (some p)).2 ∧
    Contained path.unit path.length (pathAppendW (some path) (some more)).2 ∧
    Contained dest 0 (pathCombineW (some dest) dir file).2 := by
  refine ⟨remove_append, fun h => ?_, combine_relative dest dir file, extension_spec p,
    holds_append path more, ?_, ?_, contained_remove p, contained_append path more,
    contained_combine dest dir file⟩
  · obtain ⟨f, rfl, habs⟩ := fileAbs_of_not_relative h
    exact holds_combine_abs dest dir f habs
  · rw [pathAppendW_eq]
  · cases file with
    | none => rfl
    | some f =>
      cases habs : fileAbs f with
      | true => simp [pathCombineW, habs]
      | false => simp [pathCombineW, habs]

theorem exists_taken_off (hclean : (0 : CodeUnit) ∉ d ++ c :: f) (hc : isSeparator c = true)
    (hf : ∀ x ∈ f, isSeparator x = false) :
    ∃ p left name : Wide, p.string = d ++ c :: f ∧ (pathRemoveFileSpecW (some p)).1 = 1 ∧
      left.unit = Edit.after p.unit (pathRemoveFileSpecW (some p)).2 ∧ left.string = d ∧
      name.string = p.string.drop (fileName p) ∧ name.string = f := by
  obtain ⟨p, hp⟩ : ∃ p : Wide, p.string = d ++ c :: f := ⟨_, Terminated.string_ofList hclean⟩
  have hname : (0 : CodeUnit) ∉ f := fun hmem =>
    hclean (List.mem_append_right _ (List.mem_cons_of_mem _ hmem))
  have hremove := pathRemoveFileSpecW_eq hp hc hf
  refine ⟨p, Edit.store p.unit ⟨d.length, []⟩, .ofList f, hp, by rw [hremove],
    by rw [hremove]; rfl, Terminated.string_eq (holds_remove hp), ?_,
    Terminated.string_ofList hname⟩
  rw [Terminated.string_ofList hname, hp, fileName_eq hp hc hf, List.drop_append,
    List.drop_of_length_le (Nat.le_succ _)]
  simp

/-- A file in a directory, taken off and put back. -/
theorem path_algebra_inDirectory :
    ∃ p left name q, p.string = [0x64, backslash, 0x66] ∧
      left.unit = Edit.after p.unit (pathRemoveFileSpecW (some p)).2 ∧
      name.string = [0x66] ∧
      Holds (Edit.after left.unit (pathAppendW (some left) (some name)).2) q ∧
      SameButJoint p.string q name.string := by
  obtain ⟨p, left, name, hp, hremoved, hleft, hd, hname, hf⟩ :=
    @exists_taken_off [0x64] [0x66] backslash (by decide) (by decide)
      (List.forall_mem_singleton.mpr (by decide))
  have hlen : p.length < maxPath := by
    rw [Terminated.length_of_string hp]
    decide
  obtain ⟨q, hq, hsame⟩ := (path_algebra p left name p p none none fun _ => 0).1 hlen hremoved hleft
    (by rw [hd]; decide) hname (by rw [hf]; decide)
  exact ⟨p, left, name, q, hp, hleft, hf, hq, hsame⟩

/-- Nothing is left in front of the name of a file in the root, so it comes back without its
    separator; and a path that is full is given back as it was, with TRUE. -/
theorem root_not_restored :
    (∃ p left name q, p.string = [backslash, 0x66] ∧ (pathRemoveFileSpecW (some p)).1 = 1 ∧
      left.unit = Edit.after p.unit (pathRemoveFileSpecW (some p)).2 ∧
      name.string = p.string.drop (fileName p) ∧ name.string ≠ [] ∧
      Holds (Edit.after left.unit (pathAppendW (some left) (some name)).2) q ∧
      ¬ SameButJoint p.string q name.string) ∧
    ∃ path more, maxPath ≤ (joined path.string more.string).length ∧
      (pathAppendW (some path) (some more)).1 = 1 ∧
      Holds (Edit.after path.unit (pathAppendW (some path) (some more)).2) path.string := by
  constructor
  · obtain ⟨p, left, name, hp, hremoved, hleft, hd, hname, hf⟩ :=
      @exists_taken_off [] [0x66] backslash (by decide) (by decide)
      (List.forall_mem_singleton.mpr (by decide))
    have hholds := holds_append left name
    have hshort : (joined [] [(0x66 : CodeUnit)]) = [0x66] := by decide
    have hone : 1 ≤ max (maxPath - 1) left.length := Nat.le_trans (by decide) (Nat.le_max_left _ _)
    rw [hd, hf, hshort, List.take_of_length_le hone] at hholds
    refine ⟨p, left, name, _, hp, hremoved, hleft, hname, by rw [hf]; decide, hholds, ?_⟩
    rw [hp, hf]
    rintro ⟨front, seps, seps', -, hne, -, -, hq⟩
    have hlen := congrArg List.length hq
    have hpos := List.length_pos_iff.mpr hne
    rw [List.length_append, List.length_append] at hlen
    simp only [List.length_singleton] at hlen
    omega
  · obtain ⟨path, hpath⟩ : ∃ path : Wide, path.string = List.replicate 259 0x61 :=
      ⟨_, Terminated.string_ofList fun hmem => absurd (List.eq_of_mem_replicate hmem) (by decide)⟩
    obtain ⟨more, hmore⟩ : ∃ more : Wide, more.string = [0x62] :=
      ⟨_, Terminated.string_ofList (by decide)⟩
    have hlen : path.length = 259 := by
      rw [Terminated.length_of_string hpath, List.length_replicate]
    have hholds := holds_append path more
    have hcut : (joined (List.replicate 259 (0x61 : CodeUnit)) [0x62]).take
        (max (maxPath - 1) 259) = List.replicate 259 0x61 := by decide +kernel
    rw [hpath, hmore, hlen, hcut] at hholds
    refine ⟨path, more, ?_, by rw [pathAppendW_eq], hpath ▸ hholds⟩
    rw [hpath, hmore]
    decide +kernel

end WinCompat.Shell
