import WinCompat.Lib.Utf8Pieces

/-!
# Where a DLL is looked for

`candidate_paths`, `push_candidates` and `search_dirs` of `win32-kernel32/src/dllload.rs`, and the
copy of them in `try_resolve_from_disk` of `pe-loader/src/imports.rs`. Both take the last four bytes
of a path for its extension, with a slice that panics where those bytes begin inside a character.
-/

namespace WinCompat.Loader

/-- The DLLs that are never looked for on disk. -/
def ourDlls : List String :=
  ["kernel32.dll", "user32.dll", "gdi32.dll", "ntdll.dll", "advapi32.dll", "shell32.dll",
    "shlwapi.dll", "ole32.dll", "oleaut32.dll", "ws2_32.dll", "d3d11.dll", "dxgi.dll", "d3d12.dll",
    "d3dcompiler_47.dll", "xinput1_3.dll", "xinput1_4.dll", "xinput9_1_0.dll", "xaudio2_7.dll",
    "xaudio2_8.dll", "xaudio2_9.dll", "xaudio2_10.dll", "dinput8.dll", "comdlg32.dll",
    "comctl32.dll", "msvcrt.dll", "ucrtbase.dll", "tbs.dll", "imm32.dll", "bcrypt.dll",
    "crypt32.dll", "ncrypt.dll", "iphlpapi.dll", "gdiplus.dll"]

namespace SearchPaths

open Lib

abbrev Text := List Char

/-- A path of the host. -/
abbrev Path := List UInt8

/-! ## Strings -/

/-- `str::len` -/
def len (t : Text) : Nat := (Utf8.encode t).length

/-- `&t[start..]`, which panics where no character begins. -/
def sliceFrom : Text → Nat → Option Text
  | t, 0 => some t
  | [], _ + 1 => none
  | c :: t, n + 1 => if n + 1 < c.utf8Size then none else sliceFrom t (n + 1 - c.utf8Size)

/-- `str::eq_ignore_ascii_case` -/
def eqIgnoreAsciiCase (t t' : Text) : Bool := t.map Char.toLower == t'.map Char.toLower

def dotDll : Text := ['.', 'd', 'l', 'l']

/-- `str::replace('\\', "/")` -/
def slashed (name : Text) : Text := name.map fun c => if c = '\\' then '/' else c

/-- `Path::join` -/
def join (dir : Path) (name : Text) : Path :=
  if name.head? = some '/' then Utf8.encode name
  else if dir = [] ∨ dir.getLast? = some 0x2F then dir ++ Utf8.encode name
  else dir ++ 0x2F :: Utf8.encode name

/-! ## The directories -/

structure Env where
  /-- `EXE_DIR` -/
  exeDir : Option Path
  /-- `$NIGG_DLL_PATH` -/
  dllPath : Option (List UInt8)
  deriving DecidableEq

/-- The entries of `$NIGG_DLL_PATH`. -/
def entries (list : List UInt8) : List Path :=
  (((Utf8.decodeLossy list).splitOnP fun c => c = ':' ∨ c = ';').filter (· ≠ [])).map Utf8.encode

/-- `search_dirs` -/
def searchDirs (env : Env) : List Path :=
  env.exeDir.toList ++ (match env.dllPath with
    | none => []
    | some list => entries list) ++ [[0x2E]]

/-! ## `LoadLibrary` -/

/-- Whether `base` ends in `.dll`; none if the slice panics. -/
def hasExt (base : Text) : Option Bool :=
  if 4 ≤ len base then (sliceFrom base (len base - 4)).map (eqIgnoreAsciiCase · dotDll)
  else some false

/-- `push_candidates` -/
def pushCandidates (out : List Text) (base : Text) : Option (List Text) := do
  let ext ← hasExt base
  let out := out ++ [base]
  if ext then return out else return out ++ [base ++ dotDll]

/-- `candidate_paths` -/
def candidatePaths (env : Env) (name : Text) : Option (List Text) :=
  let normalized := slashed name
  if '/' ∈ normalized then pushCandidates [] normalized
  else
    (searchDirs env).foldlM
      (fun out dir => pushCandidates out (Utf8.decodeLossy (join dir normalized))) []

/-! ## Imports -/

/-- The directories that `try_resolve_from_disk` collects. -/
def importDirs (env : Env) : List Path :=
  let d := match env.exeDir with
    | none => []
    | some exeDir => [exeDir]
  let d := match env.dllPath with
    | none => d
    | some list => d ++ entries list
  d ++ [[0x2E]]

/-- The candidates of `try_resolve_from_disk` -/
def importCandidates (env : Env) (dllName : Text) : Option (List Text) :=
  let normalized := slashed dllName
  if '/' ∈ normalized then do
    let ext ← hasExt normalized
    let v := [normalized]
    if ext then return v else return v ++ [normalized ++ dotDll]
  else
    (importDirs env).foldlM (fun v dir => do
      let s := Utf8.decodeLossy (join dir normalized)
      let ext ← hasExt s
      let v := v ++ [s]
      if ext then return v else return v ++ [s ++ dotDll]) []

/-- The search of `try_resolve_from_disk`, if there is one: a DLL of our own is not searched for. -/
def importSearch (lowercase : String → String) (env : Env) (dllName : Text) :
    Option (Option (List Text)) :=
  if ourDlls.contains (lowercase (String.ofList dllName)) then none
  else some (importCandidates env dllName)

/-! ## What they are to find -/

/-- The name itself if it is a path, else the name in each directory. -/
def bases (env : Env) (name : Text) : List Text :=
  let normalized := slashed name
  if '/' ∈ normalized then [normalized]
  else (searchDirs env).map fun dir => Utf8.decodeLossy (join dir normalized)

def endsInDll (t : Text) : Bool := eqIgnoreAsciiCase (t.drop (t.length - 4)) dotDll

/-- Each of them bare, and then with `.dll` unless the name has that. -/
def candidates (env : Env) (name : Text) : List Text :=
  (bases env name).flatMap fun base => base :: if endsInDll name then [] else [base ++ dotDll]

/-- Both searches end, with these candidates. -/
structure Consistent (lowercase : String → String) (env : Env) (name : Text) : Prop where
  load : candidatePaths env name = some (candidates env name)
  imports : ∀ found ∈ importSearch lowercase env name, found = some (candidates env name)

/-- The fourth byte from the end, if there is one, begins a character. -/
def AtChar (t : Text) : Prop := len t < 4 ∨ ∃ front back, t = front ++ back ∧ len back = 4

/-! ## Slices -/

variable {c : Char} {t t' front back name : Text} {env : Env} {out : List Text}

@[simp] theorem len_nil : len [] = 0 := rfl

@[simp] theorem len_cons : len (c :: t) = c.utf8Size + len t := by
  simp [len, Utf8.encode]

@[simp] theorem len_append : len (t ++ t') = len t + len t' := by
  induction t with
  | nil => simp
  | cons c t ih => simp [ih, Nat.add_assoc]

theorem sliceFrom_append (front back : Text) :
    sliceFrom (front ++ back) (len front) = some back := by
  induction front with
  | nil => cases back <;> rfl
  | cons c front ih =>
    have hpos := c.utf8Size_pos
    obtain ⟨n, hn⟩ : ∃ n, len (c :: front) = n + 1 := ⟨len (c :: front) - 1, by simp; omega⟩
    have hle : ¬ n + 1 < c.utf8Size := by
      rw [← hn, len_cons]
      omega
    have hrest : n + 1 - c.utf8Size = len front := by
      rw [← hn, len_cons]
      omega
    rw [hn, List.cons_append, sliceFrom, if_neg hle, hrest, ih]

theorem sliceFrom_eq_some {start : Nat} (h : sliceFrom t start = some back) :
    ∃ front, t = front ++ back ∧ len front = start := by
  induction t generalizing start with
  | nil =>
    cases start with
    | zero => exact ⟨[], Option.some.inj h, rfl⟩
    | succ start => exact absurd h (by simp [sliceFrom])
  | cons c t ih =>
    cases start with
    | zero => exact ⟨[], Option.some.inj h, rfl⟩
    | succ start =>
      rw [sliceFrom] at h
      split at h
      · exact absurd h (by simp)
      · obtain ⟨front, rfl, hlen⟩ := ih h
        refine ⟨c :: front, rfl, ?_⟩
        rw [len_cons]
        omega

/-- Two ends of the same length are the same end. -/
theorem eq_of_len_eq {front' back' : Text} (h : front ++ back = front' ++ back')
    (hlen : len back = len back') : back = back' := by
  have hfront : len front = len front' := by
    have := congrArg len h
    rw [len_append, len_append] at this
    omega
  have hslice := sliceFrom_append front back
  rw [h, hfront, sliceFrom_append] at hslice
  exact (Option.some.inj hslice).symm

/-! ## Extensions -/

theorem ascii_of_toLower (h : c.toLower.toNat < 0x80) : c.toNat < 0x80 := by
  unfold Char.toLower at h
  split at h
  · rename_i hupper
    exact Nat.lt_of_le_of_lt (UInt32.le_iff_toNat_le.mp hupper.2) (by decide)
  · exact h

theorem len_ascii (h : c.toNat < 0x80) : c.utf8Size = 1 := by
  have hencode := congrArg List.length (Utf8.encodeChar_ascii h)
  rwa [String.length_utf8EncodeChar] at hencode

theorem eqIgnore_iff : eqIgnoreAsciiCase t dotDll = true ↔ t.map Char.toLower = dotDll := by
  have hdll : dotDll.map Char.toLower = dotDll := by decide
  rw [eqIgnoreAsciiCase, hdll, beq_iff_eq]

theorem ext_shape (h : eqIgnoreAsciiCase t dotDll = true) : t.length = 4 ∧ len t = 4 ∧ '/' ∉ t := by
  have hmap := eqIgnore_iff.mp h
  have hlength : t.length = 4 := by simpa [dotDll] using congrArg List.length hmap
  have hsize : ∀ t' : Text, (∀ c ∈ t', c.toNat < 0x80) → len t' = t'.length := by
    intro t' ht'
    induction t' with
    | nil => rfl
    | cons c t' ih =>
      rw [List.forall_mem_cons] at ht'
      rw [len_cons, ih ht'.2, len_ascii ht'.1, List.length_cons, Nat.add_comm]
  have hascii : ∀ c ∈ dotDll, c.toNat < 0x80 := by simp [dotDll]
  refine ⟨hlength, ?_, ?_⟩
  · rw [hsize t, hlength]
    intro c hc
    exact ascii_of_toLower (hascii _ (hmap ▸ List.mem_map_of_mem hc))
  · intro hslash
    have hmem : Char.toLower '/' ∈ dotDll := hmap ▸ List.mem_map_of_mem hslash
    exact absurd hmem (by decide)

theorem endsInDll_iff :
    endsInDll t = true ↔ ∃ stem ext, t = stem ++ ext ∧ eqIgnoreAsciiCase ext dotDll = true := by
  constructor
  · intro h
    exact ⟨_, _, (List.take_append_drop (t.length - 4) t).symm, h⟩
  · rintro ⟨stem, ext, rfl, h⟩
    have hlen := (ext_shape h).1
    have hdrop : (stem ++ ext).drop ((stem ++ ext).length - 4) = ext := by
      rw [List.length_append, hlen, Nat.add_sub_cancel, List.drop_left]
    rw [endsInDll, hdrop]
    exact h

theorem hasExt_of_atChar (h : AtChar t) : hasExt t = some (endsInDll t) := by
  unfold hasExt
  rcases h with hshort | ⟨front, back, rfl, hback⟩
  · have hnot : endsInDll t = false := by
      by_contra hends
      rw [Bool.not_eq_false, endsInDll_iff] at hends
      obtain ⟨stem, ext, rfl, hext⟩ := hends
      rw [len_append, (ext_shape hext).2.1] at hshort
      omega
    rw [if_neg (by omega), hnot]
  · have hstart : len (front ++ back) - 4 = len front := by rw [len_append]; omega
    rw [if_pos (by rw [len_append]; omega), hstart, sliceFrom_append, Option.map_some]
    congr 1
    rw [Bool.eq_iff_iff, endsInDll_iff]
    constructor
    · intro hext
      exact ⟨front, back, rfl, hext⟩
    · rintro ⟨stem, ext, heq, hext⟩
      rwa [eq_of_len_eq heq (hback.trans (ext_shape hext).2.1.symm)]

theorem hasExt_of_not_atChar (h : ¬ AtChar t) : hasExt t = none := by
  unfold AtChar at h
  rw [not_or, Nat.not_lt] at h
  unfold hasExt
  rw [if_pos h.1]
  cases hslice : sliceFrom t (len t - 4) with
  | none => rfl
  | some back =>
    obtain ⟨front, rfl, hfront⟩ := sliceFrom_eq_some hslice
    rw [len_append] at hfront h
    exact absurd ⟨front, back, rfl, by omega⟩ h.2

/-! ## Paths -/

theorem map_toLower_slashed {ext : Text} (hback : '\\' ∉ ext) (hslash : '/' ∉ ext) :
    (slashed t).map Char.toLower = ext ↔ t.map Char.toLower = ext := by
  induction t generalizing ext with
  | nil => rfl
  | cons c t ih =>
    cases ext with
    | nil => simp [slashed]
    | cons e ext =>
      rw [List.mem_cons, not_or] at hback hslash
      have hrest := ih hback.2 hslash.2
      have hchar : (if c = '\\' then '/' else c).toLower = e ↔ c.toLower = e := by
        split
        · rename_i hc
          subst hc
          exact ⟨fun h => absurd h hslash.1, fun h => absurd h hback.1⟩
        · rfl
      simp only [slashed, List.map_cons, List.cons.injEq] at hrest ⊢
      rw [hchar, hrest]

theorem endsInDll_slashed (name : Text) : endsInDll (slashed name) = endsInDll name := by
  have hdrop : (slashed name).drop ((slashed name).length - 4) =
      slashed (name.drop (name.length - 4)) := by
    simp [slashed, List.map_drop]
  rw [Bool.eq_iff_iff, endsInDll, endsInDll, hdrop, eqIgnore_iff, eqIgnore_iff]
  exact map_toLower_slashed (by decide) (by decide)

theorem endsInDll_after_slash (front t : Text) :
    endsInDll (front ++ '/' :: t) = endsInDll t := by
  rw [Bool.eq_iff_iff, endsInDll_iff, endsInDll_iff]
  constructor
  · rintro ⟨stem, ext, heq, hext⟩
    rcases List.append_eq_append_iff.mp heq with ⟨mid, rfl, hmid⟩ | ⟨mid, rfl, hmid⟩
    · cases mid with
      | nil =>
        have hmem : '/' ∈ ext := by
          rw [← List.nil_append ext, ← hmid]
          exact List.mem_cons_self
        exact absurd hmem (ext_shape hext).2.2
      | cons c mid => exact ⟨mid, ext, (List.cons.inj hmid).2, hext⟩
    · have hmem : '/' ∈ ext := by
        rw [hmid]
        exact List.mem_append_right mid List.mem_cons_self
      exact absurd hmem (ext_shape hext).2.2
  · rintro ⟨stem, ext, rfl, hext⟩
    exact ⟨front ++ '/' :: stem, ext, by simp, hext⟩

theorem decodeLossy_join (dir : Path) (h : '/' ∉ name) :
    Utf8.decodeLossy (join dir name) = name ∨
      ∃ front, Utf8.decodeLossy (join dir name) = front ++ '/' :: name := by
  have hhead : name.head? ≠ some '/' := fun hhead => h (List.mem_of_head? hhead)
  have hslash : ∀ bytes : Path, Utf8.decodeLossy (bytes ++ 0x2F :: Utf8.encode name) =
      Utf8.decodeLossy bytes ++ '/' :: name := by
    intro bytes
    have hencode : 0x2F :: Utf8.encode name = Utf8.encode ('/' :: name) := rfl
    rw [hencode, Utf8.decodeLossy_append bytes (Utf8.fresh_encode _), Utf8.decodeLossy_encode]
  unfold join
  rw [if_neg hhead]
  by_cases hdir : dir = [] ∨ dir.getLast? = some 0x2F
  · rw [if_pos hdir]
    rcases hdir with rfl | hlast
    · exact Or.inl (Utf8.decodeLossy_encode name)
    · obtain ⟨front, rfl⟩ := List.getLast?_eq_some_iff.mp hlast
      right
      refine ⟨Utf8.decodeLossy front, ?_⟩
      rw [List.append_assoc, List.singleton_append, hslash]
  · rw [if_neg hdir]
    exact Or.inr ⟨Utf8.decodeLossy dir, hslash dir⟩

theorem endsInDll_base {base : Text} (h : base ∈ bases env name) :
    endsInDll base = endsInDll name := by
  unfold bases at h
  dsimp only at h
  split at h
  · rw [List.mem_singleton.mp h, endsInDll_slashed]
  · rename_i hslash
    obtain ⟨dir, -, rfl⟩ := List.mem_map.mp h
    rw [← endsInDll_slashed name]
    rcases decodeLossy_join dir hslash with hjoin | ⟨front, hjoin⟩
    · rw [hjoin]
    · rw [hjoin, endsInDll_after_slash]

/-! ## The searches -/

theorem pushCandidates_eq (out : List Text) (base : Text) :
    pushCandidates out base = (hasExt base).map fun ext =>
      out ++ base :: if ext then [] else [base ++ dotDll] := by
  unfold pushCandidates
  cases hasExt base with
  | none => rfl
  | some ext => cases ext <;> simp

theorem pushCandidates_all (bs : List Text) (out : List Text) (h : ∀ base ∈ bs, AtChar base) :
    bs.foldlM pushCandidates out =
      some (out ++ bs.flatMap fun base =>
        base :: if endsInDll base then [] else [base ++ dotDll]) := by
  induction bs generalizing out with
  | nil => simp
  | cons base bs ih =>
    rw [List.forall_mem_cons] at h
    rw [List.foldlM_cons, pushCandidates_eq, hasExt_of_atChar h.1, Option.map_some]
    refine (ih _ h.2).trans ?_
    rw [List.flatMap_cons, List.append_assoc]

theorem pushCandidates_panics (bs : List Text) (out : List Text) (h : ∃ base ∈ bs, ¬ AtChar base) :
    bs.foldlM pushCandidates out = none := by
  induction bs generalizing out with
  | nil => exact absurd h (by simp)
  | cons base bs ih =>
    rw [List.foldlM_cons, pushCandidates_eq]
    by_cases hbase : AtChar base
    · rw [hasExt_of_atChar hbase, Option.map_some]
      refine ih _ ?_
      obtain ⟨bad, hbad, hnot⟩ := h
      rcases List.mem_cons.mp hbad with rfl | hrest
      · exact absurd hbase hnot
      · exact ⟨bad, hrest, hnot⟩
    · rw [hasExt_of_not_atChar hbase]
      rfl

theorem candidatePaths_eq (env : Env) (name : Text) :
    candidatePaths env name = (bases env name).foldlM pushCandidates [] := by
  unfold candidatePaths bases
  dsimp only
  split
  · cases hpush : pushCandidates [] (slashed name) <;> simp [hpush]
  · rw [List.foldlM_map]

theorem importCandidates_eq (env : Env) (name : Text) :
    importCandidates env name = candidatePaths env name := by
  have hdirs : importDirs env = searchDirs env := by
    obtain ⟨exeDir, dllPath⟩ := env
    cases exeDir <;> cases dllPath <;> simp [importDirs, searchDirs]
  unfold importCandidates candidatePaths
  rw [hdirs]
  rfl

theorem candidatePaths_of_atChar (h : ∀ base ∈ bases env name, AtChar base) :
    candidatePaths env name = some (candidates env name) := by
  rw [candidatePaths_eq, pushCandidates_all _ _ h, List.nil_append, candidates]
  congr 1
  apply List.flatMap_congr
  intro base hbase
  rw [endsInDll_base hbase]

theorem atChar_of_endsInDll (h : endsInDll name = true) : ∀ base ∈ bases env name, AtChar base := by
  intro base hbase
  rw [← endsInDll_base hbase] at h
  obtain ⟨stem, ext, rfl, hext⟩ := endsInDll_iff.mp h
  exact Or.inr ⟨stem, ext, rfl, (ext_shape hext).2.1⟩

/-- **The searches for a DLL end, and find the same candidates, exactly if** no path has the fourth
    byte from its end inside a character. -/
theorem search_consistent_iff (lowercase : String → String) (env : Env) (name : Text) :
    Consistent lowercase env name ↔ ∀ base ∈ bases env name, AtChar base := by
  constructor
  · intro h
    by_contra hnot
    have hbad : ∃ base ∈ bases env name, ¬ AtChar base := by simpa using hnot
    have hload := h.load
    rw [candidatePaths_eq, pushCandidates_panics _ _ hbad] at hload
    exact absurd hload (by simp)
  · intro h
    have hload := candidatePaths_of_atChar h
    refine ⟨hload, ?_⟩
    intro found hfound
    unfold importSearch at hfound
    split at hfound
    · exact absurd hfound (by simp)
    · rw [← Option.some.inj hfound, importCandidates_eq, hload]

/-- `modé.so`: the `é` is two bytes, and the slice begins at the second. -/
theorem candidatePaths_accent :
    candidatePaths ⟨none, none⟩ ['m', 'o', 'd', 'é', '.', 's', 'o'] = none ∧
      importSearch id ⟨none, none⟩ ['m', 'o', 'd', 'é', '.', 's', 'o'] = some none := by
  decide

end SearchPaths

end WinCompat.Loader
