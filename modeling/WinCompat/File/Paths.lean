import Mathlib.Data.List.TakeWhile
import WinCompat.Lib.HostTree
import WinCompat.Lib.Utf16
import WinCompat.Lib.Utf8

/-!
# Paths of the host and of the guest

`win32-kernel32/src`: `create_file_w` and `open_path` of `file.rs`; `path_to_cstring`,
`create_directory_w`, `delete_file_w`, `copy_file_w`, `move_file_w` and `set_current_directory_w` of
`extras2.rs`; `get_current_directory_w` and `get_full_path_name_w` of `extras.rs`; `utf16_to_string`
of `string.rs`.

A path that is handed out has backslashes for slashes. A path that is handed in is given to the host
as it is, and to the host a backslash is a character of a name like any other.
-/

namespace WinCompat.File.Paths

open Lib Lib.Utf16 Lib.HostTree

abbrev Handle := BitVec 64

abbrev Text := List Char

/-- A pointer to NUL-terminated units: null, or the units that can be read there. -/
abbrev WStr := Option (List CodeUnit)

structure State where
  tree : Tree
  /-- `Object::File`: what each handle is open on. -/
  objects : Handle → Option Tree.Opened
  next : Handle
  lastError : BitVec 32

/-- `utf16_to_string` -/
def utf16ToString : WStr → Text
  | none => []
  | some units => decodeLossy (units.takeWhile (· ≠ 0))

/-- `CString::new` -/
def cstring (t : Text) : Option Path :=
  if '\x00' ∈ t then none else some (Utf8.encode t)

/-- `path_to_cstring` -/
def pathToCstring : WStr → Option Path
  | none => none
  | some units => cstring (utf16ToString (some units))

/-- `str::replace('/', "\\")` -/
def backslashed (t : Text) : Text := t.map fun c => if c = '/' then '\\' else c

/-! ## Paths handed out -/

/-- The units with a NUL are copied as far as there is room, and a NUL is put at the end. -/
def copyOut (units : List CodeUnit) (size : BitVec 32) : List CodeUnit × BitVec 32 :=
  let path := units ++ [0]
  let copyLen := min path.length size.toNat
  ((path.take copyLen).set (copyLen - 1) 0, BitVec.ofNat 32 (copyLen - 1))

namespace State

/-- The text of `current_dir().unwrap_or_default()`, with backslashes. -/
def currentDir (s : State) : List CodeUnit :=
  encode (backslashed (Utf8.decodeLossy (s.tree.getcwd.getD [])))

/-- `get_current_directory_w`: what is written to the buffer, and the result. -/
def getCurrentDirectoryW (s : State) (len : BitVec 32) (buf : Bool) : List CodeUnit × BitVec 32 :=
  if buf = false ∨ len = 0 then ([], BitVec.ofNat 32 s.currentDir.length)
  else copyOut s.currentDir len

end State

/-- `get_full_path_name_w` -/
def getFullPathNameW (name : WStr) (size : BitVec 32) (buf : Bool) : List CodeUnit × BitVec 32 :=
  if name = none ∨ buf = false ∨ size = 0 then ([], 0)
  else copyOut (encode (backslashed (utf16ToString name))) size

/-! ## Paths handed in -/

def invalidHandleValue : Handle := BitVec.allOnes 64

/-- `GENERIC_READ` and `GENERIC_WRITE` -/
def wants (right access : BitVec 32) : Bool := access &&& right != 0

/-- The flags of `open_path` for a creation disposition, with `O_WRONLY` if that is asked for. -/
def openFlags (desiredAccess creationDisposition : BitVec 32) : Option Tree.OpenFlags :=
  let write := wants 0x40000000 desiredAccess
  if creationDisposition = 1 then some ⟨write, true, true, false⟩
  else if creationDisposition = 2 then some ⟨write, true, false, true⟩
  else if creationDisposition = 3 then some ⟨write, false, false, false⟩
  else if creationDisposition = 4 then some ⟨write, true, false, false⟩
  else if creationDisposition = 5 then some ⟨write, false, false, true⟩
  else none

namespace State

def setLastError (s : State) (code : BitVec 32) : State := { s with lastError := code }

def setTree (s : State) (tree : Tree) : State := { s with tree }

/-- `open_file_handle` -/
def openFileHandle (s : State) (path : Path) (flags : Tree.OpenFlags) : Handle × State :=
  match s.tree.open_ path flags with
  | .error _ => (invalidHandleValue, s)
  | .ok (opened, tree) =>
      let objects := Function.update s.objects s.next (some opened)
      (s.next, { s with tree, objects, next := s.next + 1 })

/-- `open_path` -/
def openPath (s : State) (path : Text)
    (desiredAccess _shareMode creationDisposition _flagsAndAttrs : BitVec 32) : Handle × State :=
  if path = [] then (invalidHandleValue, s.setLastError 87)
  else
    match cstring path with
    | none => (invalidHandleValue, s.setLastError 87)
    | some cpath =>
        match openFlags desiredAccess creationDisposition with
        | none => (invalidHandleValue, s.setLastError 87)
        | some flags =>
            let r := s.openFileHandle cpath flags
            if r.1 = invalidHandleValue then (invalidHandleValue, r.2.setLastError 110) else r

/-- `create_file_w` -/
def createFileW (s : State) (fileName : WStr) (desiredAccess shareMode creationDisposition
    flagsAndAttrs : BitVec 32) : Handle × State :=
  s.openPath (utf16ToString fileName) desiredAccess shareMode creationDisposition flagsAndAttrs

/-- TRUE if the call on the host succeeds. -/
def onTree (s : State) (r : Except Errno Tree) : Bool × State :=
  match r with
  | .error _ => (false, s)
  | .ok tree => (true, s.setTree tree)

/-- `create_directory_w` -/
def createDirectoryW (s : State) (path : WStr) : Bool × State :=
  match pathToCstring path with
  | none => (false, s)
  | some cstr => s.onTree (s.tree.mkdir cstr)

/-- `delete_file_w` -/
def deleteFileW (s : State) (path : WStr) : Bool × State :=
  match pathToCstring path with
  | none => (false, s)
  | some cstr => s.onTree (s.tree.unlink cstr)

/-- `copy_file_w`. Its loop copies all there is to read; a directory cannot be read. -/
def copyFileW (s : State) (src dst : WStr) (failIfExists : BitVec 32) : Bool × State :=
  match pathToCstring src, pathToCstring dst with
  | some srcC, some dstC =>
      if failIfExists ≠ 0 ∧ s.tree.exists_ dstC then (false, s)
      else
        match s.tree.open_ srcC ⟨false, false, false, false⟩ with
        | .error _ => (false, s)
        | .ok (source, tree) =>
            match tree.open_ dstC ⟨true, true, false, true⟩ with
            | .ok (.file n, tree) =>
                match source with
                | .file k => (true, s.setTree (tree.setContents n (tree.contents k)))
                | .dir _ => (false, s.setTree tree)
            | _ => (false, s)
  | _, _ => (false, s)

/-- `move_file_w` -/
def moveFileW (s : State) (src dst : WStr) : Bool × State :=
  match pathToCstring src, pathToCstring dst with
  | some srcC, some dstC => s.onTree (s.tree.rename srcC dstC)
  | _, _ => (false, s)

/-- `set_current_directory_w` -/
def setCurrentDirectoryW (s : State) (path : WStr) : Bool × State :=
  match pathToCstring path with
  | none => (false, s)
  | some cstr => s.onTree (s.tree.chdir cstr)

end State

/-! ## Handing a path back -/

/-- The calls, each with all but one of its paths. -/
inductive Use
  | createFile (desiredAccess shareMode creationDisposition flagsAndAttrs : BitVec 32)
  | deleteFile
  | copyFrom (dst : WStr) (failIfExists : BitVec 32)
  | copyTo (src : WStr) (failIfExists : BitVec 32)
  | moveFrom (dst : WStr)
  | moveTo (src : WStr)
  | createDirectory

inductive Result
  | handle (h : Handle)
  | bool (b : Bool)
  deriving DecidableEq

def State.perform (s : State) (p : WStr) : Use → Result × State
  | .createFile access share disposition attrs =>
      (s.createFileW p access share disposition attrs).map .handle id
  | .deleteFile => (s.deleteFileW p).map .bool id
  | .copyFrom dst failIfExists => (s.copyFileW p dst failIfExists).map .bool id
  | .copyTo src failIfExists => (s.copyFileW src p failIfExists).map .bool id
  | .moveFrom dst => (s.moveFileW p dst).map .bool id
  | .moveTo src => (s.moveFileW src p).map .bool id
  | .createDirectory => (s.createDirectoryW p).map .bool id

def slashUnit : CodeUnit := 0x2F

def backslashUnit : CodeUnit := 0x5C

/-- Slashes for backslashes and backslashes for slashes. -/
def exchanged (p : List CodeUnit) : List CodeUnit :=
  p.map fun u => if u = slashUnit then backslashUnit else if u = backslashUnit then slashUnit else u

/-- A path that begins neither at a root nor at a drive, and whose length a DWORD can count. -/
structure Relative (p : List CodeUnit) : Prop where
  ne_nil : p ≠ []
  noNul : 0 ∉ p
  slash : p.head? ≠ some slashUnit
  backslash : p.head? ≠ some backslashUnit
  drive : p[1]? ≠ some 0x3A
  length : p.length + 1 < 2 ^ 32

/-- The other spellings of a path. Where a path is handed out, the buffer has room for it. -/
inductive State.Spelling (s : State) (p : List CodeUnit) : List CodeUnit → Prop
  | exchanged : State.Spelling s p (exchanged p)
  | full {size : BitVec 32} (hsize : p.length < size.toNat) :
      State.Spelling s p ((getFullPathNameW (some p) size true).1.takeWhile (· ≠ 0))
  | joined {len : BitVec 32} (hlen : s.currentDir.length < len.toNat) :
      State.Spelling s p
        ((s.getCurrentDirectoryW len true).1.takeWhile (· ≠ 0) ++ backslashUnit :: p)

/-- Every call does the same with each spelling of the path. -/
def State.Alike (s : State) (p : List CodeUnit) : Prop :=
  ∀ p', s.Spelling p p' → ∀ use, s.perform (some p) use = s.perform (some p') use

/-- The current directory can be set to what it is said to be, and stays what it is. -/
def State.KeepsDirectory (s : State) : Prop :=
  ∀ len : BitVec 32, s.currentDir.length < len.toNat →
    s.setCurrentDirectoryW (some (s.getCurrentDirectoryW len true).1) = (true, s)

/-- What the host is given for a directory that it has as `path`. -/
def backslashedBytes (path : Path) : Path := Utf8.encode (backslashed (Utf8.decodeLossy path))

/-- What is handed out can be handed back. -/
structure State.HandsBack (s : State) : Prop where
  cwd : ∀ path, s.tree.getcwd = some path → 92 ∉ path → s.KeepsDirectory
  paths : ∀ p, Relative p → s.Alike p

/-! ## Texts and units -/

variable {s : State} {t : Text} {us : List CodeUnit}

theorem nul_mem_decodeLossy : '\x00' ∈ decodeLossy us ↔ 0 ∈ us :=
  @charOf_mem_decodeLossy_iff 0 us (by decide) (by decide)

theorem slash_mem_decodeLossy : '/' ∈ decodeLossy us ↔ slashUnit ∈ us :=
  @charOf_mem_decodeLossy_iff slashUnit us (by decide) (by decide)

theorem slash_not_mem_backslashed (t : Text) : '/' ∉ backslashed t := by
  intro h
  obtain ⟨c, -, hc⟩ := List.mem_map.mp h
  split at hc
  · cases hc
  · rename_i hother
    exact hother hc

theorem backslash_mem_backslashed (h : '/' ∈ t) : '\\' ∈ backslashed t :=
  List.mem_map.mpr ⟨'/', h, rfl⟩

theorem nul_mem_backslashed (h : '\x00' ∉ t) : '\x00' ∉ backslashed t := by
  intro hmem
  obtain ⟨c, hc, hnul⟩ := List.mem_map.mp hmem
  split at hnul
  · cases hnul
  · exact h (hnul ▸ hc)

theorem units_backslashed (t : Text) :
    (encode (backslashed t)).length = (encode t).length := by
  apply length_encode_map
  intro c
  by_cases h : c = '/'
  · rw [if_pos h, h]
    rfl
  · rw [if_neg h]

theorem bytes_backslashed (t : Text) :
    (Utf8.encode (backslashed t)).length = (Utf8.encode t).length := by
  apply Utf8.length_encode_map
  intro c
  by_cases h : c = '/'
  · rw [if_pos h, h]
    rfl
  · rw [if_neg h]

theorem takeWhile_of_noNul (h : 0 ∉ us) : us.takeWhile (· ≠ 0) = us := by
  apply List.takeWhile_eq_self_iff.mpr
  intro u hu
  exact decide_eq_true fun heq => h (heq ▸ hu)

theorem takeWhile_append_nul (h : 0 ∉ us) (rest : List CodeUnit) :
    (us ++ 0 :: rest).takeWhile (· ≠ 0) = us := by
  rw [List.takeWhile_append, takeWhile_of_noNul h, if_pos rfl]
  simp

theorem zero_not_mem_takeWhile : 0 ∉ us.takeWhile (· ≠ 0) := by
  intro h
  simpa using List.mem_takeWhile_imp h

/-- There is room for the NUL too. -/
theorem copyOut_of_room {size : BitVec 32} (h : us.length < size.toNat) :
    (copyOut us size).1 = us ++ [0] := by
  have hlen : min (us ++ [0]).length size.toNat = (us ++ [0]).length := by
    rw [List.length_append]
    exact Nat.min_eq_left h
  unfold copyOut
  dsimp only
  rw [hlen, List.take_length]
  simp

/-! ## What the host is given -/

theorem cstring_of_noNul (h : '\x00' ∉ t) : cstring t = some (Utf8.encode t) := if_neg h

theorem utf16ToString_of_noNul (h : 0 ∉ us) : utf16ToString (some us) = decodeLossy us :=
  congrArg decodeLossy (takeWhile_of_noNul h)

theorem pathToCstring_of_noNul (h : 0 ∉ us) :
    pathToCstring (some us) = some (Utf8.encode (decodeLossy us)) := by
  unfold pathToCstring
  dsimp only
  rw [utf16ToString_of_noNul h, cstring_of_noNul fun hnul => h (nul_mem_decodeLossy.mp hnul)]

theorem zero_not_mem_encode (h : '\x00' ∉ t) : 0 ∉ encode t :=
  fun hmem => h (@charOf_mem_of_mem_encode 0 t (by decide) hmem)

theorem pathToCstring_encode (h : '\x00' ∉ t) :
    pathToCstring (some (encode t ++ [0])) = some (Utf8.encode t) := by
  have htext : utf16ToString (some (encode t ++ [0])) = t :=
    (congrArg decodeLossy (takeWhile_append_nul (zero_not_mem_encode h) [])).trans
      (decodeLossy_encode t)
  unfold pathToCstring
  dsimp only
  rw [htext, cstring_of_noNul h]

theorem isName_encode (hslash : '/' ∉ t) (hback : '\\' ∈ t) : Tree.IsName (Utf8.encode t) := by
  have hmem : 92 ∈ Utf8.encode t := (@Utf8.mem_encode '\\' t (by decide)).mpr hback
  refine ⟨?_, ?_, ?_, ?_⟩
  · exact List.ne_nil_of_mem hmem
  · exact fun h => hslash ((@Utf8.mem_encode '/' t (by decide)).mp h)
  · exact fun h => absurd (h ▸ hmem) (by decide)
  · exact fun h => absurd (h ▸ hmem) (by decide)

/-! ## Two paths told apart -/

variable {p p' : WStr} {path name : Path}

theorem onTree_ok {r : Except Errno Tree} {tree : Tree}
    (h : (s.onTree r).map Result.bool id = (s.onTree (.ok tree)).map Result.bool id) :
    r = .ok tree := by
  unfold State.onTree at h
  cases r with
  | error e => cases (Prod.mk.inj h).1
  | ok tree' => exact congrArg Except.ok (congrArg State.tree (Prod.mk.inj h).2)

theorem perform_ne (hp : pathToCstring p = some path) (hp' : pathToCstring p' = some name)
    (hname : Tree.IsName name) (hlast : (components path).getLast? ≠ some name) :
    ∃ use, s.perform p use ≠ s.perform p' use := by
  cases hnode : s.tree.lookup s.tree.cwd name with
  | none =>
    have hmkdir := Tree.mkdir_ne hname hlast hnode
    refine ⟨.createDirectory, fun halike => hmkdir.2 (@onTree_ok s _ _ ?_)⟩
    simpa [State.perform, State.createDirectoryW, hp, hp', hmkdir.1] using halike
  | some node =>
    by_cases hdir : ∃ n, node = .dir n
    · obtain ⟨n, rfl⟩ := hdir
      have hrename := Tree.rename_ne hname hlast hnode
      refine ⟨.moveFrom p', fun halike => hrename.2 (@onTree_ok s _ _ ?_)⟩
      simpa [State.perform, State.moveFileW, hp, hp', hrename.1] using halike
    · have hunlink := Tree.unlink_ne hname hlast hnode fun n heq => hdir ⟨n, heq⟩
      refine ⟨.deleteFile, fun halike => hunlink.2 (@onTree_ok s _ _ ?_)⟩
      simpa [State.perform, State.deleteFileW, hp, hp', hunlink.1] using halike

/-! ## No path can be handed back -/

variable {us : List CodeUnit}

theorem toNat_ofNat_succ {n : Nat} (h : n + 1 < 2 ^ 32) : n < (BitVec.ofNat 32 (n + 1)).toNat := by
  rw [BitVec.toNat_ofNat, Nat.mod_eq_of_lt h]
  exact Nat.lt_succ_self n

theorem getFullPathNameW_of_room (h : 0 ∉ us) {size : BitVec 32} (hsize : us.length < size.toNat) :
    (getFullPathNameW (some us) size true).1 = encode (backslashed (decodeLossy us)) ++ [0] := by
  have hunits : (encode (backslashed (decodeLossy us))).length = us.length := by
    rw [units_backslashed, encode_decodeLossy, length_repair]
  have hzero : size ≠ 0 := by
    intro heq
    rw [heq] at hsize
    exact Nat.not_lt_zero _ hsize
  have hargs : ¬ (some us = none ∨ true = false ∨ size = 0) := by
    rintro (hnone | hbuf | hsize)
    · cases hnone
    · cases hbuf
    · exact hzero hsize
  unfold getFullPathNameW
  rw [if_neg hargs, utf16ToString_of_noNul h, copyOut_of_room (hunits ▸ hsize)]

theorem getCurrentDirectoryW_of_room {len : BitVec 32} (h : s.currentDir.length < len.toNat) :
    (s.getCurrentDirectoryW len true).1 = s.currentDir ++ [0] := by
  have hargs : ¬ (true = false ∨ len = 0) := by
    rintro (hbuf | hzero)
    · cases hbuf
    · rw [hzero] at h
      exact Nat.not_lt_zero _ h
  unfold State.getCurrentDirectoryW
  rw [if_neg hargs, copyOut_of_room h]

theorem full_ne (h : Relative us) (hslash : slashUnit ∈ us) : ¬ s.Alike us := by
  intro halike
  have htext : '/' ∈ decodeLossy us := slash_mem_decodeLossy.mpr hslash
  have hnul : '\x00' ∉ backslashed (decodeLossy us) :=
    nul_mem_backslashed fun hmem => h.noNul (nul_mem_decodeLossy.mp hmem)
  have hfull := halike _ (.full (toNat_ofNat_succ h.length))
  rw [getFullPathNameW_of_room h.noNul (toNat_ofNat_succ h.length),
    takeWhile_append_nul (zero_not_mem_encode hnul)] at hfull
  have hname := isName_encode (slash_not_mem_backslashed _) (backslash_mem_backslashed htext)
  have hcstring : pathToCstring (some (encode (backslashed (decodeLossy us)))) =
      some (Utf8.encode (backslashed (decodeLossy us))) := by
    rw [pathToCstring_of_noNul (zero_not_mem_encode hnul), decodeLossy_encode]
  obtain ⟨use, hne⟩ := @perform_ne s _ _ _ _ (pathToCstring_of_noNul h.noNul) hcstring hname (by
    intro hlast
    have hlt := Tree.length_of_mem_components (List.mem_of_getLast? hlast)
      ((@Utf8.mem_encode '/' _ (by decide)).mpr htext)
    rw [bytes_backslashed] at hlt
    exact Nat.lt_irrefl _ hlt)
  exact hne (hfull use)

theorem joined_ne (hroom : s.currentDir.length + 1 < 2 ^ 32) (h : Relative us)
    (hslash : slashUnit ∉ us) : ¬ s.Alike us := by
  intro halike
  have hjoined := halike _ (.joined (toNat_ofNat_succ hroom))
  generalize hdir : (s.getCurrentDirectoryW _ true).1.takeWhile (· ≠ 0) = dir at hjoined
  have hdirSlash : slashUnit ∉ dir := by
    intro hmem
    rw [← hdir, getCurrentDirectoryW_of_room (toNat_ofNat_succ hroom)] at hmem
    rcases List.mem_append.mp ((List.takeWhile_sublist _).subset hmem) with hmem | hmem
    · exact slash_not_mem_backslashed _ (@charOf_mem_of_mem_encode slashUnit _ (by decide) hmem)
    · cases List.mem_singleton.mp hmem
  have hnul : 0 ∉ dir ++ backslashUnit :: us := by
    intro hmem
    rcases List.mem_append.mp hmem with hmem | hmem
    · exact zero_not_mem_takeWhile (hdir ▸ hmem)
    · rcases List.mem_cons.mp hmem with hback | hmem
      · cases hback
      · exact h.noNul hmem
  have htext : decodeLossy (dir ++ backslashUnit :: us) =
      decodeLossy dir ++ '\\' :: decodeLossy us := decodeLossy_append_cons (by decide) dir us
  have hname : Tree.IsName (Utf8.encode (decodeLossy dir ++ '\\' :: decodeLossy us)) := by
    apply isName_encode
    · rw [← htext, slash_mem_decodeLossy, List.mem_append, List.mem_cons]
      rintro (hmem | hback | hmem)
      · exact hdirSlash hmem
      · cases hback
      · exact hslash hmem
    · exact List.mem_append_right _ List.mem_cons_self
  have hne : decodeLossy us ≠ [] := fun hnil => h.ne_nil (decodeLossy_eq_nil.mp hnil)
  have hpath : components (Utf8.encode (decodeLossy us)) = [Utf8.encode (decodeLossy us)] :=
    Tree.components_of_noSlash (Utf8.encode_ne_nil hne) fun hmem =>
      hslash (slash_mem_decodeLossy.mp ((@Utf8.mem_encode '/' _ (by decide)).mp hmem))
  obtain ⟨use, hne⟩ := @perform_ne s _ _ _ _ (pathToCstring_of_noNul h.noNul)
    (pathToCstring_of_noNul hnul) (htext ▸ hname) (by
      intro hlast
      rw [hpath, List.getLast?_singleton, Option.some_inj, htext, Utf8.encode_append] at hlast
      have hlen := congrArg List.length hlast
      have hback : Utf8.encode ('\\' :: decodeLossy us) = 92 :: Utf8.encode (decodeLossy us) := rfl
      rw [List.length_append, hback, List.length_cons] at hlen
      omega)
  exact hne (hjoined use)

theorem keepsDirectory_iff (hroom : s.currentDir.length + 1 < 2 ^ 32)
    (hcwd : s.tree.getcwd = some path) (hnul : '\x00' ∉ Utf8.decodeLossy path) :
    s.KeepsDirectory ↔ s.tree.LeadsTo (backslashedBytes path) s.tree.cwd := by
  obtain ⟨rest, rfl⟩ := Tree.getcwd_slash hcwd
  have hslash : '/' ∈ Utf8.decodeLossy (slash :: rest) := List.mem_cons_self
  have hname : Tree.IsName (backslashedBytes (slash :: rest)) :=
    isName_encode (slash_not_mem_backslashed _) (backslash_mem_backslashed hslash)
  have hset {len : BitVec 32} (hlen : s.currentDir.length < len.toNat) :
      s.setCurrentDirectoryW (some (s.getCurrentDirectoryW len true).1) =
        s.onTree (s.tree.chdir (backslashedBytes (slash :: rest))) := by
    have hdir : s.currentDir = encode (backslashed (Utf8.decodeLossy (slash :: rest))) := by
      rw [State.currentDir, hcwd, Option.getD_some]
    rw [getCurrentDirectoryW_of_room hlen, hdir, State.setCurrentDirectoryW,
      pathToCstring_encode (nul_mem_backslashed hnul)]
    rfl
  rw [← Tree.chdir_self_iff hname]
  constructor
  · intro hkeeps
    have hself := hkeeps _ (toNat_ofNat_succ hroom)
    rw [hset (toNat_ofNat_succ hroom)] at hself
    exact @onTree_ok s _ _ (congrArg (Prod.map Result.bool id) hself)
  · intro hself len hlen
    exact (hset hlen).trans (congrArg s.onTree hself)

/-- What is handed out can be handed back in no state. In a current directory that a buffer has room
    for, it goes wrong with every path, and with the directory itself unless that has an entry with
    its own backslashed path for a name which leads back to it. -/
theorem handsBack_never (s : State) :
    ¬ s.HandsBack ∧ (s.currentDir.length + 1 < 2 ^ 32 →
      (∀ p, Relative p → ¬ s.Alike p) ∧
      ∀ path, s.tree.getcwd = some path → '\x00' ∉ Utf8.decodeLossy path →
        (s.KeepsDirectory ↔ s.tree.LeadsTo (backslashedBytes path) s.tree.cwd)) := by
  refine ⟨?_, fun hroom => ⟨?_, fun path => keepsDirectory_iff hroom⟩⟩
  · intro h
    have hrelative : Relative [0x61, slashUnit] :=
      ⟨by decide, by decide, by decide, by decide, by decide, by decide⟩
    exact full_ne hrelative (by decide) (h.paths _ hrelative)
  · intro p h
    by_cases hslash : slashUnit ∈ p
    · exact full_ne h hslash
    · exact joined_ne hroom h hslash

/-- A process in the directory `/home/u`, which has nothing in it. -/
def home : State where
  tree :=
    let empty : Tree := ⟨[], fun _ => root, root, fun _ => [], 1, nofun, nofun⟩
    let u := (empty.addDir root (Utf8.encode "home".toList)).addDir 1 (Utf8.encode "u".toList)
    { u with cwd := 2 }
  objects _ := none
  next := 0x100
  lastError := 0

/-- It cannot go to `\home\u`, where it says that it is. -/
theorem home_not_handsBack : ¬ home.HandsBack := by
  intro h
  have hkeeps := h.cwd (Utf8.encode "/home/u".toList) (by decide) (by decide) 260 (by decide)
  exact absurd (congrArg Prod.fst hkeeps) (by decide)

end WinCompat.File.Paths
