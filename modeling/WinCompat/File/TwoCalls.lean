import WinCompat.File.Paths

/-!
# Asking for a path in two calls

A caller that does not know how long a path is asks with an empty buffer, allocates what it is told
and calls again. `get_current_directory_w`, `get_system_directory_w`, `get_windows_directory_w`,
`get_temp_path_w` and `get_full_path_name_w` of `win32-kernel32/src/extras.rs` (with
`write_dummy_path_w`), and `get_short_path_name_w` and `get_temp_path_w` of `extras2.rs` (with
`write_path_w`), answer with the length of the path alone or with 0, and cut the path to the room
that there is. So the second call never gives the path (`two_calls_iff`).
-/

namespace WinCompat.File.Paths

open Lib.Utf16

/-- What is written to the buffer, and the result. -/
abbrev Answer := List CodeUnit × BitVec 32

/-- `write_dummy_path_w` and `write_path_w` -/
def writePath (path : Text) (buf : Bool) (size : BitVec 32) : Answer :=
  if buf = false ∨ size = 0 then ([], BitVec.ofNat 32 (encode path).length)
  else copyOut (encode path) size

/-- `get_system_directory_w` -/
def getSystemDirectoryW (buf : Bool) (size : BitVec 32) : Answer :=
  writePath "C:\\Windows\\System32".toList buf size

/-- `get_windows_directory_w` -/
def getWindowsDirectoryW (buf : Bool) (size : BitVec 32) : Answer :=
  writePath "C:\\Windows".toList buf size

/-- `get_temp_path_w` of `extras.rs` -/
def getTempPathW (size : BitVec 32) (buf : Bool) : Answer := writePath "C:\\Temp\\".toList buf size

/-- `get_temp_path_w` of `extras2.rs` -/
def getTempPathW' (len : BitVec 32) (buf : Bool) : Answer := writePath "C:\\tmp\\".toList buf len

/-- `get_short_path_name_w` -/
def getShortPathNameW (path : WStr) (buf : Bool) (len : BitVec 32) : Answer :=
  if path = none then ([], 0) else writePath (utf16ToString path) buf len

/-- A call that is to return a string. -/
inductive Query
  | currentDirectory (s : State)
  | tempPath
  | tempPath'
  | fullPathName (name : List CodeUnit)
  | shortPathName (path : List CodeUnit)
  | systemDirectory
  | windowsDirectory

namespace Query

def call : Query → Bool → BitVec 32 → Answer
  | currentDirectory s, buf, n => s.getCurrentDirectoryW n buf
  | tempPath, buf, n => getTempPathW n buf
  | tempPath', buf, n => getTempPathW' n buf
  | fullPathName name, buf, n => getFullPathNameW (some name) n buf
  | shortPathName path, buf, n => getShortPathNameW (some path) buf n
  | systemDirectory, buf, n => getSystemDirectoryW buf n
  | windowsDirectory, buf, n => getWindowsDirectoryW buf n

/-- The string that is to be returned. -/
def units : Query → List CodeUnit
  | currentDirectory s => s.currentDir
  | tempPath => encode "C:\\Temp\\".toList
  | tempPath' => encode "C:\\tmp\\".toList
  | fullPathName name => encode (backslashed (utf16ToString (some name)))
  | shortPathName path => encode (utf16ToString (some path))
  | systemDirectory => encode "C:\\Windows\\System32".toList
  | windowsDirectory => encode "C:\\Windows".toList

/-- The string and its NUL are in the buffer, and the result is its length. -/
def Written (q : Query) (buf : Bool) (n : BitVec 32) : Prop :=
  buf = true ∧ q.units.length < n.toNat ∧ (q.call buf n).1 = q.units ++ [0] ∧
    (q.call buf n).2.toNat = q.units.length

/-- The result is the room that is needed, and that is more than there is. -/
def Asked (q : Query) (buf : Bool) (n : BitVec 32) : Prop :=
  (q.call buf n).2.toNat = q.units.length + 1 ∧ n.toNat < (q.call buf n).2.toNat

/-- The contract of one call. -/
def Answers (q : Query) (buf : Bool) (n : BitVec 32) : Prop := q.Written buf n ∨ q.Asked buf n

/-- A query, and then a call with as much room as it asked for. -/
def Obtains (q : Query) (buf : Bool) : Prop := q.Written true (q.call buf 0).2

/-! ## Any of them -/

/-- The answer to a query: the length, or for `get_full_path_name_w` nothing. -/
def answer (q : Query) : BitVec 32 :=
  match q with
  | fullPathName _ => 0
  | _ => BitVec.ofNat 32 q.units.length

theorem call_eq (q : Query) (buf : Bool) (n : BitVec 32) :
    q.call buf n = if buf = false ∨ n = 0 then ([], q.answer) else copyOut q.units n := by
  cases q with
  | fullPathName name =>
    have hcond : (some name = none ∨ buf = false ∨ n = 0) ↔ (buf = false ∨ n = 0) := by simp
    simp only [call, getFullPathNameW, hcond]
    rfl
  | shortPathName path =>
    simp only [call, getShortPathNameW, reduceCtorEq, if_false]
    rfl
  | _ => rfl

theorem answer_toNat_le (q : Query) : q.answer.toNat ≤ q.units.length := by
  have hmod : (BitVec.ofNat 32 q.units.length).toNat ≤ q.units.length := by
    rw [BitVec.toNat_ofNat]
    exact Nat.mod_le _ _
  cases q with
  | fullPathName name => exact Nat.zero_le _
  | _ => exact hmod

theorem copyOut_result {us : List CodeUnit} {n : BitVec 32} (hn : n ≠ 0) :
    (copyOut us n).2.toNat = min us.length (n.toNat - 1) := by
  have hpos : 0 < n.toNat := Nat.pos_of_ne_zero fun h => hn (BitVec.eq_of_toNat_eq h)
  have hlt := n.isLt
  unfold copyOut
  dsimp only
  rw [BitVec.toNat_ofNat, List.length_append, List.length_singleton, Nat.mod_eq_of_lt (by omega)]
  omega

/-- Room for the string and its NUL. -/
def Room (q : Query) (buf : Bool) (n : BitVec 32) : Prop := buf = true ∧ q.units.length < n.toNat

theorem written_of_room {q : Query} {buf : Bool} {n : BitVec 32} (h : q.Room buf n) :
    q.Written buf n := by
  obtain ⟨hbuf, hn⟩ := h
  have hne : n ≠ 0 := by
    rintro rfl
    exact absurd hn (Nat.not_lt_zero _)
  have hcall : q.call buf n = copyOut q.units n := by
    rw [call_eq, if_neg]
    rintro (hnone | hzero)
    · exact absurd (hbuf.symm.trans hnone) (by decide)
    · exact hne hzero
  refine ⟨hbuf, hn, ?_, ?_⟩
  · rw [hcall, copyOut_of_room hn]
  · rw [hcall, copyOut_result hne]
    omega

/-- What is asked for is never what is needed. -/
theorem not_asked (q : Query) (buf : Bool) (n : BitVec 32) : ¬ q.Asked buf n := by
  rintro ⟨hneeded, hmore⟩
  rw [call_eq] at hneeded hmore
  split at hneeded
  · have hle := q.answer_toNat_le
    dsimp only at hneeded
    omega
  · rename_i hsome
    have hne : n ≠ 0 := fun hzero => hsome (Or.inr hzero)
    rw [copyOut_result hne] at hneeded
    omega

/-- **A call keeps the contract exactly if** it has a buffer with room for the string and its NUL.
    A caller that asks for the length and calls again does not get the string. -/
theorem two_calls_iff (q : Query) (buf : Bool) (n : BitVec 32) :
    (q.Answers buf n ↔ q.Room buf n) ∧ ¬ q.Obtains buf := by
  constructor
  · constructor
    · rintro (hwritten | hasked)
      · exact ⟨hwritten.1, hwritten.2.1⟩
      · exact absurd hasked (q.not_asked buf n)
    · intro h
      exact Or.inl (written_of_room h)
  · intro h
    have hlt := h.2.1
    rw [call_eq, if_pos (Or.inr rfl)] at hlt
    exact absurd q.answer_toNat_le (Nat.not_le.mpr hlt)

/-- The Windows directory has 10 units: that is the answer, and in a buffer of 10 the last is cut
    off. -/
theorem windowsDirectory_cut :
    windowsDirectory.call false 0 = ([], 10) ∧
      windowsDirectory.call true 10 = (encode "C:\\Window".toList ++ [0], 9) := by
  decide

end Query

end WinCompat.File.Paths
