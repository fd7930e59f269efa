import WinCompat.File.Position

/-!
# The contract of SetFilePointer

A position has 64 bits and the result 32. A caller that gives no pointer to a high word is to be
refused a position that does not fit, and one whose position ends in `0xFFFFFFFF` looks at the last
error. `set_file_pointer` of `win32-kernel32/src/file.rs` moves to any position that the host
allows, and leaves the last error as it was when it succeeds (`contract_iff`).
-/

namespace WinCompat.File

open Lib.Descriptors Handles

/-- A distance in one word or two. -/
def distanceOf (low : BitVec 32) : Option (BitVec 32) → Int
  | none => low.toInt
  | some high => (high ++ low).toInt

/-- The last position that can be returned in one word. -/
def lastLow : Nat := 2 ^ 32 - 2

namespace State

/-- The description that a call is to move, and the position: base and distance, if that is a
    position in the file. -/
def target (s : State) (h : Handle) (distance : BitVec 32) (distanceHigh : Option (BitVec 32))
    (moveMethod : BitVec 32) : Option (Nat × Nat) := do
  let fd ← s.resolveFd h
  let whence ← whenceOf moveMethod
  let n ← s.files.table fd
  match (s.files.descriptions n).target with
  | .stream _ => none
  | .file k =>
      let pos := (whence.base (s.files.descriptions n) (s.files.regular k) : Int) +
        distanceOf distance distanceHigh
      if 0 ≤ pos ∧ pos ≤ (s.files.regular k).limit then some (n, pos.toNat) else none

/-- The file is at `pos` and nothing else has changed, the words of `pos` are returned, and a low
    word that is also that of a failure comes with `NO_ERROR`. -/
structure Moved (s : State) (n pos : Nat) (high : Bool) (r : Words × State) : Prop where
  low : r.1.low.toNat = pos % 2 ^ 32
  high : r.1.high = if high then some (BitVec.ofNat 32 (pos / 2 ^ 32)) else none
  host : r.2.toHost = { s.toHost with files := s.files.setOffset n pos }
  told : r.1.low = BitVec.allOnes 32 → r.2.lastError = 0

/-- Nothing has changed, nothing is written, and there is an error. -/
structure Failed (s : State) (r : Words × State) : Prop where
  result : r.1 = .invalid
  host : r.2.toHost = s.toHost
  told : r.2.lastError ≠ 0

/-- The contract: without a pointer, only to a position that fits into one word. -/
def Contract (s : State) (h : Handle) (distance : BitVec 32) (distanceHigh : Option (BitVec 32))
    (moveMethod : BitVec 32) : Prop :=
  let r := s.setFilePointer h distance distanceHigh moveMethod
  match s.target h distance distanceHigh moveMethod with
  | none => s.Failed r
  | some (n, pos) =>
      if distanceHigh = none ∧ lastLow < pos then s.Failed r
      else s.Moved n pos distanceHigh.isSome r

/-! ## The words of a position -/

theorem offsetOf_toInt (low : BitVec 32) (high : Option (BitVec 32)) :
    (offsetOf low high).toInt = distanceOf low high := by
  cases high with
  | none => exact BitVec.toInt_signExtend_of_le (by decide)
  | some high =>
    rw [offsetOf_some]
    rfl

variable {s : State} {h : Handle} {distance : BitVec 32} {distanceHigh : Option (BitVec 32)}
  {moveMethod : BitVec 32} {n pos : Nat}

theorem split_words (hpos : pos < 2 ^ 63) (high : Bool) :
    (Words.split (BitVec.ofNat 64 pos) high).low.toNat = pos % 2 ^ 32 ∧
      (Words.split (BitVec.ofNat 64 pos) high).high =
        if high then some (BitVec.ofNat 32 (pos / 2 ^ 32)) else none := by
  have htoNat : (BitVec.ofNat 64 pos).toNat = pos := by
    rw [BitVec.toNat_ofNat, Nat.mod_eq_of_lt (by omega)]
  constructor
  · rw [Words.split, BitVec.toNat_setWidth, htoNat]
  · have hword : (BitVec.ofNat 64 pos >>> 32).setWidth 32 = BitVec.ofNat 32 (pos / 2 ^ 32) := by
      apply BitVec.eq_of_toNat_eq
      rw [BitVec.toNat_setWidth, BitVec.toNat_ushiftRight, htoNat, BitVec.toNat_ofNat,
        Nat.shiftRight_eq_div_pow]
    rw [Words.split, hword]

theorem allOnes_iff {low : BitVec 32} (hlow : low.toNat = pos % 2 ^ 32) :
    low = BitVec.allOnes 32 ↔ pos % 2 ^ 32 = 2 ^ 32 - 1 := by
  rw [← hlow, ← BitVec.toNat_inj, BitVec.toNat_allOnes]

/-! ## The call -/

/-- The error of a call that fails: a method that there is not, or anything else. -/
def failure (s : State) (h : Handle) (moveMethod : BitVec 32) : BitVec 32 :=
  if (s.resolveFd h).isSome ∧ whenceOf moveMethod = none then 87 else 6

/-- It moves wherever there is a position to move to. -/
theorem setFilePointer_eq (s : State) (h : Handle) (distance : BitVec 32)
    (distanceHigh : Option (BitVec 32)) (moveMethod : BitVec 32) :
    s.setFilePointer h distance distanceHigh moveMethod =
      match s.target h distance distanceHigh moveMethod with
      | some (n, pos) => (.split (BitVec.ofNat 64 pos) distanceHigh.isSome,
          s.setFiles (s.files.setOffset n pos))
      | none => (.invalid, s.setLastError (s.failure h moveMethod)) := by
  unfold setFilePointer target failure Files.lseek
  rw [offsetOf_toInt]
  cases hfd : s.resolveFd h with
  | none => simp
  | some fd =>
    cases hw : whenceOf moveMethod with
    | none => simp
    | some w =>
      cases hn : s.files.table fd with
      | none => simp [hn]
      | some n =>
        cases ht : (s.files.descriptions n).target with
        | stream k => simp [hn, ht]
        | file k =>
          by_cases hpos : 0 ≤ (w.base (s.files.descriptions n) (s.files.regular k) : Int) +
              distanceOf distance distanceHigh ∧
              (w.base (s.files.descriptions n) (s.files.regular k) : Int) +
                distanceOf distance distanceHigh ≤ (s.files.regular k).limit
          · simp [hn, ht, hpos]
          · simp [hn, ht, hpos]

theorem target_lt (htarget : s.target h distance distanceHigh moveMethod = some (n, pos)) :
    pos < 2 ^ 63 := by
  unfold target at htarget
  obtain ⟨fd, -, htarget⟩ := Option.bind_eq_some_iff.mp htarget
  obtain ⟨w, -, htarget⟩ := Option.bind_eq_some_iff.mp htarget
  obtain ⟨n', -, htarget⟩ := Option.bind_eq_some_iff.mp htarget
  split at htarget
  · exact absurd htarget (by simp)
  · rename_i k _
    have hlimit := (s.files.regular k).limit_lt
    dsimp only at htarget
    split at htarget
    · rename_i hpos
      have heq := (Prod.mk.inj (Option.some.inj htarget)).2
      omega
    · exact absurd htarget (by simp)

theorem failed_of_none (htarget : s.target h distance distanceHigh moveMethod = none) :
    s.Failed (s.setFilePointer h distance distanceHigh moveMethod) := by
  rw [setFilePointer_eq, htarget]
  refine ⟨rfl, rfl, ?_⟩
  show s.failure h moveMethod ≠ 0
  unfold failure
  split <;> decide

theorem moved_iff (htarget : s.target h distance distanceHigh moveMethod = some (n, pos)) :
    s.Moved n pos distanceHigh.isSome (s.setFilePointer h distance distanceHigh moveMethod) ↔
      (pos % 2 ^ 32 = 2 ^ 32 - 1 → s.lastError = 0) := by
  have hwords := split_words (target_lt htarget) distanceHigh.isSome
  rw [setFilePointer_eq, htarget]
  constructor
  · intro hmoved hlow
    exact hmoved.told ((allOnes_iff hwords.1).mpr hlow)
  · intro hlast
    exact ⟨hwords.1, hwords.2, rfl, fun hones => hlast ((allOnes_iff hwords.1).mp hones)⟩

theorem failed_iff (htarget : s.target h distance none moveMethod = some (n, pos)) :
    s.Failed (s.setFilePointer h distance none moveMethod) ↔
      pos % 2 ^ 32 = 2 ^ 32 - 1 ∧ (s.files.descriptions n).offset = pos ∧ s.lastError ≠ 0 := by
  have hwords := split_words (target_lt htarget) false
  rw [setFilePointer_eq, htarget]
  constructor
  · intro hfailed
    have hlow := congrArg Words.low hfailed.result
    have hfiles : s.files.setOffset n pos = s.files := congrArg Host.files hfailed.host
    exact ⟨(allOnes_iff hwords.1).mp hlow, Files.setOffset_eq_self_iff.mp hfiles, hfailed.told⟩
  · rintro ⟨hones, hoffset, herror⟩
    have hlow := (allOnes_iff hwords.1).mpr hones
    have hfiles := Files.setOffset_eq_self_iff.mpr hoffset
    refine ⟨?_, ?_, herror⟩
    · exact congrArg₂ Words.mk hlow rfl
    · show { s.toHost with files := s.files.setOffset n pos } = s.toHost
      rw [hfiles]

/-- **SetFilePointer keeps its contract exactly if** it is not asked for a position beyond one word
    without a pointer to the high word (unless it is there already and fails by the looks of it),
    nor with an error still set for one that ends in `0xFFFFFFFF`. -/
theorem contract_iff (s : State) (h : Handle) (distance : BitVec 32)
    (distanceHigh : Option (BitVec 32)) (moveMethod : BitVec 32) :
    s.Contract h distance distanceHigh moveMethod ↔
      ∀ n pos, s.target h distance distanceHigh moveMethod = some (n, pos) →
        if distanceHigh = none ∧ lastLow < pos then
          pos % 2 ^ 32 = 2 ^ 32 - 1 ∧ (s.files.descriptions n).offset = pos ∧ s.lastError ≠ 0
        else pos % 2 ^ 32 = 2 ^ 32 - 1 → s.lastError = 0 := by
  unfold Contract
  dsimp only
  cases htarget : s.target h distance distanceHigh moveMethod with
  | none =>
    constructor
    · intro _ n pos hsome
      exact absurd hsome (by simp)
    · intro _
      exact failed_of_none htarget
  | some r =>
    obtain ⟨n, pos⟩ := r
    have hforall (P : Nat → Nat → Prop) :
        (∀ n' pos', some (n, pos) = some (n', pos') → P n' pos') ↔ P n pos := by
      constructor
      · intro hall
        exact hall n pos rfl
      · rintro hP n' pos' heq
        obtain ⟨rfl, rfl⟩ := Prod.mk.inj (Option.some.inj heq)
        exact hP
    rw [hforall]
    dsimp only
    by_cases hbig : distanceHigh = none ∧ lastLow < pos
    · rw [if_pos hbig, if_pos hbig]
      obtain ⟨rfl, -⟩ := hbig
      exact failed_iff htarget
    · rw [if_neg hbig, if_neg hbig]
      exact moved_iff htarget

/-- A file of no bytes, at the last position but 15 of one word. -/
def nearFourGiB : State where
  objects := fun h => if h = 0x10001 then some (.file ⟨3, 0⟩) else none
  files := {
    table := fun fd => if fd = 3 then some 0 else none
    descriptions := fun _ => ⟨.file 0, 0xFFFFFFF0, true, false, false⟩
    regular := fun _ => ⟨[], 2 ^ 62, threeBytes_limit, Nat.zero_le _⟩
    streams := fun _ => ⟨[], []⟩ }
  lastError := 0

/-- 0x100 further on, without a pointer to the high word, it returns 0xF0. -/
theorem nearFourGiB_wraps :
    ((nearFourGiB.setFilePointer 0x10001 0x100 none 1).1.low = 0xF0 ∧
      ((nearFourGiB.setFilePointer 0x10001 0x100 none 1).2.files.descriptions 0).offset =
        0x1000000F0) ∧
      ¬ nearFourGiB.Contract 0x10001 0x100 none 1 := by
  have htarget : nearFourGiB.target 0x10001 0x100 none 1 = some (0, 0x1000000F0) := by decide
  refine ⟨by decide, ?_⟩
  intro hcontract
  unfold Contract at hcontract
  rw [htarget] at hcontract
  have hbig : (none : Option (BitVec 32)) = none ∧ lastLow < 0x1000000F0 := ⟨rfl, by decide⟩
  dsimp only at hcontract
  rw [if_pos hbig] at hcontract
  exact absurd (failed_iff htarget |>.mp hcontract).1 (by decide)

end State

end WinCompat.File
