import WinCompat.Handle.Table
import WinCompat.Lib.Descriptors

/-!
# File positions and sizes

`resolve_fd`, `get_file_size` and `set_file_pointer` of `win32-kernel32/src/file.rs`,
`get_file_size_ex` and `set_file_pointer_ex` of `extras.rs`, and `read_file` and `write_file` of
`ntapi/src/process.rs`.

`set_file_pointer` seeks and `get_file_size` asks the host. Their `Ex` siblings do neither: they
report 0, whatever the handle. So a program may use the one or the other for the same purpose as long
as 0 is the answer (`trace_eq_iff`).
-/

namespace WinCompat.File

open Lib.Bytes Lib.Descriptors Handles

/-- The handles and what is behind them. -/
structure Host where
  objects : Handle → Option Object
  files : Files

structure State extends Host where
  lastError : BitVec 32

/-- `resolve_fd`, `none` for -1. -/
def Host.resolveFd (s : Host) (h : Handle) : Option Nat :=
  if h.toNat ≤ 2 then some h.toNat
  else
    match s.objects h with
    | some (.file f) => some f.fd
    | _ => none

/-- `errno_to_win` -/
def errnoToWin : Errno → BitVec 32
  | .badf => 6
  | .inval => 87
  | .spipe | .fbig => 1597

/-- A result, and what is written through the pointer to its high word. -/
structure Words where
  low : BitVec 32
  high : Option (BitVec 32)
  deriving DecidableEq

/-- `INVALID_FILE_SIZE` and `INVALID_SET_FILE_POINTER`; nothing is written. -/
def Words.invalid : Words := ⟨BitVec.allOnes 32, none⟩

/-- A value in two words, the high one if there is a pointer to it. -/
def Words.split (v : BitVec 64) (high : Bool) : Words :=
  ⟨v.setWidth 32, if high then some ((v >>> 32).setWidth 32) else none⟩

/-- The offset that two words make. -/
def offsetOf (distance : BitVec 32) : Option (BitVec 32) → BitVec 64
  | none => distance.signExtend 64
  | some high => (high.signExtend 64 <<< 32) ||| distance.setWidth 64

def whenceOf (moveMethod : BitVec 32) : Option Whence :=
  if moveMethod = 0 then some .set
  else if moveMethod = 1 then some .cur
  else if moveMethod = 2 then some .end_
  else none

namespace State

def setLastError (s : State) (code : BitVec 32) : State := { s with lastError := code }

def setFiles (s : State) (files : Files) : State := { s with files }

/-- `read_file`: whether it returns TRUE, the bytes, and what is written to `read_out`. -/
def readFile (s : State) (h : Handle) (buf : Bool) (len : BitVec 32) (readOut : Bool) :
    Option (List Byte × Option (BitVec 32)) × State :=
  match s.resolveFd h, buf with
  | some fd, true =>
      match s.files.read fd len.toNat with
      | .error e => (none, s.setLastError (errnoToWin e))
      | .ok (bytes, files) =>
          (some (bytes, if readOut then some (BitVec.ofNat 32 bytes.length) else none),
            s.setFiles files)
  | _, _ => (none, s.setLastError 6)

/-- `write_file`: whether it returns TRUE, and what is written to `written`. -/
def writeFile (s : State) (h : Handle) (buf : Option (List Byte)) (written : Bool) :
    Option (Option (BitVec 32)) × State :=
  match s.resolveFd h, buf with
  | some fd, some bytes =>
      match s.files.write fd bytes with
      | .error e => (none, s.setLastError (errnoToWin e))
      | .ok (n, files) =>
          (some (if written then some (BitVec.ofNat 32 n) else none), s.setFiles files)
  | _, _ => (none, s.setLastError 6)

/-- `get_file_size` -/
def getFileSize (s : State) (h : Handle) (sizeHigh : Bool) : Words × State :=
  match s.resolveFd h with
  | none => (.invalid, s.setLastError 6)
  | some fd =>
      match s.files.fstatSize fd with
      | .error _ => (.invalid, s.setLastError 6)
      | .ok size => (.split (BitVec.ofNat 64 size) sizeHigh, s)

/-- `set_file_pointer` -/
def setFilePointer (s : State) (h : Handle) (distance : BitVec 32)
    (distanceHigh : Option (BitVec 32)) (moveMethod : BitVec 32) : Words × State :=
  match s.resolveFd h with
  | none => (.invalid, s.setLastError 6)
  | some fd =>
      match whenceOf moveMethod with
      | none => (.invalid, s.setLastError 87)
      | some whence =>
          match s.files.lseek fd (offsetOf distance distanceHigh).toInt whence with
          | .error _ => (.invalid, s.setLastError 6)
          | .ok (pos, files) =>
              (.split (BitVec.ofNat 64 pos) distanceHigh.isSome, s.setFiles files)

/-- `get_file_size_ex`: TRUE, and what is written to `size`. -/
def getFileSizeEx (s : State) (_h : Handle) (size : Bool) :
    (BitVec 32 × Option (BitVec 64)) × State :=
  ((1, if size then some 0 else none), s)

/-- `set_file_pointer_ex`: TRUE, and what is written to `new_pos`. -/
def setFilePointerEx (s : State) (_h : Handle) (_distance : BitVec 64) (newPos : Bool)
    (_moveMethod : BitVec 32) : (BitVec 32 × Option (BitVec 64)) × State :=
  ((1, if newPos then some 0 else none), s)

end State

/-! ## Runs -/

inductive Call
  | readFile (h : Handle) (buf : Bool) (len : BitVec 32) (readOut : Bool)
  | writeFile (h : Handle) (buf : Option (List Byte)) (written : Bool)
  | getFileSize (h : Handle) (sizeHigh : Bool)
  | setFilePointer (h : Handle) (distance : BitVec 32) (distanceHigh : Option (BitVec 32))
      (moveMethod : BitVec 32)
  | getFileSizeEx (h : Handle) (size : Bool)
  | setFilePointerEx (h : Handle) (distance : BitVec 64) (newPos : Bool) (moveMethod : BitVec 32)
  deriving DecidableEq

/-- What a call reports. A position or a size is reported by two words or by one number; `none` is a
    call that fails. -/
inductive Report
  | read (r : Option (List Byte × Option (BitVec 32)))
  | write (r : Option (Option (BitVec 32)))
  | lowWord (low : BitVec 32)
  | success (ok : Bool)
  | number (n : Option (BitVec 64))
  deriving DecidableEq

/-- Nothing is written to the high word by a call that fails. -/
def Words.report (high : Bool) (r : Words) : Report :=
  if high then .number (r.high.map fun w => w ++ r.low) else .lowWord r.low

def exReport (out : Bool) (r : BitVec 32 × Option (BitVec 64)) : Report :=
  if r.1 = 0 then .number none else if out then .number r.2 else .success true

def State.run (s : State) : Call → Report × State
  | .readFile h buf len readOut => (s.readFile h buf len readOut).map .read id
  | .writeFile h buf written => (s.writeFile h buf written).map .write id
  | .getFileSize h sizeHigh => (s.getFileSize h sizeHigh).map (Words.report sizeHigh) id
  | .setFilePointer h distance distanceHigh moveMethod =>
      (s.setFilePointer h distance distanceHigh moveMethod).map (Words.report distanceHigh.isSome) id
  | .getFileSizeEx h size => (s.getFileSizeEx h size).map (exReport size) id
  | .setFilePointerEx h distance newPos moveMethod =>
      (s.setFilePointerEx h distance newPos moveMethod).map (exReport newPos) id

/-- What each call reports, and the files and their positions after it. -/
def trace : State → List Call → List (Report × Host)
  | _, [] => []
  | s, c :: cs => ((s.run c).1, (s.run c).2.toHost) :: trace (s.run c).2 cs

/-- A call, and one that may stand in its place. -/
inductive Replaces : Call → Call → Prop
  | same (c : Call) : Replaces c c
  | seek (h : Handle) (d : BitVec 64) (m : BitVec 32) :
      Replaces (.setFilePointerEx h d true m)
        (.setFilePointer h (d.setWidth 32) (some ((d >>> 32).setWidth 32)) m)
  | seekBack (h : Handle) (low high m : BitVec 32) :
      Replaces (.setFilePointer h low (some high) m) (.setFilePointerEx h (high ++ low) true m)
  | size (h : Handle) : Replaces (.getFileSizeEx h true) (.getFileSize h true)
  | sizeBack (h : Handle) : Replaces (.getFileSize h true) (.getFileSizeEx h true)

/-! ## Where 0 is the answer -/

/-- The position is 0, and stays 0. -/
def Host.StaysAtStart (s : Host) (h : Handle) (d : BitVec 64) (m : BitVec 32) : Prop :=
  ∃ fd n k, s.resolveFd h = some fd ∧ s.files.Opens fd n k ∧ (s.files.descriptions n).offset = 0 ∧
    ((m = 0 ∨ m = 1) ∧ d = 0 ∨ m = 2 ∧ d.toInt = -((s.files.regular k).bytes.length : Int))

/-- The handle is of a file without content. -/
def Host.Empty (s : Host) (h : Handle) : Prop :=
  ∃ fd, s.resolveFd h = some fd ∧ s.files.fstatSize fd = .ok 0

/-- What the call asks for is 0. -/
def Call.AsksForZero (s : Host) : Call → Prop
  | .setFilePointer h low (some high) m => s.StaysAtStart h (high ++ low) m
  | .setFilePointerEx h d _ m => s.StaysAtStart h d m
  | .getFileSize h _ | .getFileSizeEx h _ => s.Empty h
  | _ => True

/-- Each call that is replaced asks for 0 where it is made. -/
def ReplacedAtZero : State → List Call → List Call → Prop
  | s, c :: cs, c' :: cs' =>
      (c = c' ∨ c.AsksForZero s.toHost) ∧ ReplacedAtZero (s.run c).2 cs cs'
  | _, _, _ => True

/-! ## The words of a number -/

section

variable {s t : State} {h : Handle} {m : BitVec 32} {d : BitVec 64}

theorem offsetOf_some (low high : BitVec 32) : offsetOf low (some high) = high ++ low := by
  apply BitVec.eq_of_getLsbD_eq
  intro i hi
  simp only [offsetOf, BitVec.getLsbD_or, BitVec.getLsbD_shiftLeft, BitVec.getLsbD_signExtend,
    BitVec.getLsbD_setWidth, BitVec.getLsbD_append]
  by_cases hlow : i < 32
  · simp [hlow, hi]
  · have hhigh : i - 32 < 32 := by omega
    have hwide : i - 32 < 64 := by omega
    simp [hlow, hi, hhigh, hwide, BitVec.getLsbD_of_ge low i (Nat.le_of_not_lt hlow)]

theorem append_words (v : BitVec 64) :
    (v >>> 32).setWidth 32 ++ v.setWidth 32 = (v : BitVec (32 + 32)) := by
  apply BitVec.eq_of_getLsbD_eq
  intro i hi
  rw [BitVec.getLsbD_append]
  by_cases hlow : i < 32
  · simp [hlow]
  · have hhigh : i - 32 < 32 := by omega
    have hsum : 32 + (i - 32) = i := by omega
    simp [hlow, hhigh, hsum]

theorem report_split (v : BitVec 64) : (Words.split v true).report true = .number (some v) := by
  simp [Words.report, Words.split, append_words]

theorem ofNat_eq_zero_iff {n : Nat} (h : n < 2 ^ 63) : BitVec.ofNat 64 n = 0 ↔ n = 0 := by
  constructor
  · intro heq
    have hn := congrArg BitVec.toNat heq
    rw [BitVec.toNat_ofNat, Nat.mod_eq_of_lt (by omega)] at hn
    exact hn
  · rintro rfl
    rfl

/-! ## One call -/

theorem stays_iff : s.StaysAtStart h d m ↔ ∃ fd n k w, s.resolveFd h = some fd ∧
    s.files.Opens fd n k ∧ whenceOf m = some w ∧ (s.files.descriptions n).offset = 0 ∧
      (w.base (s.files.descriptions n) (s.files.regular k) : Int) + d.toInt = 0 := by
  constructor
  · rintro ⟨fd, n, k, hfd, hopens, hstart, ⟨rfl | rfl, rfl⟩ | ⟨rfl, hd⟩⟩
    · exact ⟨fd, n, k, .set, hfd, hopens, rfl, hstart, rfl⟩
    · refine ⟨fd, n, k, .cur, hfd, hopens, rfl, hstart, ?_⟩
      simp [Whence.base, hstart]
    · refine ⟨fd, n, k, .end_, hfd, hopens, rfl, hstart, ?_⟩
      rw [hd]
      exact Int.add_right_neg _
  · rintro ⟨fd, n, k, w, hfd, hopens, hw, hstart, hsum⟩
    refine ⟨fd, n, k, hfd, hopens, hstart, ?_⟩
    have hzero : d.toInt = 0 → d = 0 := fun hd => BitVec.eq_of_toInt_eq hd
    unfold whenceOf at hw
    by_cases h0 : m = 0
    · rw [if_pos h0] at hw
      cases hw
      exact .inl ⟨.inl h0, hzero (by simpa [Whence.base] using hsum)⟩
    · by_cases h1 : m = 1
      · rw [if_neg h0, if_pos h1] at hw
        cases hw
        exact .inl ⟨.inr h1, hzero (by simpa [Whence.base, hstart] using hsum)⟩
      · by_cases h2 : m = 2
        · rw [if_neg h0, if_neg h1, if_pos h2] at hw
          cases hw
          exact .inr ⟨h2, (Int.neg_eq_of_add_eq_zero hsum).symm⟩
        · rw [if_neg h0, if_neg h1, if_neg h2] at hw
          cases hw

theorem run_seek_of_stays {low high : BitVec 32} (hstays : s.StaysAtStart h (high ++ low) m) :
    s.run (.setFilePointer h low (some high) m) = (.number (some 0), s) := by
  obtain ⟨fd, n, k, w, hfd, hopens, hw, hstart, hsum⟩ := stays_iff.1 hstays
  have hseek := s.files.lseek_of_opens hopens hsum.symm (Nat.zero_le _)
  have hself := s.files.setOffset_eq_self_iff.2 hstart
  rw [hself] at hseek
  have hrun : s.setFilePointer h low (some high) m = (.split 0 true, s.setFiles s.files) := by
    unfold State.setFilePointer
    simp only [hfd, hw, offsetOf_some, hseek]
    rfl
  show (s.setFilePointer h low (some high) m).map (Words.report true) id = _
  rw [hrun]
  exact congrArg (·, s) (report_split 0)

theorem stays_of_run_seek {low high : BitVec 32}
    (hreport : (s.run (.setFilePointer h low (some high) m)).1 = .number (some 0))
    (hsame : (s.run (.setFilePointer h low (some high) m)).2.toHost = s.toHost) :
    s.StaysAtStart h (high ++ low) m := by
  have hrun : s.run (.setFilePointer h low (some high) m) =
    (s.setFilePointer h low (some high) m).map (Words.report true) id := rfl
  rw [hrun] at hreport hsame
  unfold State.setFilePointer at hreport hsame
  cases hfd : s.resolveFd h with
  | none =>
    simp only [hfd] at hreport
    cases hreport
  | some fd =>
    cases hw : whenceOf m with
    | none =>
      simp only [hfd, hw] at hreport
      cases hreport
    | some w =>
      simp only [hfd, hw, offsetOf_some] at hreport hsame
      cases hseek : s.files.lseek fd (high ++ low : BitVec 64).toInt w with
      | error e =>
        simp only [hseek] at hreport
        cases hreport
      | ok r =>
        obtain ⟨pos, files⟩ := r
        obtain ⟨n, k, hopens, hpos, hle, rfl⟩ := s.files.lseek_eq_ok hseek
        simp only [hseek, Prod.map_fst, Option.isSome_some, report_split] at hreport
        simp only [hseek, Prod.map_snd, id_eq] at hsame
        have hlt := Nat.lt_of_le_of_lt hle (s.files.regular k).limit_lt
        obtain rfl : pos = 0 :=
          (ofNat_eq_zero_iff hlt).1 (Option.some.inj (Report.number.inj hreport))
        have hstart := s.files.setOffset_eq_self_iff.1 (congrArg Host.files hsame)
        exact stays_iff.2 ⟨fd, n, k, w, hfd, hopens, hw, hstart, hpos.symm⟩

theorem run_size_of_empty (hempty : s.Empty h) :
    s.run (.getFileSize h true) = (.number (some 0), s) := by
  obtain ⟨fd, hfd, hsize⟩ := hempty
  have hrun : s.getFileSize h true = (.split 0 true, s) := by
    unfold State.getFileSize
    simp only [hfd, hsize]
    rfl
  show (s.getFileSize h true).map (Words.report true) id = _
  rw [hrun]
  exact congrArg (·, s) (report_split 0)

theorem empty_of_run_size (hreport : (s.run (.getFileSize h true)).1 = .number (some 0)) :
    s.Empty h := by
  have hrun : s.run (.getFileSize h true) = (s.getFileSize h true).map (Words.report true) id := rfl
  rw [hrun] at hreport
  unfold State.getFileSize at hreport
  cases hfd : s.resolveFd h with
  | none =>
    simp only [hfd] at hreport
    cases hreport
  | some fd =>
    cases hsize : s.files.fstatSize fd with
    | error e =>
      simp only [hfd, hsize] at hreport
      cases hreport
    | ok size =>
      simp only [hfd, hsize, Prod.map_fst, report_split] at hreport
      have hzero := (ofNat_eq_zero_iff (s.files.fstatSize_lt hsize)).1
        (Option.some.inj (Report.number.inj hreport))
      exact ⟨fd, hfd, by rw [hsize, hzero]⟩

/-! ## Replacing calls -/

theorem run_congr (c : Call) (hst : s.toHost = t.toHost) :
    (s.run c).1 = (t.run c).1 ∧ (s.run c).2.toHost = (t.run c).2.toHost := by
  obtain ⟨host, e⟩ := s
  obtain ⟨host', e'⟩ := t
  cases hst
  cases c with
  | readFile h buf len readOut =>
    simp only [State.run, State.readFile]
    cases host.resolveFd h with
    | none => exact ⟨rfl, rfl⟩
    | some fd =>
      cases buf with
      | false => exact ⟨rfl, rfl⟩
      | true =>
        dsimp only
        cases host.files.read fd len.toNat <;> exact ⟨rfl, rfl⟩
  | writeFile h buf written =>
    simp only [State.run, State.writeFile]
    cases host.resolveFd h with
    | none => exact ⟨rfl, rfl⟩
    | some fd =>
      cases buf with
      | none => exact ⟨rfl, rfl⟩
      | some bytes =>
        dsimp only
        cases host.files.write fd bytes <;> exact ⟨rfl, rfl⟩
  | getFileSize h sizeHigh =>
    simp only [State.run, State.getFileSize]
    cases host.resolveFd h with
    | none => exact ⟨rfl, rfl⟩
    | some fd =>
      dsimp only
      cases host.files.fstatSize fd <;> exact ⟨rfl, rfl⟩
  | setFilePointer h distance distanceHigh moveMethod =>
    simp only [State.run, State.setFilePointer]
    cases host.resolveFd h with
    | none => exact ⟨rfl, rfl⟩
    | some fd =>
      cases whenceOf moveMethod with
      | none => exact ⟨rfl, rfl⟩
      | some w =>
        dsimp only
        cases host.files.lseek fd (offsetOf distance distanceHigh).toInt w <;> exact ⟨rfl, rfl⟩
  | getFileSizeEx h size => exact ⟨rfl, rfl⟩
  | setFilePointerEx h distance newPos moveMethod => exact ⟨rfl, rfl⟩

theorem run_eq_iff {c c' : Call} (hc : Replaces c c') :
    (s.run c).1 = (s.run c').1 ∧ (s.run c).2.toHost = (s.run c').2.toHost ↔
      c = c' ∨ c.AsksForZero s.toHost := by
  cases hc with
  | same c => simp
  | seek h d m =>
    have hwords := append_words d
    constructor
    · rintro ⟨hreport, hsame⟩
      have hstays := stays_of_run_seek hreport.symm hsame.symm
      rw [hwords] at hstays
      exact .inr hstays
    · rintro (heq | hstays)
      · cases heq
      · have hstays : s.StaysAtStart h ((d >>> 32).setWidth 32 ++ d.setWidth 32) m := by
          rw [hwords]
          exact hstays
        rw [run_seek_of_stays hstays]
        exact ⟨rfl, rfl⟩
  | seekBack h low high m =>
    constructor
    · rintro ⟨hreport, hsame⟩
      exact .inr (stays_of_run_seek hreport hsame)
    · rintro (heq | hstays)
      · cases heq
      · rw [run_seek_of_stays hstays]
        exact ⟨rfl, rfl⟩
  | size h =>
    constructor
    · rintro ⟨hreport, -⟩
      exact .inr (empty_of_run_size hreport.symm)
    · rintro (heq | hempty)
      · cases heq
      · rw [run_size_of_empty hempty]
        exact ⟨rfl, rfl⟩
  | sizeBack h =>
    constructor
    · rintro ⟨hreport, -⟩
      exact .inr (empty_of_run_size hreport)
    · rintro (heq | hempty)
      · cases heq
      · rw [run_size_of_empty hempty]
        exact ⟨rfl, rfl⟩

theorem trace_congr (cs : List Call) (hst : s.toHost = t.toHost) : trace s cs = trace t cs := by
  induction cs generalizing s t with
  | nil => rfl
  | cons c cs ih =>
    obtain ⟨hreport, hhost⟩ := run_congr c hst
    simp only [trace, hreport, hhost, ih hhost]

end

/-- Replacing calls by their siblings changes neither a report nor the files nor a position exactly
    when every call that is replaced asks for 0. -/
theorem trace_eq_iff {s : State} {cs cs' : List Call} (h : List.Forall₂ Replaces cs cs') :
    trace s cs = trace s cs' ↔ ReplacedAtZero s cs cs' := by
  induction h generalizing s with
  | nil => exact iff_of_true rfl trivial
  | @cons c c' cs cs' hc _ ih =>
    have hstep := run_eq_iff (s := s) hc
    rw [ReplacedAtZero, ← hstep, ← ih, trace, trace, List.cons.injEq, Prod.mk.injEq]
    constructor
    · rintro ⟨⟨hreport, hhost⟩, hrest⟩
      exact ⟨⟨hreport, hhost⟩, hrest.trans (trace_congr cs' hhost.symm)⟩
    · rintro ⟨⟨hreport, hhost⟩, hrest⟩
      exact ⟨⟨hreport, hhost⟩, hrest.trans (trace_congr cs' hhost)⟩

/-! ## A file of three bytes -/

theorem threeBytes_limit : 2 ^ 62 < 2 ^ 63 := by decide

/-- `abc`, open for reading on descriptor 3 behind the handle 0x10001. -/
def threeBytes : State where
  objects := fun h => if h = 0x10001 then some (.file ⟨3, 0⟩) else none
  files := {
    table := fun fd => if fd = 3 then some 0 else none
    descriptions := fun _ => ⟨.file 0, 0, true, false, false⟩
    regular := fun _ => ⟨[0x61, 0x62, 0x63], 2 ^ 62, threeBytes_limit, by decide⟩
    streams := fun _ => ⟨[], []⟩ }
  lastError := 0

/-- To seek to the start of a file that is at its start. -/
theorem trace_eq_iff_rewind :
    trace threeBytes [.setFilePointerEx 0x10001 0 true 0, .readFile 0x10001 true 2 true] =
      trace threeBytes [.setFilePointer 0x10001 0 (some 0) 0, .readFile 0x10001 true 2 true] := by
  refine (trace_eq_iff (.cons (.seek 0x10001 0 0) (.cons (.same _) .nil))).2 ?_
  refine ⟨.inr ⟨3, 0, 0, rfl, ⟨rfl, rfl⟩, rfl, .inl ⟨.inl rfl, rfl⟩⟩, .inl rfl, trivial⟩

/-- After a seek to the second byte, one program reads `bc` and the other `ab`. -/
theorem threeBytes_differ :
    ¬ ∀ cs cs', List.Forall₂ Replaces cs cs' → trace threeBytes cs = trace threeBytes cs' := by
  intro h
  have hseek := h [.setFilePointer 0x10001 1 (some 0) 0, .readFile 0x10001 true 2 true]
    [.setFilePointerEx 0x10001 1 true 0, .readFile 0x10001 true 2 true]
    (.cons (.seekBack 0x10001 1 0 0) (.cons (.same _) .nil))
  have hread := congrArg (fun l => (l.map Prod.fst)[1]?) hseek
  revert hread
  decide

end WinCompat.File
