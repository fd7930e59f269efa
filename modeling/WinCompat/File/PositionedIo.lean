import WinCompat.File.Position

/-!
# Positioned reads and writes

`read_file`, `write_file`, `nt_read_file` and `nt_write_file` of `ntapi/src/process.rs`. All four
transfer at the position of the descriptor, with `read` and `write`: the offset of an `OVERLAPPED`
and the `ByteOffset` are not looked at. A call that fails writes the status of an `IO_STATUS_BLOCK`
and nothing else, and `nt_read_file` takes every read of nothing for the end of the file.
-/

namespace WinCompat.File

open Lib.Bytes Lib.Descriptors Handles

/-! ## The calls of `ntdll` -/

/-- `IO_STATUS_BLOCK` -/
structure IoStatus where
  status : BitVec 32
  information : BitVec 64
  deriving DecidableEq

def statusInvalidHandle : BitVec 32 := 0xC0000008

def statusEndOfFile : BitVec 32 := 0xC0000011

/-- `errno_to_nt` -/
def errnoToNt : Errno → BitVec 32
  | .badf => 0xC0000008
  | .inval => 0xC000000D
  | .spipe | .fbig => 0xC0000001

/-- `set_nt_status`: the block as it is after it, if there is one. -/
def setNtStatus (ioStatus : Option IoStatus) (status : BitVec 32) : Option IoStatus :=
  ioStatus.map fun b => { b with status }

/-- `set_io_status` -/
def setIoStatus (ioStatus : Option IoStatus) (status : BitVec 32) (information : BitVec 64) :
    Option IoStatus := ioStatus.map fun _ => ⟨status, information⟩

namespace State

/-- `nt_write_file`: the status and the block. -/
def ntWriteFile (s : State) (h : Handle) (ioStatus : Option IoStatus) (buf : Option (List Byte))
    (_byteOffset : Option Nat) : (BitVec 32 × Option IoStatus) × State :=
  match s.resolveFd h, buf with
  | some fd, some bytes =>
      match s.files.write fd bytes with
      | .error e => ((errnoToNt e, setNtStatus ioStatus (errnoToNt e)), s)
      | .ok (n, files) => ((0, setIoStatus ioStatus 0 (BitVec.ofNat 64 n)), s.setFiles files)
  | _, _ => ((statusInvalidHandle, setNtStatus ioStatus statusInvalidHandle), s)

/-- `nt_read_file`: the status, the bytes and the block. -/
def ntReadFile (s : State) (h : Handle) (ioStatus : Option IoStatus) (buf : Bool)
    (len : BitVec 32) (_byteOffset : Option Nat) :
    (BitVec 32 × List Byte × Option IoStatus) × State :=
  match s.resolveFd h, buf with
  | some fd, true =>
      match s.files.read fd len.toNat with
      | .error e => ((errnoToNt e, [], setNtStatus ioStatus (errnoToNt e)), s)
      | .ok (bytes, files) =>
          if bytes = [] then
            ((statusEndOfFile, [], setIoStatus ioStatus statusEndOfFile 0), s.setFiles files)
          else
            ((0, bytes, setIoStatus ioStatus 0 (BitVec.ofNat 64 bytes.length)), s.setFiles files)
  | _, _ => ((statusInvalidHandle, [], setNtStatus ioStatus statusInvalidHandle), s)

end State

/-! ## Calls of either family -/

/-- What is to be moved: into a buffer, or out of one. -/
inductive Transfer
  | read (buf : Bool) (len : BitVec 32)
  | write (buf : Option (List Byte))

/-- Where a call of `kernel32` or of `ntdll` reports, with what is there, if there is a pointer. -/
inductive Out
  | count (n : Option (BitVec 32))
  | block (b : Option IoStatus)

/-- The offset is that of the `OVERLAPPED` or the `ByteOffset`, and not one of the two special
    values of the latter. -/
structure IoCall where
  handle : Handle
  transfer : Transfer
  offset : Option Nat
  out : Out

structure Reply where
  value : BitVec 32
  bytes : List Byte
  out : Out

/-- A BOOL, and the count if one was written. -/
def win32Reply (old : Option (BitVec 32)) :
    Option (List Byte × Option (BitVec 32)) → Reply
  | some (bytes, n) => ⟨1, bytes, .count n⟩
  | none => ⟨0, [], .count old⟩

def State.io (s : State) (c : IoCall) : Reply × State :=
  match c.out, c.transfer with
  | .count old, .read buf len =>
      (s.readFile c.handle buf len old.isSome).map (win32Reply old) id
  | .count old, .write buf =>
      (s.writeFile c.handle buf old.isSome).map (fun r => win32Reply old (r.map ([], ·))) id
  | .block b, .read buf len =>
      (s.ntReadFile c.handle b buf len c.offset).map (fun r => ⟨r.1, r.2.1, .block r.2.2⟩) id
  | .block b, .write buf =>
      (s.ntWriteFile c.handle b buf c.offset).map (fun r => ⟨r.1, [], .block r.2⟩) id

/-! ## One file model -/

/-- What a transfer at `pos` reads, how much it moves and how it leaves the file; `none` if the file
    may not reach beyond `pos`. -/
def transferAt (f : Regular) (pos : Nat) : Transfer → Option (List Byte × Nat × Regular)
  | .read _ len =>
      let bytes := (f.bytes.drop pos).take (min len.toNat maxTransfer)
      some (bytes, bytes.length, f)
  | .write buf =>
      let data := (buf.getD []).take maxTransfer
      if data = [] then some ([], 0, f)
      else if h : pos < f.limit then
        some ([], min data.length (f.limit - pos), f.writeAt pos data (Nat.le_of_lt h))
      else none

def Transfer.HasBuffer : Transfer → Prop
  | .read buf _ => buf = true
  | .write buf => buf.isSome = true

def Transfer.Allowed (d : Description) : Transfer → Prop
  | .read _ _ => d.readable = true
  | .write _ => d.writable = true

/-- What the host answers, if it is asked: the bytes read, how much was moved, and the files. -/
def State.host (s : State) (h : Handle) :
    Transfer → Option (Except Errno ((List Byte × Nat) × Files))
  | .read buf len =>
      match s.resolveFd h, buf with
      | some fd, true =>
          some ((s.files.read fd len.toNat).map fun r => ((r.1, r.1.length), r.2))
      | _, _ => none
  | .write buf =>
      match s.resolveFd h, buf with
      | some fd, some bytes => some ((s.files.write fd bytes).map fun r => (([], r.1), r.2))
      | _, _ => none

/-- The host moves something, or nothing without an error. -/
def State.Accepts (s : State) (c : IoCall) : Prop := ∃ r, s.host c.handle c.transfer = some (.ok r)

/-- How much the host moves. -/
def State.moved (s : State) (c : IoCall) : Nat :=
  match s.host c.handle c.transfer with
  | some (.ok r) => r.1.2
  | _ => 0

/-- The handle is open on the regular file `k`, through the description `n`. -/
def State.OpenOn (s : State) (h : Handle) (n k : Nat) : Prop :=
  ∃ fd, s.resolveFd h = some fd ∧ s.files.Opens fd n k

/-- The transfer is made at the offset of the call, or else at the position, which it moves. -/
def Placed (s : State) (c : IoCall) (n k : Nat) : Prop :=
  let d := s.files.descriptions n
  let after := (s.io c).2.files
  match transferAt (s.files.regular k) (c.offset.getD d.offset) c.transfer with
  | none => s.moved c = 0 ∧ after.regular = s.files.regular
  | some (bytes, m, f) => (s.io c).1.bytes = bytes ∧ s.moved c = m ∧
      after.regular = Function.update s.files.regular k f ∧
      (c.offset = none → (after.descriptions n).offset = d.offset + m)

/-- The pointers after a call with this result that moved `m` bytes. -/
def Out.describe (value : BitVec 32) (m : Nat) : Out → Out
  | .count n => .count (n.map fun _ => BitVec.ofNat 32 m)
  | .block b => .block (b.map fun _ => ⟨value, BitVec.ofNat 64 m⟩)

/-- The result says that the call succeeded. -/
def Out.Success (value : BitVec 32) : Out → Prop
  | .count _ => value = 1
  | .block _ => value = 0 ∨ value = statusEndOfFile

/-- The call is one on the file model: the bytes are where they are asked for, the caller is told
    whether it was done, and how it is told makes no difference to the file. -/
structure Follows (s : State) (c : IoCall) : Prop where
  placed : ∀ n k, s.OpenOn c.handle n k → c.transfer.HasBuffer →
    c.transfer.Allowed (s.files.descriptions n) → Placed s c n k
  sameEffect : ∀ out, (s.io { c with out }).2.toHost = (s.io c).2.toHost
  told : c.out.Success (s.io c).1.value ↔ s.Accepts c
  described : (s.io c).1.out = c.out.describe (s.io c).1.value (s.moved c)
  notEnd : ∀ buf, c.transfer = .read buf 0 → (s.io c).1.value ≠ statusEndOfFile

/-! ## When the code follows it -/

/-- Where the host makes the transfer. -/
def place (d : Description) (f : Regular) : Transfer → Nat
  | .read _ _ => d.offset
  | .write _ => if d.append then f.bytes.length else d.offset

/-- The transfer is the same where the host makes it, and there is where the position is, if it is
    to be moved. -/
def Positioned (s : State) (c : IoCall) (n k : Nat) : Prop :=
  let d := s.files.descriptions n
  let f := s.files.regular k
  let at_ := place d f c.transfer
  transferAt f at_ c.transfer = transferAt f (c.offset.getD d.offset) c.transfer ∧
    (c.offset = none → ∀ r, transferAt f at_ c.transfer = some r → r.2.1 = 0 ∨ at_ = d.offset)

/-- The count that the pointer holds is that of a call that fails. -/
def Out.Cleared : Out → Prop
  | .count n => ∀ v, n = some v → v = 0
  | .block b => ∀ v, b = some v → v.information = 0

def Out.isBlock : Out → Bool
  | .count _ => false
  | .block _ => true

/-- The conditions on a call and the state it finds. -/
structure Meets (s : State) (c : IoCall) : Prop where
  positioned : ∀ n k, s.OpenOn c.handle n k → c.transfer.HasBuffer →
    c.transfer.Allowed (s.files.descriptions n) → Positioned s c n k
  cleared : s.Accepts c ∨ c.out.Cleared
  notEmpty : ∀ buf, c.transfer = .read buf 0 → c.out.isBlock = true → ¬ s.Accepts c

/-! ## What a call does -/

def Transfer.isRead : Transfer → Bool
  | .read _ _ => true
  | .write _ => false

/-- The result of a call that succeeds. -/
def Out.okValue (t : Transfer) (bytes : List Byte) : Out → BitVec 32
  | .count _ => 1
  | .block _ => if t.isRead = true ∧ bytes = [] then statusEndOfFile else 0

section

variable {s : State} {c : IoCall} {n k m : Nat} {bytes : List Byte} {files : Files}

attribute [local simp] Except.map State.io State.readFile State.writeFile State.ntReadFile
  State.ntWriteFile win32Reply Out.okValue Out.describe

/-- A call that the host accepts. -/
theorem io_of_ok (h : s.host c.handle c.transfer = some (.ok ((bytes, m), files))) :
    s.io c = (⟨c.out.okValue c.transfer bytes, bytes,
      c.out.describe (c.out.okValue c.transfer bytes) m⟩, s.setFiles files) := by
  obtain ⟨handle, transfer, offset, out⟩ := c
  cases transfer with
  | read buf len =>
    simp only [State.host] at h
    cases hfd : s.resolveFd handle with
    | none => simp [hfd] at h
    | some fd =>
      cases buf with
      | false => simp [hfd] at h
      | true =>
        cases hread : s.files.read fd len.toNat with
        | error e => simp [hfd, hread] at h
        | ok r =>
          obtain ⟨⟨rfl, rfl⟩, rfl⟩ : (r.1 = bytes ∧ r.1.length = m) ∧ r.2 = files := by
            simpa [hfd, hread, and_assoc] using h
          cases out with
          | count old =>
            cases old <;>
              simp [hfd, hread]
          | block b =>
            by_cases hnil : r.1 = [] <;>
              simp [hfd, hread, hnil, setIoStatus, Transfer.isRead]
  | write buf =>
    simp only [State.host] at h
    cases hfd : s.resolveFd handle with
    | none => simp [hfd] at h
    | some fd =>
      cases buf with
      | none => simp [hfd] at h
      | some data =>
        cases hwrite : s.files.write fd data with
        | error e => simp [hfd, hwrite] at h
        | ok r =>
          obtain ⟨⟨rfl, rfl⟩, rfl⟩ : ([] = bytes ∧ r.1 = m) ∧ r.2 = files := by
            simpa [hfd, hwrite, and_assoc] using h
          cases out with
          | count old =>
            cases old <;>
              simp [hfd, hwrite]
          | block b =>
            simp [hfd, hwrite, setIoStatus, Transfer.isRead]

/-- The pointers after a call that fails: the status alone is written. -/
def Out.fail (value : BitVec 32) : Out → Out
  | .count n => .count n
  | .block b => .block (setNtStatus b value)

theorem errnoToNt_ne (e : Errno) : errnoToNt e ≠ 0 ∧ errnoToNt e ≠ statusEndOfFile := by
  cases e <;> decide

/-- What a call that fails leaves. -/
structure Refused (s : State) (c : IoCall) : Prop where
  host : (s.io c).2.toHost = s.toHost
  value : ¬ c.out.Success (s.io c).1.value ∧ (s.io c).1.value ≠ statusEndOfFile
  out : (s.io c).1.out = c.out.fail (s.io c).1.value

/-- A failure: the last error or the status, and nothing read. -/
def State.refuse (s : State) (lastError status : BitVec 32) : Out → Reply × State
  | .count n => (⟨0, [], .count n⟩, s.setLastError lastError)
  | .block b => (⟨status, [], .block (setNtStatus b status)⟩, s)

theorem io_of_unasked (h : s.host c.handle c.transfer = none) :
    s.io c = s.refuse 6 statusInvalidHandle c.out := by
  obtain ⟨handle, transfer, offset, out⟩ := c
  cases transfer with
  | read buf len =>
    simp only [State.host] at h
    cases hfd : s.resolveFd handle with
    | none =>
      cases out <;> simp [State.refuse, hfd]
    | some fd =>
      cases buf with
      | false =>
        cases out <;>
          simp [State.refuse, hfd]
      | true => simp [hfd] at h
  | write buf =>
    simp only [State.host] at h
    cases hfd : s.resolveFd handle with
    | none =>
      cases out <;>
        simp [State.refuse, hfd]
    | some fd =>
      cases buf with
      | none =>
        cases out <;>
          simp [State.refuse, hfd]
      | some data => simp [hfd] at h

theorem io_of_error {e : Errno} (h : s.host c.handle c.transfer = some (.error e)) :
    s.io c = s.refuse (errnoToWin e) (errnoToNt e) c.out := by
  obtain ⟨handle, transfer, offset, out⟩ := c
  cases transfer with
  | read buf len =>
    simp only [State.host] at h
    split at h
    · next fd hfd =>
      cases hread : s.files.read fd len.toNat with
      | error e' =>
        obtain rfl : e' = e := by simpa [hread] using h
        cases out <;>
          simp [State.refuse, hfd, hread]
      | ok r => simp [hread] at h
    · cases h
  | write buf =>
    simp only [State.host] at h
    split at h
    · next fd data hfd =>
      cases hwrite : s.files.write fd data with
      | error e' =>
        obtain rfl : e' = e := by simpa [hwrite] using h
        cases out <;>
          simp [State.refuse, hfd, hwrite]
      | ok r => simp [hwrite] at h
    · cases h

theorem refused_of_refuse {lastError status : BitVec 32}
    (h : s.io c = s.refuse lastError status c.out) (hne : status ≠ 0 ∧ status ≠ statusEndOfFile) :
    Refused s c := by
  constructor <;> rw [h] <;> cases c.out
  · rfl
  · rfl
  · exact ⟨(by decide : (0 : BitVec 32) ≠ 1), (by decide : (0 : BitVec 32) ≠ statusEndOfFile)⟩
  · exact ⟨not_or.mpr hne, hne.2⟩
  · rfl
  · rfl

theorem io_of_not_accepts (h : ¬ s.Accepts c) : Refused s c := by
  match hhost : s.host c.handle c.transfer with
  | none => exact refused_of_refuse (io_of_unasked hhost) (by decide)
  | some (.error e) => exact refused_of_refuse (io_of_error hhost) (errnoToNt_ne e)
  | some (.ok r) => exact absurd ⟨r, hhost⟩ h

/-! ## Where the host transfers -/

variable {h : Handle} {t : Transfer}

theorem add_eq_ite (pos m : Nat) : pos + m = if m = 0 then pos else pos + m := by
  split_ifs with hzero
  · rw [hzero, Nat.add_zero]
  · rfl

theorem host_of_some {f : Regular} (hopen : s.OpenOn h n k) (hbuf : t.HasBuffer)
    (hallowed : t.Allowed (s.files.descriptions n))
    (htransfer : transferAt (s.files.regular k) (place (s.files.descriptions n)
      (s.files.regular k) t) t = some (bytes, m, f)) :
    ∃ files, s.host h t = some (.ok ((bytes, m), files)) ∧
      files.regular = Function.update s.files.regular k f ∧
      (files.descriptions n).offset = if m = 0 then (s.files.descriptions n).offset
        else place (s.files.descriptions n) (s.files.regular k) t + m := by
  obtain ⟨fd, hfd, htable, htarget⟩ := hopen
  cases t with
  | read buf len =>
    obtain rfl : buf = true := hbuf
    have hreadable : (s.files.descriptions n).readable = true := hallowed
    obtain ⟨rfl, rfl, rfl⟩ := Prod.mk.inj (Option.some.inj htransfer) |>.imp id Prod.mk.inj
    refine ⟨s.files.setOffset n ((s.files.descriptions n).offset + (List.take
      (min len.toNat maxTransfer) (List.drop (s.files.descriptions n).offset
        (s.files.regular k).bytes)).length), ?_, ?_, ?_⟩
    · simp only [State.host, hfd, Files.read, htable, htarget, hreadable]
      rfl
    · simp [Files.setOffset]
    · refine Eq.trans ?_ (add_eq_ite _ _)
      simp [Files.setOffset, place]
  | write buf =>
    obtain ⟨data, rfl⟩ := Option.isSome_iff_exists.mp hbuf
    have hwritable : (s.files.descriptions n).writable = true := hallowed
    generalize hp : place (s.files.descriptions n) (s.files.regular k) (.write (some data)) = p
      at htransfer ⊢
    simp only [place] at hp
    simp only [transferAt, Option.getD_some] at htransfer
    by_cases hnil : data.take maxTransfer = []
    · rw [if_pos hnil] at htransfer
      obtain ⟨rfl, rfl, rfl⟩ := Prod.mk.inj (Option.some.inj htransfer) |>.imp id Prod.mk.inj
      refine ⟨s.files, ?_, by simp, rfl⟩
      simp only [State.host, hfd, Files.write, htable, hwritable, hnil]
      rfl
    · rw [if_neg hnil] at htransfer
      split_ifs at htransfer with hlimit
      obtain ⟨rfl, hm, hf⟩ := Prod.mk.inj (Option.some.inj htransfer) |>.imp id Prod.mk.inj
      have hpos : m ≠ 0 := by
        have hlength := List.length_pos_iff.mpr hnil
        omega
      let regular := Function.update s.files.regular k f
      refine ⟨Files.setOffset { s.files with regular } n (p + m), ?_, rfl, ?_⟩
      · subst hf hm hp
        simp only [State.host, hfd, Files.write, htable, htarget, hwritable, if_neg hnil,
          dif_pos hlimit]
        rfl
      · rw [if_neg hpos]
        simp [Files.setOffset]

theorem host_of_none (hopen : s.OpenOn h n k) (hbuf : t.HasBuffer)
    (hallowed : t.Allowed (s.files.descriptions n))
    (htransfer : transferAt (s.files.regular k) (place (s.files.descriptions n)
      (s.files.regular k) t) t = none) : s.host h t = some (.error .fbig) := by
  obtain ⟨fd, hfd, htable, htarget⟩ := hopen
  cases t with
  | read buf len => cases htransfer
  | write buf =>
    obtain ⟨data, rfl⟩ := Option.isSome_iff_exists.mp hbuf
    have hwritable : (s.files.descriptions n).writable = true := hallowed
    simp only [transferAt, Option.getD_some] at htransfer
    split_ifs at htransfer with hnil hlimit
    simp only [place] at hlimit
    simp only [State.host, hfd, Files.write, htable, htarget, hwritable, if_neg hnil,
      dif_neg hlimit]
    rfl

/-! ## Calls on the file model -/

theorem moved_of_ok (h : s.host c.handle c.transfer = some (.ok ((bytes, m), files))) :
    s.moved c = m := by
  unfold State.moved
  rw [h]

theorem moved_of_not_accepts (h : ¬ s.Accepts c) : s.moved c = 0 := by
  unfold State.moved
  split
  · next r hr => exact absurd ⟨r, hr⟩ h
  · rfl

theorem moved_ne_zero {f : Regular} {p q : Nat} {r : List Byte × Nat × Regular}
    (hp : transferAt f p t = none) (hq : transferAt f q t = some r) : r.2.1 ≠ 0 := by
  cases t with
  | read buf len => cases hp
  | write buf =>
    simp only [transferAt] at hp hq
    split_ifs at hp hq with hnil _ hlimit
    cases hq
    have hlength := List.length_pos_iff.mpr hnil
    show min _ _ ≠ 0
    omega

theorem placed_iff (hopen : s.OpenOn c.handle n k) (hbuf : c.transfer.HasBuffer)
    (hallowed : c.transfer.Allowed (s.files.descriptions n)) :
    Placed s c n k ↔ Positioned s c n k := by
  simp only [Placed, Positioned]
  cases hat : transferAt (s.files.regular k) (place (s.files.descriptions n) (s.files.regular k)
      c.transfer) c.transfer with
  | none =>
    have herror := host_of_none hopen hbuf hallowed hat
    have hnot : ¬ s.Accepts c := by
      rintro ⟨r, hr⟩
      rw [herror] at hr
      cases hr
    have hmoved := moved_of_not_accepts hnot
    cases hreq : transferAt (s.files.regular k)
        (c.offset.getD (s.files.descriptions n).offset) c.transfer with
    | none =>
      simp only
      have hsame := (io_of_not_accepts hnot).host
      exact iff_of_true ⟨hmoved, congrArg (·.files.regular) hsame⟩ ⟨trivial, fun _ _ => nofun⟩
    | some r =>
      simp only
      refine iff_of_false ?_ (fun h => by cases h.1)
      rintro ⟨-, hm, -⟩
      exact moved_ne_zero hat hreq (hm.symm.trans hmoved)
  | some r =>
    obtain ⟨bytes, m, f⟩ := r
    obtain ⟨files, hok, hregular, hoffset⟩ := host_of_some hopen hbuf hallowed hat
    have hio := io_of_ok hok
    have hmoved := moved_of_ok hok
    cases hreq : transferAt (s.files.regular k)
        (c.offset.getD (s.files.descriptions n).offset) c.transfer with
    | none =>
      simp only
      refine iff_of_false ?_ (fun h => by cases h.1)
      rintro ⟨hm, -⟩
      exact moved_ne_zero hreq hat (hmoved.symm.trans hm)
    | some r' =>
      obtain ⟨bytes', m', f'⟩ := r'
      simp only [hio, hmoved, State.setFiles, hregular, hoffset, Option.some.injEq, Prod.mk.injEq,
        (Function.update_injective s.files.regular k).eq_iff, forall_eq']
      constructor
      · rintro ⟨rfl, rfl, rfl, hpos⟩
        refine ⟨⟨rfl, rfl, rfl⟩, fun hnone => ?_⟩
        have hsum := hpos hnone
        split_ifs at hsum with hzero
        · exact .inl hzero
        · exact .inr (Nat.add_right_cancel hsum)
      · rintro ⟨⟨rfl, rfl, rfl⟩, hpos⟩
        refine ⟨rfl, rfl, rfl, fun hnone => ?_⟩
        rcases hpos hnone with hzero | hplace
        · rw [if_pos hzero, hzero, Nat.add_zero]
        · rw [hplace, ← add_eq_ite]

theorem host_read_zero {buf : Bool} (h : s.host c.handle (.read buf 0) =
    some (.ok ((bytes, m), files))) : bytes = [] := by
  simp only [State.host] at h
  split at h
  · next fd _ =>
    unfold Files.read at h
    cases htable : s.files.table fd with
    | none => simp [htable] at h
    | some n =>
      cases hread : (s.files.descriptions n).readable with
      | false => simp [htable, hread] at h
      | true =>
        cases htarget : (s.files.descriptions n).target with
        | stream k =>
          simp [htable, hread, htarget, Stream.read] at h
          exact h.1.1
        | file k =>
          simp [htable, hread, htarget] at h
          exact h.1.1
  · cases h

theorem describe_eq_fail_iff (out : Out) (value : BitVec 32) :
    out.fail value = out.describe value 0 ↔ out.Cleared := by
  cases out with
  | count n => cases n <;> simp [Out.fail, Out.Cleared]
  | block b =>
    cases b with
    | none => simp [Out.fail, Out.Cleared, setNtStatus]
    | some b => simp [Out.fail, Out.Cleared, setNtStatus]

theorem io_toHost (out : Out) : (s.io { c with out }).2.toHost = (s.io c).2.toHost := by
  by_cases hacc : s.Accepts c
  · obtain ⟨⟨⟨bytes, m⟩, files⟩, hok⟩ := hacc
    rw [io_of_ok hok, io_of_ok (c := { c with out }) hok]
  · rw [(io_of_not_accepts hacc).host]
    exact (io_of_not_accepts (c := { c with out }) hacc).host

theorem success_okValue (out : Out) (bytes : List Byte) :
    out.Success (out.okValue t bytes) := by
  cases out with
  | count n => rfl
  | block b =>
    unfold Out.Success Out.okValue
    split_ifs
    · exact .inr rfl
    · exact .inl rfl

theorem follows_iff (s : State) (c : IoCall) : Follows s c ↔ Meets s c := by
  constructor
  · intro h
    refine ⟨fun n k hopen hbuf hallowed =>
      (placed_iff hopen hbuf hallowed).mp (h.placed n k hopen hbuf hallowed), ?_, ?_⟩
    · by_cases hacc : s.Accepts c
      · exact .inl hacc
      · have hout := h.described
        rw [(io_of_not_accepts hacc).out, moved_of_not_accepts hacc] at hout
        exact .inr ((describe_eq_fail_iff _ _).mp hout)
    · rintro buf hread hblock ⟨⟨⟨bytes, m⟩, files⟩, hok⟩
      apply h.notEnd buf hread
      rw [io_of_ok hok]
      rw [hread] at hok
      obtain rfl := host_read_zero hok
      cases hout : c.out with
      | count n =>
        rw [hout] at hblock
        cases hblock
      | block b => simp [hread, Transfer.isRead]
  · intro h
    by_cases hacc : s.Accepts c
    · obtain ⟨⟨⟨bytes, m⟩, files⟩, hok⟩ := id hacc
      have hio := io_of_ok hok
      refine ⟨fun n k hopen hbuf hallowed => (placed_iff hopen hbuf hallowed).mpr
        (h.positioned n k hopen hbuf hallowed), io_toHost, ?_, ?_, ?_⟩
      · rw [hio]
        exact iff_of_true (success_okValue _ _) hacc
      · rw [hio, moved_of_ok hok]
      · intro buf hread hend
        rw [hio] at hend
        cases hout : c.out with
        | count n =>
          rw [hout] at hend
          exact absurd hend (by decide : (1 : BitVec 32) ≠ statusEndOfFile)
        | block b => exact h.notEmpty buf hread (by rw [hout]; rfl) hacc
    · have hrefused := io_of_not_accepts hacc
      refine ⟨fun n k hopen hbuf hallowed => (placed_iff hopen hbuf hallowed).mpr
        (h.positioned n k hopen hbuf hallowed), io_toHost, ?_, ?_, fun _ _ => hrefused.value.2⟩
      · exact iff_of_false hrefused.value.1 hacc
      · rw [hrefused.out, moved_of_not_accepts hacc]
        exact (describe_eq_fail_iff _ _).mpr (h.cleared.resolve_left hacc)

end

/-! ## Runs -/

/-- `P` holds of each call of a run, in the state it finds. -/
def Throughout (P : State → IoCall → Prop) : State → List IoCall → Prop
  | _, [] => True
  | s, c :: cs => P s c ∧ Throughout P (s.io c).2 cs

/-- A run is one of the file model exactly when each of its calls meets the conditions. Both sides
    are about the state that a call finds, so one lemma about a call gives the runs by induction. -/
theorem run_follows_iff (s : State) (cs : List IoCall) :
    Throughout Follows s cs ↔ Throughout Meets s cs := by
  induction cs generalizing s with
  | nil => exact Iff.rfl
  | cons c cs ih => exact and_congr (follows_iff s c) (ih _)

/-- Two bytes at the offset 1, of the file `abc` that is at its start. -/
def readAtOne : IoCall := ⟨0x10001, .read true 2, some 1, .count (some 0)⟩

/-- The call reads `ab`. -/
theorem readAtOne_not_follows : ¬ Throughout Follows threeBytes [readAtOne] := by
  rintro ⟨h, -⟩
  obtain ⟨hbytes, -⟩ := h.placed 0 0 ⟨3, rfl, rfl, rfl⟩ rfl rfl
  revert hbytes
  decide

end WinCompat.File
