import WinCompat.Lib.X86
import WinCompat.Loader.Trampoline

/-!
# What a trampoline does when it is called

The bytes of `emit_returning` and `emit_noreturn` are executed. A trampoline is entered the Windows
way and calls its target the System V way. Addresses on the stack are counted from `L`, the lowest
one the trampoline stores to: the return address of its own call is at `L`, the stack arguments are
from `L + 8`, the padding and the two saved registers above them, and the caller's return address at
`L + frame + 24`.
-/

namespace WinCompat.Loader

open Lib Lib.Bytes Lib.X86

/-! ## The two calling conventions -/

/-- Windows argument `k`, counted from 0, at the entry of the function. -/
def winArg (s : Cpu) : Nat → Word
  | 0 => s.regs rcx
  | 1 => s.regs rdx
  | 2 => s.regs r8
  | 3 => s.regs r9
  | k + 4 => s.load (off (s.regs rsp) (0x28 + 8 * k))

/-- System V argument `k`, counted from 0, at the entry of the function. -/
def sysvArg (s : Cpu) : Nat → Word
  | 0 => s.regs rdi
  | 1 => s.regs rsi
  | 2 => s.regs rdx
  | 3 => s.regs rcx
  | 4 => s.regs r8
  | 5 => s.regs r9
  | k + 6 => s.load (off (s.regs rsp) (8 + 8 * k))

/-- The integer registers that a System V function leaves as they were. -/
def sysvSaved : List Reg := [rbx, rbp, r12, r13, r14, r15]

/-- A function entered in state `e` has returned in state `r` as System V wants it: to its return
    address, with that address popped, the callee-saved registers as they were, and without having
    written to those bytes of its caller's frame that are the caller's own. -/
structure ObeysSysV (own : Word → Prop) (e r : Cpu) : Prop where
  returned : r.rip = e.load (e.regs rsp)
  popped : r.regs rsp = e.regs rsp + 8
  saved : ∀ q ∈ sysvSaved, r.regs q = e.regs q
  frame : ∀ a, own a → r.mem a = e.mem a

/-- The part of the stack that a trampoline entered in state `s` does not give to its callee: the two
    registers it saved and the return address of its own caller. -/
def trampolineOwn (s : Cpu) (a : Word) : Prop := (a - (s.regs rsp - 16)).toNat < 24

/-- The stores from `s` to `t` cover bytes below the stack pointer of `s` only, and at most `room`
    bytes below it. -/
def StoresBelow (room : Nat) (s t : Cpu) : Prop :=
  ∃ new, t.stores = new ++ s.stores ∧
    ∀ a ∈ new, ∃ d, 8 ≤ d ∧ d ≤ room ∧ a = s.regs rsp - BitVec.ofNat 64 d

/-- `e` is the entry of `target` as a System V function with the arguments that `s` was entered with
    as a Windows function. -/
structure Delivered (target : Word) (nArgs : Nat) (s e : Cpu) : Prop where
  rip : e.rip = target
  aligned : (e.regs rsp).toNat % 16 = 8
  args : ∀ k < nArgs, sysvArg e k = winArg s k

/-! ## The instructions -/

def saveAndReserve (frame : Nat) : List Instr :=
  [.push rdi, .push rsi, .subImm rsp (BitVec.ofNat 32 frame)]

def shuffle : List Instr := [.mov rdi rcx, .mov rsi rdx, .mov rdx r8, .mov rcx r9]

/-- The fifth argument from `[rsp + disp]` and the sixth from the next slot. -/
def loadArgs (nArgs disp : Nat) : List Instr :=
  (if nArgs ≥ 5 then [.load r8 (BitVec.ofNat 32 disp)] else []) ++
    if nArgs ≥ 6 then [.load r9 (BitVec.ofNat 32 (disp + 8))] else []

def copyArg (frame i : Nat) : List Instr :=
  [.load rax (BitVec.ofNat 32 (0x48 + frame + 8 * i)), .store (BitVec.ofNat 32 (8 * i)) rax]

def copyArgs (frame count : Nat) : List Instr := (List.range count).flatMap (copyArg frame)

/-- Up to the call. -/
def prologue (target : Word) (nArgs : Nat) : List Instr :=
  saveAndReserve (frameSize nArgs) ++ shuffle ++ loadArgs nArgs (0x38 + frameSize nArgs) ++
    copyArgs (frameSize nArgs) (stackArgs nArgs) ++ [.movImm rax target]

/-- Between the call and the return. -/
def epilogue (nArgs : Nat) : List Instr :=
  [.addImm rsp (BitVec.ofNat 32 (frameSize nArgs)), .pop rsi, .pop rdi]

theorem frameSize_pos (nArgs : Nat) : 0 < frameSize nArgs := by
  unfold frameSize
  split <;> omega

theorem emitShuffle_eq : emitShuffle = shuffle.flatMap encode := by
  decide

theorem encode_loadArgs (nArgs disp : Nat) : (loadArgs nArgs disp).flatMap encode =
    (if nArgs ≥ 5 then [0x4C, 0x8B, 0x84, 0x24] ++ imm32 disp else []) ++
      if nArgs ≥ 6 then [0x4C, 0x8B, 0x8C, 0x24] ++ imm32 (disp + 8) else [] := by
  unfold loadArgs
  rw [List.flatMap_append]
  congr 1
  · split
    · rfl
    · rfl
  · split
    · rfl
    · rfl

theorem encode_copyArgs (frame count : Nat) : (copyArgs frame count).flatMap encode =
    (List.range count).flatMap (fun i =>
      [0x48, 0x8B, 0x84, 0x24] ++ imm32 (0x48 + frame + 8 * i) ++
        ([0x48, 0x89, 0x84, 0x24] ++ imm32 (8 * i))) := by
  unfold copyArgs
  rw [List.flatMap_assoc]
  rfl

/-- The bytes are the encoding of the instructions. -/
theorem emitReturning_eq (target : Word) (nArgs : Nat) :
    emitReturning target nArgs = (prologue target nArgs).flatMap encode ++
      (encode (.call rax) ++ ((epilogue nArgs).flatMap encode ++ encode .ret)) := by
  unfold emitReturning prologue
  simp only [List.flatMap_append, encode_loadArgs, encode_copyArgs, emitShuffle_eq,
    frameSize_pos, gt_iff_lt, if_true, List.append_assoc]
  have hframe : 0x40 + frameSize nArgs = 0x38 + frameSize nArgs + 8 := by omega
  rw [hframe]
  rfl

theorem emitNoreturn_eq (target : Word) (nArgs : Nat) :
    emitNoreturn target nArgs =
      (shuffle ++ loadArgs nArgs 0x28 ++ [Instr.movImm rax target]).flatMap encode ++
        encode (.jmp rax) := by
  unfold emitNoreturn
  simp only [List.flatMap_append, encode_loadArgs, emitShuffle_eq, List.append_assoc]
  rfl

/-! ## The stages of the prologue -/

variable {s : Cpu} {L : Word} {frame nArgs : Nat}

theorem signExtend_ofNat {n : Nat} (h : n < 2 ^ 31) :
    (BitVec.ofNat 32 n).signExtend 64 = BitVec.ofNat 64 n := by
  have hmsb : (BitVec.ofNat 32 n).msb = false := by
    rw [BitVec.msb_eq_false_iff_two_mul_lt, BitVec.toNat_ofNat, Nat.mod_eq_of_lt (by omega)]
    omega
  rw [BitVec.signExtend_eq_setWidth_of_msb_false hmsb]
  apply BitVec.eq_of_toNat_eq
  rw [BitVec.toNat_setWidth, BitVec.toNat_ofNat, BitVec.toNat_ofNat]
  omega

theorem frameSize_le (h : nArgs ≤ 32) : frameSize nArgs ≤ 216 := by
  unfold frameSize stackArgs
  split <;> omega

theorem stackArgs_le_frameSize (nArgs : Nat) : 8 * stackArgs nArgs ≤ frameSize nArgs :=
  Nat.le_add_right _ _

theorem frameSize_mod (nArgs : Nat) : (frameSize nArgs + 8) % 16 = 0 := by
  unfold frameSize
  split <;> omega

attribute [local simp] Cpu.execAll Cpu.exec saveAndReserve loadArgs epilogue

theorem saveAndReserve_exec (hframe : frame < 2 ^ 31) (hrsp : s.regs rsp = off L (frame + 24)) :
    let t := s.execAll (saveAndReserve frame)
    t.regs rsp = off L 8 ∧ (∀ q, q ≠ rsp → t.regs q = s.regs q) ∧ t.xmm = s.xmm ∧
      t.mem = write64 (write64 s.mem (off L (frame + 16)) (s.regs rdi)) (off L (frame + 8))
        (s.regs rsi) ∧
      t.stores = [off L (frame + 8), off L (frame + 16)] ++ s.stores := by
  have h₁ : s.regs rsp - 8#64 = off L (frame + 16) := by
    rw [hrsp]
    exact off_sub L (frame + 16) 8
  have h₂ : off L (frame + 16) - 8#64 = off L (frame + 8) := off_sub L (frame + 8) 8
  have h₃ : off L (frame + 8) - BitVec.ofNat 64 frame = off L 8 := by
    rw [Nat.add_comm]
    exact off_sub L 8 frame
  have hrsi : rsi ≠ rsp := by decide
  refine ⟨?_, ?_, rfl, ?_, ?_⟩
  · simp [signExtend_ofNat hframe]
    rw [h₁, h₂, h₃]
  · intro q hq
    simp [Cpu.set_regs_ne hq]
  · simp [Cpu.set_regs_ne hrsi]
    rw [h₁, h₂]
  · simp
    rw [h₁, h₂]
    exact ⟨rfl, rfl⟩

theorem shuffle_exec : let t := s.execAll shuffle
    t.regs rdi = s.regs rcx ∧ t.regs rsi = s.regs rdx ∧ t.regs rdx = s.regs r8 ∧
      t.regs rcx = s.regs r9 ∧
      (∀ q, q ∉ [rdi, rsi, rdx, rcx] → t.regs q = s.regs q) ∧
      t.xmm = s.xmm ∧ t.mem = s.mem ∧ t.stores = s.stores := by
  refine ⟨rfl, rfl, rfl, rfl, ?_, rfl, rfl, rfl⟩
  intro q hq
  simp only [List.mem_cons, List.not_mem_nil, or_false, not_or] at hq
  obtain ⟨hrdi, hrsi, hrdx, hrcx⟩ := hq
  simp [shuffle, Cpu.set_regs_ne hrdi, Cpu.set_regs_ne hrsi, Cpu.set_regs_ne hrdx,
    Cpu.set_regs_ne hrcx]

theorem loadArgs_exec {disp : Nat} (hdisp : disp + 8 < 2 ^ 31) :
    let t := s.execAll (loadArgs nArgs disp)
    (nArgs ≥ 5 → t.regs r8 = s.load (off (s.regs rsp) disp)) ∧
      (nArgs ≥ 6 → t.regs r9 = s.load (off (s.regs rsp) (disp + 8))) ∧
      (∀ q, q ∉ [r8, r9] → t.regs q = s.regs q) ∧
      t.xmm = s.xmm ∧ t.mem = s.mem ∧ t.stores = s.stores := by
  have hfirst := signExtend_ofNat (n := disp) (by omega)
  have hsecond := signExtend_ofNat hdisp
  have hrsp : rsp ≠ r8 := by decide
  have hr8 : r8 ≠ r9 := by decide
  by_cases h₅ : nArgs ≥ 5
  · by_cases h₆ : nArgs ≥ 6
    · refine ⟨?_, ?_, ?_, ?_⟩
      · intro _
        simp [h₅, h₆, hfirst, Cpu.set_regs_ne hr8, off]
      · intro _
        simp [h₅, h₆, hsecond, Cpu.set_regs_ne hrsp, off, Cpu.load]
      · intro q hq
        simp only [List.mem_cons, List.not_mem_nil, or_false, not_or] at hq
        simp [h₅, h₆, Cpu.set_regs_ne hq.1, Cpu.set_regs_ne hq.2]
      · simp [h₅, h₆]
    · refine ⟨?_, ?_, ?_, ?_⟩
      · intro _
        simp [h₅, h₆, hfirst, off]
      · exact fun h => absurd h h₆
      · intro q hq
        simp only [List.mem_cons, List.not_mem_nil, or_false, not_or] at hq
        simp [h₅, h₆, Cpu.set_regs_ne hq.1]
      · simp [h₅, h₆]
  · have h₆ : ¬ nArgs ≥ 6 := fun h => h₅ (Nat.le_trans (by decide) h)
    refine ⟨fun h => absurd h h₅, fun h => absurd h h₆, ?_, ?_⟩
    · intro q _
      simp [h₅, h₆]
    · simp [h₅, h₆]

theorem copyArg_exec (hrsp : s.regs rsp = off L 8) (hframe : frame ≤ 216) {i : Nat}
    (hi : 8 * i ≤ 216) :
    let t := s.execAll (copyArg frame i)
    (∀ q, q ≠ rax → t.regs q = s.regs q) ∧ t.xmm = s.xmm ∧
      t.mem = write64 s.mem (off L (8 + 8 * i)) (s.load (off L (0x50 + frame + 8 * i))) ∧
      t.stores = off L (8 + 8 * i) :: s.stores := by
  have hsrc := signExtend_ofNat (n := 0x48 + frame + 8 * i) (by omega)
  have hdst := signExtend_ofNat (n := 8 * i) (by omega)
  have hfrom : s.regs rsp + BitVec.ofNat 64 (0x48 + frame + 8 * i) =
      off L (0x50 + frame + 8 * i) := by
    have hsum : 0x50 + frame + 8 * i = 8 + (0x48 + frame + 8 * i) := by omega
    rw [hrsp, hsum]
    exact off_off L 8 _
  have hto : s.regs rsp + BitVec.ofNat 64 (8 * i) = off L (8 + 8 * i) := by
    rw [hrsp]
    exact off_off L 8 _
  have hrax : rsp ≠ rax := by decide
  refine ⟨?_, rfl, ?_, ?_⟩
  · intro q hq
    simp [copyArg, Cpu.set_regs_ne hq]
  · simp only [copyArg, Cpu.execAll, Cpu.exec, hsrc, hdst, hfrom, Cpu.store_mem, Cpu.goto_mem,
      Cpu.set_mem, Cpu.goto_regs, Cpu.set_regs_ne hrax, Cpu.set_regs_self, hto]
  · simp only [copyArg, Cpu.execAll, Cpu.exec, hsrc, hdst, Cpu.store_stores, Cpu.goto_stores,
      Cpu.set_stores, Cpu.goto_regs, Cpu.set_regs_ne hrax, hto]

theorem copyArgs_exec (hrsp : s.regs rsp = off L 8) (hframe : frame ≤ 216) : ∀ {count : Nat},
    8 * count ≤ frame →
      let t := s.execAll (copyArgs frame count)
      (∀ q, q ≠ rax → t.regs q = s.regs q) ∧ t.xmm = s.xmm ∧
        (∀ l, 8 + 8 * count ≤ l → l < 2 ^ 64 → t.mem (off L l) = s.mem (off L l)) ∧
        (∀ j < count, t.load (off L (8 + 8 * j)) = s.load (off L (0x50 + frame + 8 * j))) ∧
        ∃ new, t.stores = new ++ s.stores ∧ ∀ a ∈ new, ∃ l, a = off L l ∧ l ≤ frame := by
  intro count
  induction count with
  | zero =>
    intro _
    refine ⟨fun q _ => rfl, rfl, fun l _ _ => rfl, ?_, [], rfl, ?_⟩
    · intro j hj
      exact absurd hj (Nat.not_lt_zero j)
    · simp
  | succ count ih =>
    intro hle
    obtain ⟨hregs, hxmm, hmem, hargs, new, hstores, hnew⟩ := ih (by omega)
    have hsplit : copyArgs frame (count + 1) = copyArgs frame count ++ copyArg frame count := by
      simp [copyArgs, List.range_succ, List.flatMap_append]
    simp only [hsplit, Cpu.execAll_append]
    generalize s.execAll (copyArgs frame count) = t at hregs hxmm hmem hargs hstores ⊢
    have htrsp : t.regs rsp = off L 8 := by rw [hregs rsp (by decide), hrsp]
    obtain ⟨hregs', hxmm', hmem', hstores'⟩ :=
      copyArg_exec (L := L) htrsp hframe (i := count) (by omega)
    refine ⟨?_, ?_, ?_, ?_, off L (8 + 8 * count) :: new, ?_, ?_⟩
    · intro q hq
      rw [hregs' q hq, hregs q hq]
    · rw [hxmm', hxmm]
    · intro l hl hlt
      rw [hmem', write64_off (Or.inr (by omega)) (by omega) hlt]
      exact hmem l (by omega) hlt
    · intro j hj
      unfold Cpu.load at hargs ⊢
      rw [hmem']
      by_cases hjc : j = count
      · -- The slot just written. Its source is above everything written so far.
        subst hjc
        rw [read64_write64_self]
        apply read64_congr
        intro b hb
        rw [show off L (0x50 + frame + 8 * j) + BitVec.ofNat 64 b =
          off L (0x50 + frame + 8 * j + b) from off_off L _ b]
        exact hmem _ (by omega) (by omega)
      · rw [read64_write64_off (Or.inl (by omega)) (by omega) (by omega)]
        exact hargs j (by omega)
    · rw [hstores', hstores]
      rfl
    · intro a ha
      rcases List.mem_cons.mp ha with rfl | ha
      · exact ⟨_, rfl, by omega⟩
      · exact hnew a ha

/-- The registers that a trampoline changes. -/
def trampolineUses : List Reg := [rax, rcx, rdx, rsp, rsi, rdi, r8, r9]

/-- What the prologue leaves for the call, in terms of the state `s` the trampoline was entered in. -/
structure Prepared (target : Word) (nArgs : Nat) (L : Word) (s c : Cpu) : Prop where
  target_eq : c.regs rax = target
  sp : c.regs rsp = off L 8
  first : c.regs rdi = s.regs rcx
  second : c.regs rsi = s.regs rdx
  third : c.regs rdx = s.regs r8
  fourth : c.regs rcx = s.regs r9
  fifth : nArgs ≥ 5 → c.regs r8 = s.load (off L (frameSize nArgs + 24 + 0x28))
  sixth : nArgs ≥ 6 → c.regs r9 = s.load (off L (frameSize nArgs + 24 + 0x30))
  onStack : ∀ j < stackArgs nArgs,
    c.load (off L (8 + 8 * j)) = s.load (off L (frameSize nArgs + 24 + (0x38 + 8 * j)))
  savedRdi : c.load (off L (frameSize nArgs + 16)) = s.regs rdi
  savedRsi : c.load (off L (frameSize nArgs + 8)) = s.regs rsi
  above : ∀ l, frameSize nArgs + 24 ≤ l → l < 2 ^ 64 → c.mem (off L l) = s.mem (off L l)
  others : ∀ q, q ∉ trampolineUses → c.regs q = s.regs q
  xmm : c.xmm = s.xmm
  stores : ∃ new, c.stores = new ++ s.stores ∧
    ∀ a ∈ new, ∃ l, a = off L l ∧ l ≤ frameSize nArgs + 16

theorem load_congr {t : Cpu} {b : Word} {k l : Nat}
    (h : ∀ x, l ≤ x → x < 2 ^ 64 → t.mem (off b x) = s.mem (off b x)) (hk : l ≤ k)
    (hlt : k + 8 ≤ 2 ^ 64) : t.load (off b k) = s.load (off b k) := by
  apply read64_congr
  intro j hj
  have heq : off b k + BitVec.ofNat 64 j = off b (k + j) := off_off b k j
  rw [heq]
  exact h _ (by omega) (by omega)

theorem prologue_exec (target : Word) (hn : nArgs ≤ 32)
    (hrsp : s.regs rsp = off L (frameSize nArgs + 24)) :
    Prepared target nArgs L s (s.execAll (prologue target nArgs)) := by
  have hframe := frameSize_le hn
  have hcount := stackArgs_le_frameSize nArgs
  unfold prologue
  simp only [Cpu.execAll_append]
  generalize hf : frameSize nArgs = frame at hframe hcount hrsp ⊢
  -- The frame: both registers saved, the slots for the stack arguments below them.
  obtain ⟨hsp₁, hregs₁, hxmm₁, hmem₁, hstores₁⟩ := saveAndReserve_exec (by omega) hrsp
  generalize s.execAll (saveAndReserve frame) = t₁ at hsp₁ hregs₁ hxmm₁ hmem₁ hstores₁ ⊢
  have habove₁ : ∀ l, frame + 24 ≤ l → l < 2 ^ 64 → t₁.mem (off L l) = s.mem (off L l) := by
    intro l hl hlt
    rw [hmem₁, write64_off (Or.inr (by omega)) (by omega) hlt,
      write64_off (Or.inr (by omega)) (by omega) hlt]
  obtain ⟨hrdi₂, hrsi₂, hrdx₂, hrcx₂, hregs₂, hxmm₂, hmem₂, hstores₂⟩ := @shuffle_exec t₁
  generalize t₁.execAll shuffle = t₂ at hrdi₂ hrsi₂ hrdx₂ hrcx₂ hregs₂ hxmm₂ hmem₂ hstores₂ ⊢
  have hsp₂ : t₂.regs rsp = off L 8 := by rw [hregs₂ rsp (by decide), hsp₁]
  obtain ⟨hr8₃, hr9₃, hregs₃, hxmm₃, hmem₃, hstores₃⟩ :=
    @loadArgs_exec t₂ nArgs (0x38 + frame) (by omega)
  generalize t₂.execAll (loadArgs nArgs (0x38 + frame)) = t₃
    at hr8₃ hr9₃ hregs₃ hxmm₃ hmem₃ hstores₃ ⊢
  have hsp₃ : t₃.regs rsp = off L 8 := by rw [hregs₃ rsp (by decide), hsp₂]
  obtain ⟨hregs₄, hxmm₄, hmem₄, hargs₄, new, hstores₄, hnew⟩ := copyArgs_exec hsp₃ hframe hcount
  generalize t₃.execAll (copyArgs frame (stackArgs nArgs)) = t₄
    at hregs₄ hxmm₄ hmem₄ hargs₄ hstores₄ ⊢
  have hlow : ∀ l, 8 + 8 * stackArgs nArgs ≤ l → l < 2 ^ 64 → t₄.mem (off L l) = t₁.mem (off L l) := by
    intro l hl hlt
    rw [hmem₄ l hl hlt, hmem₃, hmem₂]
  have hload₁ : ∀ l, frame + 24 ≤ l → l + 8 ≤ 2 ^ 64 →
      t₁.load (off L l) = s.load (off L l) := fun l hl hlt => load_congr habove₁ hl hlt
  have hkeep : ∀ q, q ≠ rax →
      (t₄.execAll [.movImm rax target]).regs q = t₃.regs q := by
    intro q hq
    simp [Cpu.set_regs_ne hq, hregs₄ q hq]
  constructor
  · rfl
  · rw [hkeep rsp (by decide), hsp₃]
  · rw [hkeep rdi (by decide), hregs₃ rdi (by decide), hrdi₂, hregs₁ rcx (by decide)]
  · rw [hkeep rsi (by decide), hregs₃ rsi (by decide), hrsi₂, hregs₁ rdx (by decide)]
  · rw [hkeep rdx (by decide), hregs₃ rdx (by decide), hrdx₂, hregs₁ r8 (by decide)]
  · rw [hkeep rcx (by decide), hregs₃ rcx (by decide), hrcx₂, hregs₁ r9 (by decide)]
  · intro h₅
    have hslot : off (t₂.regs rsp) (0x38 + frame) = off L (frame + 24 + 0x28) := by
      rw [hsp₂, off_off]
      congr 1
      omega
    rw [hkeep r8 (by decide), hr8₃ h₅, hslot, hf]
    unfold Cpu.load at hload₁ ⊢
    rw [hmem₂, hload₁ _ (by omega) (by omega)]
  · intro h₆
    have hslot : off (t₂.regs rsp) (0x38 + frame + 8) = off L (frame + 24 + 0x30) := by
      rw [hsp₂, off_off]
      congr 1
      omega
    rw [hkeep r9 (by decide), hr9₃ h₆, hslot, hf]
    unfold Cpu.load at hload₁ ⊢
    rw [hmem₂, hload₁ _ (by omega) (by omega)]
  · intro j hj
    have hsum : 0x50 + frame + 8 * j = frame + 24 + (0x38 + 8 * j) := by omega
    have hcopied := hargs₄ j hj
    rw [hsum] at hcopied
    rw [hf]
    refine hcopied.trans ?_
    unfold Cpu.load at hload₁ ⊢
    rw [hmem₃, hmem₂, hload₁ _ (by omega) (by omega)]
  · rw [hf]
    refine (load_congr hlow (by omega) (by omega)).trans ?_
    unfold Cpu.load
    rw [hmem₁, read64_write64_off (Or.inr (by omega)) (by omega) (by omega), read64_write64_self]
  · rw [hf]
    refine (load_congr hlow (by omega) (by omega)).trans ?_
    unfold Cpu.load
    rw [hmem₁, read64_write64_self]
  · intro l hl hlt
    rw [hf] at hl
    exact (hlow l (by omega) hlt).trans (habove₁ l hl hlt)
  · intro q hq
    simp only [trampolineUses, List.mem_cons, List.not_mem_nil, or_false, not_or] at hq
    obtain ⟨hrax, hrcx, hrdx, hrsp', hrsi, hrdi, hr8, hr9⟩ := hq
    rw [hkeep q hrax, hregs₃ q (by simp [hr8, hr9]), hregs₂ q (by simp [hrdi, hrsi, hrdx, hrcx]),
      hregs₁ q hrsp']
  · exact hxmm₄.trans (hxmm₃.trans (hxmm₂.trans hxmm₁))
  · refine ⟨new ++ [off L (frame + 8), off L (frame + 16)], ?_, ?_⟩
    · rw [List.append_assoc, ← hstores₁, ← hstores₂, ← hstores₃, ← hstores₄]
      rfl
    · intro a ha
      rw [hf]
      rcases List.mem_append.mp ha with ha | ha
      · obtain ⟨l, rfl, hl⟩ := hnew a ha
        exact ⟨l, rfl, by omega⟩
      · simp only [List.mem_cons, List.not_mem_nil, or_false] at ha
        rcases ha with rfl | rfl
        · exact ⟨_, rfl, by omega⟩
        · exact ⟨_, rfl, by omega⟩

theorem epilogue_exec (hn : nArgs ≤ 32) (hrsp : s.regs rsp = off L 8) :
    let t := s.execAll (epilogue nArgs)
    t.regs rsp = off L (frameSize nArgs + 24) ∧
      t.regs rsi = s.load (off L (frameSize nArgs + 8)) ∧
      t.regs rdi = s.load (off L (frameSize nArgs + 16)) ∧
      (∀ q, q ∉ [rsp, rsi, rdi] → t.regs q = s.regs q) ∧
      t.xmm = s.xmm ∧ t.mem = s.mem ∧ t.stores = s.stores := by
  have himm := signExtend_ofNat (n := frameSize nArgs) (by have := frameSize_le hn; omega)
  have h₁ : s.regs rsp + BitVec.ofNat 64 (frameSize nArgs) = off L (frameSize nArgs + 8) := by
    rw [hrsp, Nat.add_comm]
    exact off_off L 8 _
  have h₂ : off L (frameSize nArgs + 8) + 8#64 = off L (frameSize nArgs + 16) := off_off L _ 8
  have h₃ : off L (frameSize nArgs + 16) + 8#64 = off L (frameSize nArgs + 24) := off_off L _ 8
  have hrsi : rsp ≠ rsi := by decide
  have hrdi : rsp ≠ rdi := by decide
  have hboth : rsi ≠ rdi := by decide
  refine ⟨?_, ?_, ?_, ?_, rfl, rfl, rfl⟩
  · simp [himm, h₁, Cpu.set_regs_ne hrsi, Cpu.set_regs_ne hrdi]
    rw [h₂, h₃]
  · simp [himm, h₁, Cpu.set_regs_ne hboth, Cpu.set_regs_ne hrsi.symm, Cpu.load]
  · simp [himm, h₁, Cpu.set_regs_ne hrsi, Cpu.load]
    rw [h₂]
  · intro q hq
    simp only [List.mem_cons, List.not_mem_nil, or_false, not_or] at hq
    simp [Cpu.set_regs_ne hq.1, Cpu.set_regs_ne hq.2.1, Cpu.set_regs_ne hq.2.2]

/-! ## The call and the return -/

/-- The lowest address that a trampoline entered in state `s` stores to. -/
def lowest (nArgs : Nat) (s : Cpu) : Word := s.regs rsp - BitVec.ofNat 64 (frameSize nArgs + 24)

theorem off_lowest (nArgs : Nat) (s : Cpu) :
    off (lowest nArgs s) (frameSize nArgs + 24) = s.regs rsp := BitVec.sub_add_cancel _ _

/-- The state at the entry of the target. -/
structure Entered (target : Word) (nArgs : Nat) (s e : Cpu) : Prop where
  rip : e.rip = target
  args : ∀ k < nArgs, sysvArg e k = winArg s k
  sp : e.regs rsp = lowest nArgs s
  savedRdi : e.load (off (lowest nArgs s) (frameSize nArgs + 16)) = s.regs rdi
  savedRsi : e.load (off (lowest nArgs s) (frameSize nArgs + 8)) = s.regs rsi
  above : ∀ l, frameSize nArgs + 24 ≤ l → l < 2 ^ 64 →
    e.mem (off (lowest nArgs s) l) = s.mem (off (lowest nArgs s) l)
  others : ∀ q, q ∉ trampolineUses → e.regs q = s.regs q
  xmm : e.xmm = s.xmm
  stores : StoresBelow (frameSize nArgs + 24) s e

theorem lowest_aligned (halign : (s.regs rsp).toNat % 16 = 8) (nArgs : Nat) :
    (lowest nArgs s).toNat % 16 = 8 := by
  have hmod := frameSize_mod nArgs
  unfold lowest
  rw [BitVec.toNat_sub, BitVec.toNat_ofNat]
  omega

variable {target : Word}

theorem Entered.delivered {e : Cpu} (h : Entered target nArgs s e)
    (halign : (s.regs rsp).toNat % 16 = 8) : Delivered target nArgs s e where
  rip := h.rip
  aligned := by
    rw [h.sp]
    exact lowest_aligned halign nArgs
  args := h.args

theorem Prepared.call {c : Cpu} (next : Word) (hn : nArgs ≤ 32)
    (h : Prepared target nArgs (lowest nArgs s) s c) :
    Entered target nArgs s (c.exec next (.call rax)) ∧
      (c.exec next (.call rax)).load (lowest nArgs s) = next := by
  have hframe := frameSize_le hn
  have hcount := stackArgs_le_frameSize nArgs
  have hL := off_lowest nArgs s
  have hdown : c.regs rsp - 8 = off (lowest nArgs s) 0 := by
    rw [h.sp]
    exact off_sub _ 0 8
  have hregs : ∀ q, q ≠ rsp → (c.exec next (.call rax)).regs q = c.regs q := fun q hq =>
    Cpu.set_regs_ne hq
  have hsp : (c.exec next (.call rax)).regs rsp = lowest nArgs s := by
    rw [← off_zero (lowest nArgs s), ← hdown]
    rfl
  have hmem : (c.exec next (.call rax)).mem = write64 c.mem (off (lowest nArgs s) 0) next := by
    rw [← hdown]
    rfl
  have hload : ∀ l, 8 ≤ l → l + 8 ≤ 2 ^ 64 →
      (c.exec next (.call rax)).load (off (lowest nArgs s) l) = c.load (off (lowest nArgs s) l) := by
    intro l hl hlt
    unfold Cpu.load
    rw [hmem, read64_write64_off (Or.inr hl) (by decide) hlt]
  have hwin : ∀ k, winArg s (k + 4) =
      s.load (off (lowest nArgs s) (frameSize nArgs + 24 + (0x28 + 8 * k))) := by
    intro k
    rw [← off_off, hL]
    rfl
  refine ⟨⟨h.target_eq, ?_, hsp, ?_, ?_, ?_, ?_, h.xmm, ?_⟩, ?_⟩
  · intro k hk
    match k with
    | 0 => exact (hregs rdi (by decide)).trans h.first
    | 1 => exact (hregs rsi (by decide)).trans h.second
    | 2 => exact (hregs rdx (by decide)).trans h.third
    | 3 => exact (hregs rcx (by decide)).trans h.fourth
    | 4 => exact (hregs r8 (by decide)).trans ((h.fifth hk).trans (hwin 0).symm)
    | 5 => exact (hregs r9 (by decide)).trans ((h.sixth hk).trans (hwin 1).symm)
    | k + 6 =>
      have hslot : k < stackArgs nArgs := by
        unfold stackArgs
        omega
      have hsum : 0x28 + 8 * (k + 2) = 0x38 + 8 * k := by omega
      rw [sysvArg, hsp, hload _ (by omega) (by omega), h.onStack k hslot, hwin (k + 2), hsum]
  · rw [hload _ (by omega) (by omega), h.savedRdi]
  · rw [hload _ (by omega) (by omega), h.savedRsi]
  · intro l hl hlt
    rw [hmem, write64_off (Or.inr (by omega)) (by decide) hlt]
    exact h.above l hl hlt
  · intro q hq
    have hne : q ≠ rsp := by
      intro heq
      subst heq
      exact hq (by decide)
    rw [hregs q hne, h.others q hq]
  · obtain ⟨new, hnew, hbound⟩ := h.stores
    refine ⟨off (lowest nArgs s) 0 :: new, ?_, ?_⟩
    · rw [List.cons_append, ← hnew, ← hdown]
      rfl
    · -- An offset from the lowest address is a distance below the entry stack pointer.
      have hdist : ∀ l, l ≤ frameSize nArgs + 16 →
          off (lowest nArgs s) l = s.regs rsp - BitVec.ofNat 64 (frameSize nArgs + 24 - l) := by
        intro l hl
        rw [← hL, ← off_sub (lowest nArgs s) l (frameSize nArgs + 24 - l),
          Nat.add_sub_cancel' (by omega)]
      intro a ha
      rcases List.mem_cons.mp ha with rfl | ha
      · exact ⟨_, by omega, by omega, hdist 0 (Nat.zero_le _)⟩
      · obtain ⟨l, rfl, hl⟩ := hbound a ha
        exact ⟨_, by omega, by omega, hdist l hl⟩
  · unfold Cpu.load
    rw [hmem, off_zero, read64_write64_self]

/-- What a returning trampoline leaves when its target returned in state `r`. -/
structure Returned (s r f : Cpu) : Prop where
  rip : f.rip = s.load (s.regs rsp)
  sp : f.regs rsp = s.regs rsp + 8
  restoredRdi : f.regs rdi = s.regs rdi
  restoredRsi : f.regs rsi = s.regs rsi
  others : ∀ q, q ∉ [rsp, rsi, rdi] → f.regs q = r.regs q
  xmm : f.xmm = r.xmm
  mem : f.mem = r.mem
  stores : f.stores = r.stores

theorem shuffle_plain : ∀ i ∈ shuffle, i.Plain := by
  intro i hi
  simp only [shuffle, List.mem_cons, List.not_mem_nil, or_false] at hi
  rcases hi with rfl | rfl | rfl | rfl <;> trivial

theorem loadArgs_plain (nArgs disp : Nat) : ∀ i ∈ loadArgs nArgs disp, i.Plain := by
  intro i hi
  rcases List.mem_append.mp hi with hi | hi
  · split at hi
    · cases List.mem_singleton.mp hi
      trivial
    · cases hi
  · split at hi
    · cases List.mem_singleton.mp hi
      trivial
    · cases hi

theorem prologue_plain (target : Word) (nArgs : Nat) : ∀ i ∈ prologue target nArgs, i.Plain := by
  intro i hi
  simp only [prologue, saveAndReserve, copyArgs, copyArg, List.mem_append, List.mem_flatMap,
    List.mem_cons, List.not_mem_nil, or_false] at hi
  rcases hi with (((hi | hi) | hi) | ⟨j, -, hi⟩) | hi
  · rcases hi with rfl | rfl | rfl <;> trivial
  · exact shuffle_plain i hi
  · exact loadArgs_plain _ _ i hi
  · rcases hi with rfl | rfl <;> trivial
  · cases hi
    trivial

theorem epilogue_plain (nArgs : Nat) : ∀ i ∈ epilogue nArgs, i.Plain := by
  intro i hi
  simp only [epilogue, List.mem_cons, List.not_mem_nil, or_false] at hi
  rcases hi with rfl | rfl | rfl <;> trivial

theorem trampolineOwn_off (nArgs : Nat) (hn : nArgs ≤ 32) {l : Nat} (hlow : frameSize nArgs + 8 ≤ l)
    (hhigh : l < frameSize nArgs + 32) : trampolineOwn s (off (lowest nArgs s) l) := by
  have hframe := frameSize_le hn
  have hbase : s.regs rsp - 16 = off (lowest nArgs s) (frameSize nArgs + 8) := by
    rw [← off_lowest nArgs s]
    exact off_sub _ (frameSize nArgs + 8) 16
  unfold trampolineOwn
  rw [hbase, off_sub_off _ hlow (by omega)]
  omega

theorem ObeysSysV.load_eq {e r : Cpu} (hr : ObeysSysV (trampolineOwn s) e r) (hn : nArgs ≤ 32)
    {l : Nat} (hlow : frameSize nArgs + 8 ≤ l) (hhigh : l + 8 ≤ frameSize nArgs + 32) :
    r.load (off (lowest nArgs s) l) = e.load (off (lowest nArgs s) l) := by
  apply read64_congr
  intro j hj
  have heq : off (lowest nArgs s) l + BitVec.ofNat 64 j = off (lowest nArgs s) (l + j) :=
    off_off _ l j
  rw [heq]
  exact hr.frame _ (trampolineOwn_off nArgs hn (by omega) (by omega))

theorem Entered.returns {code : Mem} {target next : Word} {e r : Cpu} (hn : nArgs ≤ 32)
    (h : Entered target nArgs s e) (hback : e.load (lowest nArgs s) = next)
    (hcode : CodeAt code next ((epilogue nArgs).flatMap encode ++ encode .ret))
    (hr : ObeysSysV (trampolineOwn s) e r) :
    ∃ f, (machine code).Run r f ∧ Returned s r f := by
  have hframe := frameSize_le hn
  have hL := off_lowest nArgs s
  have hrip : r.rip = next := by rw [hr.returned, h.sp, hback]
  have hrsp : r.regs rsp = off (lowest nArgs s) 8 := by
    rw [hr.popped, h.sp]
    rfl
  rw [← hrip, codeAt_append] at hcode
  obtain ⟨hsp, hrsi, hrdi, hothers, hxmm, hmem, hstores⟩ := epilogue_exec hn hrsp
  have hplain := epilogue_plain nArgs
  have hrun := run_execAll hplain hcode.1
  have hret := hcode.2
  rw [← Cpu.execAll_rip hplain] at hret
  generalize r.execAll (epilogue nArgs) = t at hsp hrsi hrdi hothers hxmm hmem hstores hrun hret
  have hone := Machine.Run.one (M := machine code) () _ (step_of_codeAt hret)
  refine ⟨_, hrun.trans hone, ?_, ?_, ?_, ?_, ?_, ?_, ?_, ?_⟩
  · -- The return address of the caller: neither the trampoline nor its target wrote there.
    have hentry : e.load (off (lowest nArgs s) (frameSize nArgs + 24)) =
        s.load (off (lowest nArgs s) (frameSize nArgs + 24)) :=
      load_congr h.above (Nat.le_refl _) (by omega)
    have hkept := hr.load_eq hn (l := frameSize nArgs + 24) (by omega) (by omega)
    rw [hL] at hentry hkept hsp
    rw [← hentry, ← hkept, ← hsp]
    unfold Cpu.load
    rw [← hmem]
    rfl
  · rw [← hL, ← hsp]
    exact Cpu.set_regs_self
  · refine (Cpu.set_regs_ne (by decide)).trans ?_
    rw [Cpu.goto_regs, hrdi, hr.load_eq hn (by omega) (by omega), h.savedRdi]
  · refine (Cpu.set_regs_ne (by decide)).trans ?_
    rw [Cpu.goto_regs, hrsi, hr.load_eq hn (by omega) (by omega), h.savedRsi]
  · intro q hq
    have hne : q ≠ rsp := by
      intro heq
      subst heq
      exact hq List.mem_cons_self
    exact (Cpu.set_regs_ne hne).trans (hothers q hq)
  · exact hxmm
  · exact hmem
  · exact hstores

theorem returning_run {code : Mem} (hn : nArgs ≤ 32)
    (hcode : CodeAt code s.rip (emitReturning target nArgs)) :
    ∃ c e, (machine code).Run s c ∧ c.regs rsp = lowest nArgs s + 8 ∧
      decode (fetch code c.rip 15) = some (.call rax, 2) ∧ step code c = some e ∧
      Entered target nArgs s e ∧
      ∀ r, ObeysSysV (trampolineOwn s) e r →
        ∃ f, (machine code).Run r f ∧ Returned s r f := by
  rw [emitReturning_eq, codeAt_append] at hcode
  obtain ⟨hpro, hrest⟩ := hcode
  have hplain := prologue_plain target nArgs
  have hprep := prologue_exec target hn (off_lowest nArgs s).symm
  have hrun := run_execAll hplain hpro
  rw [← Cpu.execAll_rip hplain, codeAt_append] at hrest
  obtain ⟨hcall, hback⟩ := hrest
  generalize s.execAll (prologue target nArgs) = c at hprep hrun hcall hback
  obtain ⟨hentered, hnext⟩ :=
    hprep.call (off c.rip (encode (.call rax)).length) hn
  refine ⟨c, _, hrun, hprep.sp, decode_of_codeAt hcall, step_of_codeAt hcall, hentered, ?_⟩
  intro r hr
  exact hentered.returns hn hnext hback hr

/-! ## The tail jump -/

theorem noreturn_run {code : Mem} (hcode : CodeAt code s.rip (emitNoreturn target nArgs))
    (hn : nArgs ≤ 6) :
    ∃ c e, (machine code).Run s c ∧ decode (fetch code c.rip 15) = some (.jmp rax, 2) ∧
      step code c = some e ∧ e.rip = target ∧ (∀ k < nArgs, sysvArg e k = winArg s k) ∧
      e.regs rsp = s.regs rsp ∧ e.stores = s.stores := by
  rw [emitNoreturn_eq, codeAt_append] at hcode
  obtain ⟨hpro, hjump⟩ := hcode
  have hplain : ∀ i ∈ shuffle ++ loadArgs nArgs 0x28 ++ [Instr.movImm rax target], i.Plain := by
    intro i hi
    simp only [List.mem_append, List.mem_singleton] at hi
    rcases hi with (hi | hi) | rfl
    · exact shuffle_plain i hi
    · exact loadArgs_plain _ _ i hi
    · trivial
  have hrun := run_execAll hplain hpro
  rw [← Cpu.execAll_rip hplain] at hjump
  refine ⟨_, _, hrun, decode_of_codeAt hjump, step_of_codeAt hjump, ?_⟩
  simp only [Cpu.execAll_append]
  obtain ⟨hrdi₁, hrsi₁, hrdx₁, hrcx₁, hregs₁, -, hmem₁, hstores₁⟩ := @shuffle_exec s
  generalize s.execAll shuffle = t₁ at hrdi₁ hrsi₁ hrdx₁ hrcx₁ hregs₁ hmem₁ hstores₁ ⊢
  obtain ⟨hr8₂, hr9₂, hregs₂, -, -, hstores₂⟩ := @loadArgs_exec t₁ nArgs 0x28 (by decide)
  generalize t₁.execAll (loadArgs nArgs 0x28) = t₂ at hr8₂ hr9₂ hregs₂ hstores₂ ⊢
  have hsp₁ : t₁.regs rsp = s.regs rsp := hregs₁ rsp (by decide)
  have hkeep : ∀ q, q ≠ rax → (t₂.execAll [.movImm rax target]).regs q = t₂.regs q := by
    intro q hq
    simp [Cpu.set_regs_ne hq]
  refine ⟨rfl, ?_, ?_, ?_⟩
  · intro k hk
    obtain _ | _ | _ | _ | _ | _ | k := k
    · exact (hkeep rdi (by decide)).trans ((hregs₂ rdi (by decide)).trans hrdi₁)
    · exact (hkeep rsi (by decide)).trans ((hregs₂ rsi (by decide)).trans hrsi₁)
    · exact (hkeep rdx (by decide)).trans ((hregs₂ rdx (by decide)).trans hrdx₁)
    · exact (hkeep rcx (by decide)).trans ((hregs₂ rcx (by decide)).trans hrcx₁)
    · refine (hkeep r8 (by decide)).trans ((hr8₂ hk).trans ?_)
      unfold Cpu.load
      rw [hmem₁, hsp₁]
      rfl
    · refine (hkeep r9 (by decide)).trans ((hr9₂ hk).trans ?_)
      unfold Cpu.load
      rw [hmem₁, hsp₁]
      rfl
    · omega
  · exact (hkeep rsp (by decide)).trans ((hregs₂ rsp (by decide)).trans hsp₁)
  · exact hstores₂.trans hstores₁

/-! ## Arguments are delivered -/

/-- **A trampoline delivers the arguments it was called with.** The returning one makes its call on a
    16-byte boundary, stores nothing at or above the stack pointer it was entered with, and goes back
    to its caller with what its target returned; the other jumps to its target. -/
theorem thunk_delivers (code : Mem) (target : Word) (nArgs : Nat) (s : Cpu)
    (halign : (s.regs rsp).toNat % 16 = 8) :
    (nArgs ≤ 32 → CodeAt code s.rip (emitReturning target nArgs) →
      ∃ c e, (machine code).Run s c ∧ (c.regs rsp).toNat % 16 = 0 ∧
        decode (fetch code c.rip 15) = some (.call rax, 2) ∧ step code c = some e ∧
        Delivered target nArgs s e ∧ StoresBelow (frameSize nArgs + 24) s e ∧
        ∀ r, ObeysSysV (trampolineOwn s) e r →
          ∃ f, (machine code).Run r f ∧ f.rip = s.load (s.regs rsp) ∧
            f.regs rsp = s.regs rsp + 8 ∧ f.regs rdi = s.regs rdi ∧ f.regs rsi = s.regs rsi ∧
            f.regs rax = r.regs rax ∧ f.mem = r.mem ∧ f.stores = r.stores) ∧
    (nArgs ≤ 6 → CodeAt code s.rip (emitNoreturn target nArgs) →
      ∃ c e, (machine code).Run s c ∧ decode (fetch code c.rip 15) = some (.jmp rax, 2) ∧
        step code c = some e ∧ Delivered target nArgs s e ∧ e.regs rsp = s.regs rsp ∧
        e.stores = s.stores) := by
  constructor
  · intro hn hcode
    obtain ⟨c, e, hrun, hsp, hdecode, hstep, hentered, hback⟩ := returning_run hn hcode
    refine ⟨c, e, hrun, ?_, hdecode, hstep, hentered.delivered halign, hentered.stores, ?_⟩
    · have haligned := lowest_aligned halign nArgs
      have h₈ : (8 : Word).toNat = 8 := rfl
      rw [hsp, BitVec.toNat_add, h₈]
      omega
    · intro r hr
      obtain ⟨f, hrun', hf⟩ := hback r hr
      exact ⟨f, hrun', hf.rip, hf.sp, hf.restoredRdi, hf.restoredRsi, hf.others rax (by decide), hf.mem, hf.stores⟩
  · intro hn hcode
    obtain ⟨c, e, hrun, hdecode, hstep, hrip, hargs, hsp, hstores⟩ := noreturn_run hcode hn
    exact ⟨c, e, hrun, hdecode, hstep, ⟨hrip, by rw [hsp, halign], hargs⟩, hsp, hstores⟩

/-- A target that returns right away, with `v` in RAX. -/
def leave (e : Cpu) (v : Word) : Cpu := (e.exec 0 .ret).set rax v

theorem obeysSysV_leave (own : Word → Prop) (e : Cpu) (v : Word) :
    ObeysSysV own e (leave e v) where
  returned := rfl
  popped := (Cpu.set_regs_ne (by decide)).trans Cpu.set_regs_self
  saved q hq := by
    have hne : q ≠ rax ∧ q ≠ rsp := by
      revert q
      decide
    exact (Cpu.set_regs_ne hne.1).trans (Cpu.set_regs_ne hne.2)
  frame _ _ := rfl

/-- The entry of a trampoline at `0x10000`, with the stack at `0x7fff0008`. -/
def sampleEntry : Cpu where
  regs q := if q = rsp then 0x7fff0008 else BitVec.ofNat 64 q.val
  xmm _ := 0
  rip := 0x10000
  mem a := a.extractLsb' 0 8
  stores := []

/-- Trampolines for the function at `0x401000`. -/
def sampleCode (nArgs : Nat) : Mem := place 0x10000 (emitReturning 0x401000 nArgs)

theorem thunk_delivers_seven :
    ∃ e, Delivered 0x401000 7 sampleEntry e ∧
      ∃ f, (machine (sampleCode 7)).Run (leave e 42) f ∧
        f.rip = sampleEntry.load (sampleEntry.regs rsp) ∧ f.regs rax = 42 := by
  have hcode : CodeAt (sampleCode 7) sampleEntry.rip (emitReturning 0x401000 7) :=
    codeAt_place (by decide)
  obtain ⟨-, e, -, -, -, -, hdelivered, -, hback⟩ :=
    (thunk_delivers (sampleCode 7) 0x401000 7 sampleEntry (by decide)).1 (by decide) hcode
  obtain ⟨f, hrun, hrip, -, -, -, hrax, -⟩ := hback _ (obeysSysV_leave _ e 42)
  exact ⟨e, hdelivered, f, hrun, hrip, hrax⟩

/-! ## Non-volatile registers -/

/-- The integer registers, RSP apart, that a Windows function leaves as they were. -/
def winSaved : List Reg := [rbx, rbp, rdi, rsi, r12, r13, r14, r15]

/-- Entered in state `s`, a Windows function has returned in state `f` with every non-volatile register
    as it was: the stack pointer with the return address popped, and XMM6 to XMM15. -/
structure NonvolatileKept (s f : Cpu) : Prop where
  regs : ∀ q ∈ winSaved, f.regs q = s.regs q
  sp : f.regs rsp = s.regs rsp + 8
  xmm : ∀ i, 6 ≤ i → f.xmm i = s.xmm i

theorem Returned.nonvolatileKept_iff {e r f : Cpu} {own : Word → Prop}
    (h : Entered target nArgs s e) (hr : ObeysSysV own e r) (hf : Returned s r f) :
    NonvolatileKept s f ↔ ∀ i, 6 ≤ i → r.xmm i = e.xmm i := by
  constructor
  · intro hkept i hi
    rw [← hf.xmm, hkept.xmm i hi, h.xmm]
  · intro hxmm
    constructor
    · intro q hq
      by_cases hrdi : q = rdi
      · rw [hrdi, hf.restoredRdi]
      by_cases hrsi : q = rsi
      · rw [hrsi, hf.restoredRsi]
      have hsaved : q ∈ sysvSaved ∧ q ∉ [rsp, rsi, rdi] ∧ q ∉ trampolineUses := by
        revert q
        decide
      rw [hf.others q hsaved.2.1, hr.saved q hsaved.1, h.others q hsaved.2.2]
    · exact hf.sp
    · intro i hi
      rw [hf.xmm, hxmm i hi, h.xmm]

/-- **Non-volatile registers survive a trampoline exactly if its target leaves XMM6 to XMM15 alone**,
    which System V does not ask of it. -/
theorem nonvolatile_kept_iff (code : Mem) (target : Word) (nArgs : Nat) (s : Cpu) (hn : nArgs ≤ 32)
    (hcode : CodeAt code s.rip (emitReturning target nArgs)) :
    ∃ c e, (machine code).Run s c ∧ step code c = some e ∧ e.rip = target ∧
      ∀ r, ObeysSysV (trampolineOwn s) e r →
        ∃ f, (machine code).Run r f ∧ f.rip = s.load (s.regs rsp) ∧
          (NonvolatileKept s f ↔ ∀ i, 6 ≤ i → r.xmm i = e.xmm i) := by
  obtain ⟨c, e, hrun, -, -, hstep, hentered, hback⟩ := returning_run hn hcode
  refine ⟨c, e, hrun, hstep, hentered.rip, ?_⟩
  intro r hr
  obtain ⟨f, hrun', hf⟩ := hback r hr
  exact ⟨f, hrun', hf.rip, Returned.nonvolatileKept_iff hentered hr hf⟩

theorem nonvolatile_kept_iff_two :
    ∃ e, e.rip = 0x401000 ∧ ∃ f, (machine (sampleCode 2)).Run (leave e 42) f ∧
      NonvolatileKept sampleEntry f := by
  have hcode : CodeAt (sampleCode 2) sampleEntry.rip (emitReturning 0x401000 2) :=
    codeAt_place (by decide)
  obtain ⟨-, e, -, -, hrip, hback⟩ :=
    nonvolatile_kept_iff (sampleCode 2) 0x401000 2 sampleEntry (by decide) hcode
  obtain ⟨f, hrun, -, hiff⟩ := hback _ (obeysSysV_leave _ e 42)
  exact ⟨e, hrip, f, hrun, hiff.mpr fun _ _ => rfl⟩

/-- A target that returns with XMM6 changed. -/
def clobberXmm6 (e : Cpu) : Cpu :=
  { leave e 42 with xmm := Function.update e.xmm 6 (e.xmm 6 + 1) }

theorem xmm6_not_kept :
    ∃ c e f, (machine (sampleCode 2)).Run sampleEntry c ∧ step (sampleCode 2) c = some e ∧
      e.rip = 0x401000 ∧ ObeysSysV (trampolineOwn sampleEntry) e (clobberXmm6 e) ∧
      (machine (sampleCode 2)).Run (clobberXmm6 e) f ∧
      f.rip = sampleEntry.load (sampleEntry.regs rsp) ∧ ¬ NonvolatileKept sampleEntry f := by
  have hcode : CodeAt (sampleCode 2) sampleEntry.rip (emitReturning 0x401000 2) :=
    codeAt_place (by decide)
  obtain ⟨c, e, hrun, -, -, hstep, hentered, hback⟩ := returning_run (by decide) hcode
  have hleave := obeysSysV_leave (trampolineOwn sampleEntry) e 42
  have hobeys : ObeysSysV (trampolineOwn sampleEntry) e (clobberXmm6 e) :=
    ⟨hleave.returned, hleave.popped, hleave.saved, hleave.frame⟩
  obtain ⟨f, hrun', hf⟩ := hback _ hobeys
  refine ⟨c, e, f, hrun, hstep, hentered.rip, hobeys, hrun', hf.rip, ?_⟩
  intro hkept
  have hxmm := (Returned.nonvolatileKept_iff hentered hobeys hf).mp hkept 6 (by decide)
  have hzero : e.xmm 6 = 0 := congrFun hentered.xmm 6
  simp [clobberXmm6, hzero] at hxmm

end WinCompat.Loader
