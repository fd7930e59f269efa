import WinCompat.Lib.Bytes
import WinCompat.Lib.Machine

/-!
# A fragment of x86-64, from its bytes

Decoding and execution of the 64-bit instructions that glue code is made of: pushes and pops, moves
between registers, immediates, `rsp`-relative loads and stores, adjustments of a register by an
immediate, indirect calls and jumps, and returns. Bytes outside the fragment do not decode and the
processor stops there.

Code is fetched from a memory of its own, which is how execute-only-or-read-only code pages look to
a program. Flags are left out: nothing in the fragment reads them. `stores` records the addresses
of the 64-bit stores, newest first, so that "has not been written" can be said of a byte whose value
happens to be the same.
-/

namespace WinCompat.Lib.X86

open Lib.Bytes

abbrev Reg := Fin 16

def rax : Reg := 0
def rcx : Reg := 1
def rdx : Reg := 2
def rbx : Reg := 3
def rsp : Reg := 4
def rbp : Reg := 5
def rsi : Reg := 6
def rdi : Reg := 7
def r8 : Reg := 8
def r9 : Reg := 9
def r10 : Reg := 10
def r11 : Reg := 11
def r12 : Reg := 12
def r13 : Reg := 13
def r14 : Reg := 14
def r15 : Reg := 15

inductive Instr
  | push (r : Reg)
  | pop (r : Reg)
  | addImm (r : Reg) (imm : BitVec 32)
  | subImm (r : Reg) (imm : BitVec 32)
  | mov (dst src : Reg)
  | movImm (dst : Reg) (imm : Word)
  /-- `mov dst, [rsp + disp]` -/
  | load (dst : Reg) (disp : BitVec 32)
  /-- `mov [rsp + disp], src` -/
  | store (disp : BitVec 32) (src : Reg)
  | call (r : Reg)
  | jmp (r : Reg)
  | ret
  deriving DecidableEq

/-! ## The encoding -/

/-- The REX prefix `0100WR0B`. -/
def rexByte (w r b : Bool) : Byte :=
  0b0100#4 ++ BitVec.ofBool w ++ BitVec.ofBool r ++ 0#1 ++ BitVec.ofBool b

def modrmByte (mod : BitVec 2) (reg rm : BitVec 3) : Byte := mod ++ reg ++ rm

/-- An opcode with a register in its low bits. -/
def opReg (op : BitVec 5) (reg : BitVec 3) : Byte := op ++ reg

/-- The bit of a register number that goes into the REX prefix. -/
def Reg.ext (r : Reg) : Bool := 8 ≤ r.val

def Reg.low (r : Reg) : BitVec 3 := BitVec.ofNat 3 r.val

def Reg.of (ext : Bool) (low : BitVec 3) : Reg :=
  ⟨(if ext then 8 else 0) + low.toNat, by have := low.isLt; split <;> omega⟩

/-- A REX prefix where the register needs one. -/
def rexIfExt (r : Reg) : List Byte := if Reg.ext r then [rexByte false false true] else []

/-- The bytes an assembler writes for the instruction, prefix first. -/
def encode : Instr → List Byte
  | .push r => rexIfExt r ++ [opReg 0b01010 (Reg.low r)]
  | .pop r => rexIfExt r ++ [opReg 0b01011 (Reg.low r)]
  | .addImm r imm =>
    [rexByte true false (Reg.ext r), 0x81, modrmByte 3 0 (Reg.low r)] ++ le32 imm
  | .subImm r imm =>
    [rexByte true false (Reg.ext r), 0x81, modrmByte 3 5 (Reg.low r)] ++ le32 imm
  | .mov dst src =>
    [rexByte true (Reg.ext src) (Reg.ext dst), 0x89, modrmByte 3 (Reg.low src) (Reg.low dst)]
  | .movImm dst imm => [rexByte true false (Reg.ext dst), opReg 0b10111 (Reg.low dst)] ++ le64 imm
  | .load dst disp =>
    [rexByte true (Reg.ext dst) false, 0x8B, modrmByte 2 (Reg.low dst) 4, 0x24] ++ le32 disp
  | .store disp src =>
    [rexByte true (Reg.ext src) false, 0x89, modrmByte 2 (Reg.low src) 4, 0x24] ++ le32 disp
  | .call r => rexIfExt r ++ [0xFF, modrmByte 3 2 (Reg.low r)]
  | .jmp r => rexIfExt r ++ [0xFF, modrmByte 3 4 (Reg.low r)]
  | .ret => [0xC3]

structure Rex where
  w : Bool
  r : Bool
  x : Bool
  b : Bool
  deriving DecidableEq

/-- What follows a ModRM byte that names two registers. -/
def decodeDirect (rex : Rex) (op : Byte) (reg rm : BitVec 3) (rest : List Byte) :
    Option (Instr × Nat) :=
  if op = 0x81 ∧ rex.w then
    match rest with
    | b₀ :: b₁ :: b₂ :: b₃ :: _ =>
      if reg = 5 then some (.subImm (Reg.of rex.b rm) (b₃ ++ b₂ ++ b₁ ++ b₀), 6)
      else if reg = 0 then some (.addImm (Reg.of rex.b rm) (b₃ ++ b₂ ++ b₁ ++ b₀), 6)
      else none
    | _ => none
  else if op = 0x89 ∧ rex.w then some (.mov (Reg.of rex.b rm) (Reg.of rex.r reg), 2)
  else if op = 0x8B ∧ rex.w then some (.mov (Reg.of rex.r reg) (Reg.of rex.b rm), 2)
  else if op = 0xFF then
    if reg = 2 then some (.call (Reg.of rex.b rm), 2)
    else if reg = 4 then some (.jmp (Reg.of rex.b rm), 2)
    else none
  else none

/-- What follows a ModRM byte for a SIB byte and a 32-bit displacement: here, from `rsp` alone. -/
def decodeRspDisp (rex : Rex) (op : Byte) (reg : BitVec 3) : List Byte → Option (Instr × Nat)
  | 0x24#8 :: b₀ :: b₁ :: b₂ :: b₃ :: _ =>
    if rex.x ∨ rex.b then none
    else if op = 0x89 ∧ rex.w then some (.store (b₃ ++ b₂ ++ b₁ ++ b₀) (Reg.of rex.r reg), 7)
    else if op = 0x8B ∧ rex.w then some (.load (Reg.of rex.r reg) (b₃ ++ b₂ ++ b₁ ++ b₀), 7)
    else none
  | _ => none

/-- An opcode after its prefix, with the number of bytes read. -/
def decodeOp (rex : Rex) : List Byte → Option (Instr × Nat)
  | [] => none
  | op :: rest =>
    if op.extractLsb' 3 5 = 0b01010 then some (.push (Reg.of rex.b (op.extractLsb' 0 3)), 1)
    else if op.extractLsb' 3 5 = 0b01011 then some (.pop (Reg.of rex.b (op.extractLsb' 0 3)), 1)
    else if op.extractLsb' 3 5 = 0b10111 ∧ rex.w then
      match rest with
      | b₀ :: b₁ :: b₂ :: b₃ :: b₄ :: b₅ :: b₆ :: b₇ :: _ =>
        some (.movImm (Reg.of rex.b (op.extractLsb' 0 3))
          (b₇ ++ b₆ ++ b₅ ++ b₄ ++ b₃ ++ b₂ ++ b₁ ++ b₀), 9)
      | _ => none
    else if op = 0xC3 then some (.ret, 1)
    else
      match rest with
      | [] => none
      | modrm :: rest =>
        if modrm.extractLsb' 6 2 = 3 then
          decodeDirect rex op (modrm.extractLsb' 3 3) (modrm.extractLsb' 0 3) rest
        else if modrm.extractLsb' 6 2 = 2 ∧ modrm.extractLsb' 0 3 = 4 then
          decodeRspDisp rex op (modrm.extractLsb' 3 3) rest
        else none

/-- One instruction and its length, or `none` for bytes outside the fragment. -/
def decode : List Byte → Option (Instr × Nat)
  | [] => none
  | b :: rest =>
    if b.extractLsb' 4 4 = 4 then
      (decodeOp ⟨b.getLsbD 3, b.getLsbD 2, b.getLsbD 1, b.getLsbD 0⟩ rest).map
        fun r => (r.1, r.2 + 1)
    else decodeOp ⟨false, false, false, false⟩ (b :: rest)

/-! ## Decoding what was encoded -/

theorem rexByte_fields (w r b : Bool) :
    (rexByte w r b).extractLsb' 4 4 = 4 ∧ (rexByte w r b).getLsbD 3 = w ∧
      (rexByte w r b).getLsbD 2 = r ∧ (rexByte w r b).getLsbD 1 = false ∧
      (rexByte w r b).getLsbD 0 = b := by
  revert w r b
  decide

@[simp] theorem modrmByte_mod (mod : BitVec 2) (reg rm : BitVec 3) :
    (modrmByte mod reg rm).extractLsb' 6 2 = mod := by
  revert mod reg rm
  decide

@[simp] theorem modrmByte_reg (mod : BitVec 2) (reg rm : BitVec 3) :
    (modrmByte mod reg rm).extractLsb' 3 3 = reg := by
  revert mod reg rm
  decide

@[simp] theorem modrmByte_rm (mod : BitVec 2) (reg rm : BitVec 3) :
    (modrmByte mod reg rm).extractLsb' 0 3 = rm := by
  revert mod reg rm
  decide

@[simp] theorem opReg_op (op : BitVec 5) (reg : BitVec 3) :
    (opReg op reg).extractLsb' 3 5 = op := by
  revert op reg
  decide

@[simp] theorem opReg_reg (op : BitVec 5) (reg : BitVec 3) :
    (opReg op reg).extractLsb' 0 3 = reg := by
  revert op reg
  decide

@[simp] theorem reg_of_ext_low (r : Reg) : Reg.of (Reg.ext r) (Reg.low r) = r := by
  revert r
  decide

theorem decode_rex (w r b : Bool) (rest : List Byte) :
    decode (rexByte w r b :: rest) = (decodeOp ⟨w, r, false, b⟩ rest).map fun r => (r.1, r.2 + 1) := by
  obtain ⟨h₄, h₃, h₂, h₁, h₀⟩ := rexByte_fields w r b
  simp only [decode, h₄, h₃, h₂, h₁, h₀, if_true]

variable {i : Instr}

theorem decode_rexIfExt (r : Reg) {op : Byte} {rest : List Byte} {n : Nat}
    (hop : op.extractLsb' 4 4 ≠ 4)
    (h : decodeOp ⟨false, false, false, Reg.ext r⟩ (op :: rest) = some (i, n)) :
    decode (rexIfExt r ++ op :: rest) = some (i, (rexIfExt r).length + n) := by
  unfold rexIfExt
  cases hr : Reg.ext r with
  | true =>
    rw [hr] at h
    simp only [if_true, List.singleton_append]
    rw [decode_rex, h, Option.map_some, List.length_singleton, Nat.add_comm]
  | false =>
    rw [hr] at h
    have hplain : decode (op :: rest) = some (i, n) := by
      rw [decode, if_neg hop]
      exact h
    simp [hplain]

theorem opReg_ne_rex {op : BitVec 5} (hop : op ≠ 8 ∧ op ≠ 9) (reg : BitVec 3) :
    (opReg op reg).extractLsb' 4 4 ≠ 4 := by
  revert op reg
  decide

section

attribute [local simp] encode decode_rex decodeOp decodeDirect decodeRspDisp le32 le64

/-- What follows an instruction does not change how it is read, so code can be read off its bytes
    one instruction at a time. -/
theorem decode_encode (i : Instr) (rest : List Byte) :
    decode (encode i ++ rest) = some (i, (encode i).length) := by
  cases i with
  | push r =>
    simp only [encode, List.append_assoc, List.singleton_append, List.length_append,
      List.length_singleton]
    apply decode_rexIfExt r (opReg_ne_rex (by decide) _)
    simp
  | pop r =>
    simp only [encode, List.append_assoc, List.singleton_append, List.length_append,
      List.length_singleton]
    apply decode_rexIfExt r (opReg_ne_rex (by decide) _)
    simp
  | addImm r imm =>
    simp [append_le32]
  | subImm r imm =>
    simp [append_le32]
  | mov dst src =>
    simp
  | movImm dst imm =>
    simp [append_le64]
  | load dst disp =>
    simp [append_le32]
  | store disp src =>
    simp [append_le32]
  | call r =>
    simp only [encode, List.append_assoc, List.cons_append, List.nil_append, List.length_append]
    apply decode_rexIfExt r (by decide)
    simp
  | jmp r =>
    simp only [encode, List.append_assoc, List.cons_append, List.nil_append, List.length_append]
    apply decode_rexIfExt r (by decide)
    simp
  | ret => simp [decode]

theorem encode_length_le (i : Instr) : (encode i).length ≤ 15 := by
  have hpre : ∀ r, (rexIfExt r).length ≤ 1 := by decide
  cases i with
  | push r | pop r | call r | jmp r =>
    have := hpre r
    simp
    omega
  | _ => simp

end

/-! ## Execution -/

/-- Registers, the instruction pointer and data memory. The code is kept apart, as no instruction of
    the fragment writes to it. -/
structure Cpu where
  regs : Reg → Word
  xmm : Fin 16 → BitVec 128
  rip : Word
  mem : Mem
  /-- The addresses of the 64-bit stores so far, newest first. -/
  stores : List Word

namespace Cpu

def set (s : Cpu) (r : Reg) (v : Word) : Cpu := { s with regs := Function.update s.regs r v }

def goto (s : Cpu) (a : Word) : Cpu := { s with rip := a }

def load (s : Cpu) (a : Word) : Word := read64 s.mem a

def store (s : Cpu) (a v : Word) : Cpu :=
  { s with mem := write64 s.mem a v, stores := a :: s.stores }

/-- One instruction, with the address of the one after it. -/
def exec (s : Cpu) (next : Word) : Instr → Cpu
  | .push r => ((s.goto next).store (s.regs rsp - 8) (s.regs r)).set rsp (s.regs rsp - 8)
  | .pop r => ((s.goto next).set rsp (s.regs rsp + 8)).set r (s.load (s.regs rsp))
  | .addImm r imm => (s.goto next).set r (s.regs r + imm.signExtend 64)
  | .subImm r imm => (s.goto next).set r (s.regs r - imm.signExtend 64)
  | .mov dst src => (s.goto next).set dst (s.regs src)
  | .movImm dst imm => (s.goto next).set dst imm
  | .load dst disp => (s.goto next).set dst (s.load (s.regs rsp + disp.signExtend 64))
  | .store disp src => (s.goto next).store (s.regs rsp + disp.signExtend 64) (s.regs src)
  | .call r => ((s.goto (s.regs r)).store (s.regs rsp - 8) next).set rsp (s.regs rsp - 8)
  | .jmp r => s.goto (s.regs r)
  | .ret => (s.goto (s.load (s.regs rsp))).set rsp (s.regs rsp + 8)

end Cpu

/-- The bytes from an address on. -/
def fetch (code : Mem) (a : Word) : Nat → List Byte
  | 0 => []
  | n + 1 => code a :: fetch code (off a 1) n

/-- No instruction is longer than 15 bytes. -/
def step (code : Mem) (s : Cpu) : Option Cpu :=
  (decode (fetch code s.rip 15)).map fun r => s.exec (off s.rip r.2) r.1

def machine (code : Mem) : Machine Cpu Unit where
  init _ := True
  next s _ := step code s

/-- The bytes at an address. -/
def CodeAt (code : Mem) (a : Word) : List Byte → Prop
  | [] => True
  | b :: bs => code a = b ∧ CodeAt code (off a 1) bs

variable {code : Mem}

theorem codeAt_append : ∀ {bs bs' : List Byte} {a : Word},
    CodeAt code a (bs ++ bs') ↔ CodeAt code a bs ∧ CodeAt code (off a bs.length) bs' := by
  intro bs
  induction bs with
  | nil =>
    intro bs' a
    simp [CodeAt]
  | cons b bs ih =>
    intro bs' a
    rw [List.cons_append, CodeAt, CodeAt, ih, off_off, List.length_cons, Nat.add_comm 1, and_assoc]

/-- Code memory with these bytes at `a`. -/
def place (a : Word) (bs : List Byte) : Mem := fun x => bs.getD (x - a).toNat 0

theorem codeAt_place {a : Word} {bs : List Byte} (h : bs.length ≤ 2 ^ 64) :
    CodeAt (place a bs) a bs := by
  have hfrom : ∀ ys xs : List Byte, bs = xs ++ ys → CodeAt (place a bs) (off a xs.length) ys := by
    intro ys
    induction ys with
    | nil =>
      intro xs _
      trivial
    | cons y ys ih =>
      intro xs hxs
      have hlt : xs.length < 2 ^ 64 := by
        rw [hxs, List.length_append, List.length_cons] at h
        omega
      have hat := off_sub_off a (Nat.zero_le xs.length) hlt
      rw [off_zero] at hat
      constructor
      · unfold place
        rw [hat, hxs]
        simp
      · have hrest := ih (xs ++ [y]) (by simp [hxs])
        rw [List.length_append, List.length_singleton] at hrest
        rw [off_off]
        exact hrest
  have hall := hfrom bs [] rfl
  rwa [List.length_nil, off_zero] at hall

theorem fetch_of_codeAt : ∀ {bs : List Byte} {a : Word} {n : Nat}, CodeAt code a bs →
    bs.length ≤ n → ∃ rest, fetch code a n = bs ++ rest := by
  intro bs
  induction bs with
  | nil =>
    intro a n _ _
    exact ⟨_, rfl⟩
  | cons b bs ih =>
    intro a n h hn
    cases n with
    | zero => simp at hn
    | succ n =>
      obtain ⟨rest, hrest⟩ := ih h.2 (Nat.le_of_succ_le_succ hn)
      exact ⟨rest, by rw [fetch, h.1, hrest, List.cons_append]⟩

theorem decode_of_codeAt {a : Word} (h : CodeAt code a (encode i)) :
    decode (fetch code a 15) = some (i, (encode i).length) := by
  obtain ⟨rest, hrest⟩ := fetch_of_codeAt h (encode_length_le i)
  rw [hrest, decode_encode]

theorem step_of_codeAt {s : Cpu} (h : CodeAt code s.rip (encode i)) :
    step code s = some (s.exec (off s.rip (encode i).length) i) := by
  rw [step, decode_of_codeAt h, Option.map_some]

/-! ## Straight-line code -/

/-- The instruction goes on to the one after it. -/
def Instr.Plain : Instr → Prop
  | .call _ | .jmp _ | .ret => False
  | _ => True

/-- The instructions one after another. -/
def Cpu.execAll (s : Cpu) : List Instr → Cpu
  | [] => s
  | i :: is => (s.exec (off s.rip (encode i).length) i).execAll is

theorem Cpu.execAll_append : ∀ {is js : List Instr} {s : Cpu},
    s.execAll (is ++ js) = (s.execAll is).execAll js := by
  intro is
  induction is with
  | nil =>
    intro js s
    rfl
  | cons i is ih =>
    intro js s
    exact ih

theorem Instr.Plain.rip (h : i.Plain) (s : Cpu) (next : Word) : (s.exec next i).rip = next := by
  cases i with
  | call r => exact h.elim
  | jmp r => exact h.elim
  | ret => exact h.elim
  | _ => rfl

theorem Cpu.execAll_rip : ∀ {is : List Instr} {s : Cpu}, (∀ i ∈ is, i.Plain) →
    (s.execAll is).rip = off s.rip (is.flatMap encode).length := by
  intro is
  induction is with
  | nil =>
    intro s _
    simp [Cpu.execAll]
  | cons i is ih =>
    intro s h
    rw [Cpu.execAll, ih fun j hj => h j (List.mem_cons_of_mem _ hj),
      (h i List.mem_cons_self).rip, off_off, List.flatMap_cons, List.length_append]

/-- Straight-line code runs to its end. -/
theorem run_execAll : ∀ {is : List Instr} {s : Cpu}, (∀ i ∈ is, i.Plain) →
    CodeAt code s.rip (is.flatMap encode) → (machine code).Run s (s.execAll is) := by
  intro is
  induction is with
  | nil =>
    intro s _ _
    exact Machine.Run.refl
  | cons i is ih =>
    intro s h hcode
    rw [List.flatMap_cons, codeAt_append] at hcode
    have hone := Machine.Run.one (M := machine code) () _ (step_of_codeAt hcode.1)
    apply hone.trans
    apply ih fun j hj => h j (List.mem_cons_of_mem _ hj)
    rw [(h i List.mem_cons_self).rip]
    exact hcode.2

/-! ## Reading the state after an instruction -/

namespace Cpu

variable {s : Cpu} {r q : Reg} {a v : Word}

@[simp] theorem goto_regs : (s.goto a).regs = s.regs := rfl
@[simp] theorem goto_xmm : (s.goto a).xmm = s.xmm := rfl
@[simp] theorem goto_rip : (s.goto a).rip = a := rfl
@[simp] theorem goto_mem : (s.goto a).mem = s.mem := rfl
@[simp] theorem goto_stores : (s.goto a).stores = s.stores := rfl
@[simp] theorem set_xmm : (s.set r v).xmm = s.xmm := rfl
@[simp] theorem set_rip : (s.set r v).rip = s.rip := rfl
@[simp] theorem set_mem : (s.set r v).mem = s.mem := rfl
@[simp] theorem set_stores : (s.set r v).stores = s.stores := rfl
@[simp] theorem store_regs : (s.store a v).regs = s.regs := rfl
@[simp] theorem store_xmm : (s.store a v).xmm = s.xmm := rfl
@[simp] theorem store_rip : (s.store a v).rip = s.rip := rfl
@[simp] theorem store_mem : (s.store a v).mem = write64 s.mem a v := rfl
@[simp] theorem store_stores : (s.store a v).stores = a :: s.stores := rfl
@[simp] theorem set_regs_self : (s.set r v).regs r = v := Function.update_self _ _ _

theorem set_regs_ne (h : q ≠ r) : (s.set r v).regs q = s.regs q := Function.update_of_ne h _ _

end Cpu

end WinCompat.Lib.X86
