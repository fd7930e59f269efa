import WinCompat.Seh.Unwind

/-!
# Prologues, their encoding, and what they leave on the stack

The other side of `virtual_unwind`: what a Windows x64 prologue does to the registers and the stack,
and how it is described in UNWIND_INFO. This is the format, not the source: each code has the prolog
offset in its low byte, the operation in the low nibble of its high byte and the op-info in the
high nibble; codes are stored in descending prolog-offset order, each followed by its operands.

`Layout` is the symbolic run of a prologue. Relative to the RSP at entry it says where RSP is, what
each register holds, and which byte of what was last stored at each distance. It is computed
without a machine state, and `Lays` ties it to every state.
-/

namespace WinCompat.Seh

open Lib.Bytes

/-- Rbx, Rbp, Rsi, Rdi and R12 to R15. -/
abbrev Nonvol := { r : Reg // r ∈ ([3, 5, 6, 7, 12, 13, 14, 15] : List Reg) }

inductive Op
  | pushNonvol (r : Nonvol)
  -- `8 * k + 8` bytes
  | allocSmall (k : Fin 16)
  -- `8 * n` bytes
  | allocLarge (n : BitVec 16)
  -- `n` bytes
  | allocLargeFar (n : BitVec 32)
  | setFpreg
  -- at RSP + `8 * n`
  | saveNonvol (r : Nonvol) (n : BitVec 16)
  -- at RSP + `n`
  | saveNonvolFar (r : Nonvol) (n : BitVec 32)
  deriving DecidableEq

/-- The operation and the op-info of a code. -/
def Op.opByte : Op → Byte
  | .pushNonvol r => BitVec.ofNat 8 (0 + 16 * r.val.val)
  | .allocLarge _ => BitVec.ofNat 8 (1 + 16 * 0)
  | .allocLargeFar _ => BitVec.ofNat 8 (1 + 16 * 1)
  | .allocSmall k => BitVec.ofNat 8 (2 + 16 * k.val)
  | .setFpreg => BitVec.ofNat 8 3
  | .saveNonvol r _ => BitVec.ofNat 8 (4 + 16 * r.val.val)
  | .saveNonvolFar r _ => BitVec.ofNat 8 (5 + 16 * r.val.val)

/-- The slots after the code; a 32-bit operand is stored low half first. -/
def Op.operands : Op → List (BitVec 16)
  | .allocLarge n | .saveNonvol _ n => [n]
  | .allocLargeFar n | .saveNonvolFar _ n => [n.extractLsb' 0 16, n.extractLsb' 16 16]
  | _ => []

/-- The unwind codes of a prologue whose operations end at the given prolog offsets. -/
def slots (ops : List (Byte × Op)) : List (BitVec 16) :=
  ops.reverse.flatMap fun o => (o.2.opByte ++ o.1) :: o.2.operands

/-- A prologue, with its operations in the order they are executed. -/
structure Prologue where
  flags : Fin 32
  size : Byte
  ops : List (Byte × Op)
  /-- The frame register, and its distance from RSP in units of 16. -/
  frame : Option (Nonvol × Fin 16)
  ascending : ops.Pairwise fun a b => a.1 < b.1
  /-- A frame register is set once, or there is none. -/
  framed : (ops.map Prod.snd).count .setFpreg = if frame.isSome then 1 else 0
  fits : (slots ops).length ≤ 255

namespace Prologue

def frameByte (p : Prologue) : Byte :=
  match p.frame with
  | some (f, off) => BitVec.ofNat 8 (f.val.val + off.val * 16)
  | none => 0

/-- UNWIND_INFO, version 1. -/
def encode (p : Prologue) : List Byte :=
  [BitVec.ofNat 8 (1 + p.flags.val * 8), p.size, BitVec.ofNat 8 (slots p.ops).length,
    p.frameByte] ++
    (slots p.ops).flatMap fun w => [w.extractLsb' 0 8, w.extractLsb' 8 8]

end Prologue

/-! ## Running a prologue -/

structure Cpu where
  regs : Reg → Word
  mem : Mem

def Cpu.rsp (s : Cpu) : Word := s.regs 4

def Cpu.setReg (s : Cpu) (r : Reg) (v : Word) : Cpu :=
  { s with regs := Function.update s.regs r v }

def Cpu.store (s : Cpu) (a : Word) (r : Reg) : Cpu :=
  { s with mem := write64 s.mem a (s.regs r) }

/-- How far an operation lowers RSP. -/
def Op.alloc : Op → Word
  | .pushNonvol _ => 8
  | .allocSmall k => BitVec.ofNat 64 (k.val * 8 + 8)
  | .allocLarge n => n.zeroExtend 64 * 8
  | .allocLargeFar n => n.zeroExtend 64
  | .setFpreg | .saveNonvol _ _ | .saveNonvolFar _ _ => 0

/-- The register an operation stores, and how far above the RSP it leaves. -/
def Op.stores : Op → Option (Nonvol × Word)
  | .pushNonvol r => some (r, 0)
  | .saveNonvol r n => some (r, n.zeroExtend 64 * 8)
  | .saveNonvolFar r n => some (r, n.zeroExtend 64)
  | .allocSmall _ | .allocLarge _ | .allocLargeFar _ | .setFpreg => none

/-- One operation: it lowers RSP, then stores a register or sets the frame register. -/
def Cpu.exec (frame : Option (Nonvol × Fin 16)) (s : Cpu) (op : Op) : Cpu :=
  let s' := s.setReg 4 (s.rsp - op.alloc)
  match op, op.stores, frame with
  | _, some (r, d), _ => s'.store (s'.rsp + d) r
  | .setFpreg, none, some (f, off) => s'.setReg f (s'.rsp + BitVec.ofNat 64 (off.val * 16))
  | _, _, _ => s'

/-- The address of the cell an operation executed in `s` stores to. -/
def Cpu.cell (s : Cpu) (op : Op) : Option Word :=
  op.stores.map fun rd => s.rsp - op.alloc + rd.2

/-- The cells that operations store to, from `s` on. -/
def cells (frame : Option (Nonvol × Fin 16)) : Cpu → List Op → List Word
  | _, [] => []
  | s, op :: rest => (s.cell op).toList ++ cells frame (s.exec frame op) rest

namespace Prologue

def run (p : Prologue) (s : Cpu) : Cpu := (p.ops.map Prod.snd).foldl (Cpu.exec p.frame) s

def cells (p : Prologue) (s : Cpu) : List Word := Seh.cells p.frame s (p.ops.map Prod.snd)

def Saves (p : Prologue) (r : Nonvol) : Prop :=
  ∃ op ∈ p.ops.map Prod.snd, ∃ d, op.stores = some (r, d)

end Prologue

/-! ## The symbolic run -/

/-- A word known from the entry state: what a register held, or a distance from the entry RSP. -/
inductive Sym
  | entry (r : Reg)
  | frame (d : Word)
  deriving DecidableEq

/-- What a byte of the stack is: what was there at entry, or a byte of a word stored since. -/
inductive Src
  | orig
  | stored (v : Sym) (j : Nat)
  deriving DecidableEq

structure Layout where
  /-- The distance of RSP from the entry RSP. -/
  disp : Word
  regs : Reg → Sym
  src : Word → Src

namespace Layout

def start : Layout := ⟨0, .entry, fun _ => .orig⟩

def store (l : Layout) (d : Word) (r : Reg) : Layout :=
  { l with src := fun e =>
      if (e - d).toNat < 8 then .stored (l.regs r) (e - d).toNat else l.src e }

def exec (frame : Option (Nonvol × Fin 16)) (l : Layout) (op : Op) : Layout :=
  let l' := { l with disp := l.disp - op.alloc }
  match op, op.stores, frame with
  | _, some (r, d), _ => l'.store (l'.disp + d) r
  | .setFpreg, none, some (f, off) =>
      { l' with
        regs := Function.update l'.regs f (.frame (l'.disp + BitVec.ofNat 64 (off.val * 16))) }
  | _, _, _ => l'

end Layout

def Prologue.layout (p : Prologue) : Layout :=
  (p.ops.map Prod.snd).foldl (Layout.exec p.frame) Layout.start

def Sym.value (entry : Cpu) : Sym → Word
  | .entry r => entry.regs r
  | .frame d => entry.rsp + d

def Src.value (entry : Cpu) (e : Word) : Src → Byte
  | .orig => entry.mem (entry.rsp + e)
  | .stored v j => byte (v.value entry) j

/-- The state `s` is as the layout says, for the entry state `entry`. -/
structure Lays (entry : Cpu) (l : Layout) (s : Cpu) : Prop where
  rsp : s.rsp = entry.rsp + l.disp
  regs : ∀ r, r ≠ 4 → s.regs r = (l.regs r).value entry
  mem : ∀ e, s.mem (entry.rsp + e) = (l.src e).value entry e

theorem ne_rsp_of_nonvol (r : Nonvol) : r.val ≠ 4 := by
  obtain ⟨r, hr⟩ := r
  intro e
  subst e
  revert hr
  decide

theorem lays_start (entry : Cpu) : Lays entry Layout.start entry :=
  ⟨(BitVec.add_zero _).symm, fun _ _ => rfl, fun _ => rfl⟩

/-- Lowering RSP. -/
theorem Lays.alloc {entry s : Cpu} {l : Layout} (h : Lays entry l s) (n : Word) :
    Lays entry { l with disp := l.disp - n } (s.setReg 4 (s.rsp - n)) := by
  refine ⟨?_, ?_, h.mem⟩
  · show Function.update s.regs 4 (s.rsp - n) 4 = entry.rsp + (l.disp - n)
    rw [Function.update_self, h.rsp]
    simp only [BitVec.sub_eq_add_neg, BitVec.add_assoc]
  · intro r hr
    show Function.update s.regs 4 _ r = _
    rw [Function.update_of_ne hr]
    exact h.regs r hr

theorem Lays.store {entry s : Cpu} {l : Layout} (h : Lays entry l s) (d : Word) {r : Reg}
    (hr : r ≠ 4) : Lays entry (l.store (l.disp + d) r) (s.store (s.rsp + d) r) := by
  refine ⟨h.rsp, h.regs, ?_⟩
  intro e
  have hdist : entry.rsp + e - (s.rsp + d) = e - (l.disp + d) := by
    rw [h.rsp]
    bv_omega
  show write64 s.mem (s.rsp + d) (s.regs r) (entry.rsp + e) = _
  unfold write64 Layout.store
  rw [hdist, h.regs r hr]
  dsimp only
  split
  · rfl
  · exact h.mem e

theorem Lays.exec {entry s : Cpu} {l : Layout} (h : Lays entry l s)
    (frame : Option (Nonvol × Fin 16)) (op : Op) :
    Lays entry (l.exec frame op) (s.exec frame op) := by
  have ha := h.alloc op.alloc
  unfold Layout.exec Cpu.exec
  cases op with
  | pushNonvol r | saveNonvol r n | saveNonvolFar r n =>
    exact ha.store _ (ne_rsp_of_nonvol r)
  | allocSmall k | allocLarge n | allocLargeFar n => exact ha
  | setFpreg =>
    cases frame with
    | none => exact ha
    | some fo =>
      obtain ⟨f, off⟩ := fo
      refine ⟨?_, ?_, ha.mem⟩
      · show Function.update (Function.update s.regs 4 (s.rsp - 0)) f.val _ 4 = _
        rw [Function.update_of_ne (ne_rsp_of_nonvol f).symm]
        exact ha.rsp
      · intro r hr
        show Function.update (Function.update s.regs 4 (s.rsp - 0)) f.val _ r =
          (Function.update l.regs f.val _ r).value entry
        by_cases hf : r = f.val
        · subst hf
          rw [Function.update_self, Function.update_self, ha.rsp, BitVec.add_assoc]
          rfl
        · rw [Function.update_of_ne hf, Function.update_of_ne hf]
          exact ha.regs r hr

theorem Lays.foldl {entry : Cpu} (frame : Option (Nonvol × Fin 16)) (ops : List Op) :
    ∀ {l : Layout} {s : Cpu}, Lays entry l s →
      Lays entry (ops.foldl (Layout.exec frame) l) (ops.foldl (Cpu.exec frame) s) := by
  induction ops with
  | nil => intro l s h; exact h
  | cons op rest ih => intro l s h; exact ih (h.exec frame op)

theorem Prologue.run_lays (p : Prologue) (entry : Cpu) : Lays entry p.layout (p.run entry) :=
  Lays.foldl p.frame _ (lays_start entry)

end WinCompat.Seh
