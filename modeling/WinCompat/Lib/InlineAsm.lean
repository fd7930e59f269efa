import WinCompat.Lib.X86

/-!
# Blocks of inline assembly that call

Compiled code around a block keeps values in registers. It knows of the block which registers its
inputs were put into and which ones it declares as outputs or clobbers; any other register it takes
to be as it was (`Block.Keeps`). What the block calls is a relation between the state in which it is
entered and those in which it may have returned, and all that is known of it is its convention.
-/

namespace WinCompat.Lib.InlineAsm

open Bytes X86

inductive Register
  | gp (r : Reg)
  | xmm (i : Fin 16)
  deriving DecidableEq

inductive Instr
  | mov (dst src : Reg)
  /-- The low halves; the upper half of `dst` is cleared. -/
  | mov32 (dst src : Reg)
  | xor (dst src : Reg)
  | subImm (r : Reg) (imm : Word)
  /-- `mov dst, [base + disp]` -/
  | load (dst base : Reg) (disp : Word)
  deriving DecidableEq

namespace Instr

def exec (s : Cpu) : Instr → Cpu
  | .mov dst src => s.set dst (s.regs src)
  | .mov32 dst src => s.set dst (((s.regs src).setWidth 32).setWidth 64)
  | .xor dst src => s.set dst (s.regs dst ^^^ s.regs src)
  | .subImm r imm => s.set r (s.regs r - imm)
  | .load dst base disp => s.set dst (s.load (s.regs base + disp))

/-- The only register that it writes. -/
def dst : Instr → Reg
  | .mov dst _ | .mov32 dst _ | .xor dst _ | .subImm dst _ | .load dst _ _ => dst

theorem exec_regs_ne {s : Cpu} {i : Instr} {r : Reg} (h : r ≠ i.dst) :
    (i.exec s).regs r = s.regs r := by
  cases i <;> exact Function.update_of_ne h _ _

theorem exec_xmm (s : Cpu) (i : Instr) : (i.exec s).xmm = s.xmm := by
  cases i <;> rfl

/-- None of them stores. -/
theorem exec_mem (s : Cpu) (i : Instr) : (i.exec s).mem = s.mem := by
  cases i <;> rfl

end Instr

def execAll (s : Cpu) (is : List Instr) : Cpu := is.foldl (fun s i => i.exec s) s

theorem execAll_regs_ne {is : List Instr} {r : Reg} (s : Cpu) (h : ∀ i ∈ is, r ≠ i.dst) :
    (execAll s is).regs r = s.regs r := by
  induction is generalizing s with
  | nil => rfl
  | cons i is ih =>
    have hrest := ih (i.exec s) fun j hj => h j (List.mem_cons_of_mem _ hj)
    exact hrest.trans (Instr.exec_regs_ne (h i List.mem_cons_self))

theorem execAll_append (s : Cpu) (is js : List Instr) :
    execAll s (is ++ js) = execAll (execAll s is) js := List.foldl_append

theorem execAll_regs_last (s : Cpu) (is : List Instr) (i : Instr) {js : List Instr} {r : Reg}
    (dsts : List Reg) (hdsts : js.map Instr.dst = dsts) (h : r ∉ dsts) :
    (execAll s (is ++ i :: js)).regs r = (i.exec (execAll s is)).regs r := by
  rw [execAll_append]
  refine execAll_regs_ne (i.exec (execAll s is)) ?_
  intro j hj heq
  exact h (hdsts ▸ List.mem_map.mpr ⟨j, hj, heq.symm⟩)

theorem execAll_switch (s : Cpu) (is : List Instr) (sp : Reg) (imm : Word) :
    (execAll s (is ++ [.mov rsp sp, .subImm rsp imm])).regs rsp =
      (execAll s is).regs sp - imm := by
  rw [execAll_append]
  refine Cpu.set_regs_self.trans ?_
  exact congrArg (· - imm) Cpu.set_regs_self

theorem execAll_xmm (s : Cpu) (is : List Instr) : (execAll s is).xmm = s.xmm := by
  induction is generalizing s with
  | nil => rfl
  | cons i is ih => exact (ih (i.exec s)).trans (Instr.exec_xmm s i)

theorem execAll_mem (s : Cpu) (is : List Instr) : (execAll s is).mem = s.mem := by
  induction is generalizing s with
  | nil => rfl
  | cons i is ih => exact (ih (i.exec s)).trans (Instr.exec_mem s i)

structure Block where
  before : List Instr
  callee : Reg
  after : List Instr
  /-- The outputs and clobbers. -/
  outs : List Register

/-- From the state in which a routine is entered to one in which it has returned. -/
abbrev Routine := Cpu → Cpu → Prop

/-- What the caller of a routine finds as it was. -/
structure Convention where
  gp : List Reg
  xmm : List (Fin 16)

/-- The routine returns to its return address, with that popped and what is to be kept as it was. It
    may write anywhere in memory. -/
structure Obeys (c : Convention) (g : Routine) : Prop where
  returned : ∀ e u, g e u → u.rip = e.load (e.regs rsp)
  popped : ∀ e u, g e u → u.regs rsp = e.regs rsp + 8
  gp : ∀ e u, g e u → ∀ r ∈ c.gp, u.regs r = e.regs r
  xmm : ∀ e u, g e u → ∀ i ∈ c.xmm, u.xmm i = e.xmm i

def Kept (s t : Cpu) : Register → Prop
  | .gp r => t.regs r = s.regs r
  | .xmm i => t.xmm i = s.xmm i

instance (s t : Cpu) : (r : Register) → Decidable (Kept s t r)
  | .gp r => inferInstanceAs (Decidable (t.regs r = s.regs r))
  | .xmm i => inferInstanceAs (Decidable (t.xmm i = s.xmm i))

namespace Block

/-- The state in which the routine is entered; the return address is the block's own. -/
def entry (b : Block) (ret : Word) (s : Cpu) : Cpu := (execAll s b.before).exec ret (.call b.callee)

def leave (b : Block) (u : Cpu) : Cpu := execAll u b.after

def Runs (b : Block) (ret : Word) (g : Routine) (s t : Cpu) : Prop :=
  ∃ u, g (b.entry ret s) u ∧ b.leave u = t

/-- What may differ afterwards is declared. -/
def Declares (b : Block) (ret : Word) (g : Routine) (s : Cpu) : Prop :=
  ∀ t, b.Runs ret g s t → ∀ r, ¬ Kept s t r → r ∈ b.outs

/-- The block saves the stack pointer in `saved` and takes it from there again, and every other
    register that it writes is declared. -/
structure Stashes (b : Block) (saved : Reg) (ret : Word) (s : Cpu) : Prop where
  after : b.after = [.mov rsp saved]
  saved : (b.entry ret s).regs saved = s.regs rsp
  writes : ∀ i ∈ b.before, i.dst = rsp ∨ .gp i.dst ∈ b.outs

variable {b : Block} {saved : Reg} {ret : Word} {g : Routine} {c : Convention} {s u : Cpu}

theorem entry_xmm (b : Block) (ret : Word) (s : Cpu) : (b.entry ret s).xmm = s.xmm :=
  execAll_xmm s b.before

theorem entry_regs_ne {r : Reg} (hr : r ≠ rsp) :
    (b.entry ret s).regs r = (execAll s b.before).regs r :=
  Cpu.set_regs_ne hr

theorem stashes_of {rest : List Instr} (dsts : List Reg)
    (hbefore : b.before = .mov saved rsp :: rest) (hdsts : rest.map Instr.dst = dsts)
    (hafter : b.after = [.mov rsp saved]) (hsaved : saved ≠ rsp ∧ saved ∉ dsts)
    (hwrites : ∀ r ∈ saved :: dsts, r = rsp ∨ .gp r ∈ b.outs) (ret : Word) (s : Cpu) :
    b.Stashes saved ret s where
  after := hafter
  saved := by
    rw [entry_regs_ne hsaved.1, hbefore]
    exact (execAll_regs_last s [] _ dsts hdsts hsaved.2).trans Cpu.set_regs_self
  writes := by
    intro i hi
    apply hwrites
    rw [hbefore] at hi
    rcases List.mem_cons.mp hi with hfirst | hi
    · rw [hfirst]
      exact List.mem_cons_self
    · exact List.mem_cons_of_mem _ (hdsts ▸ List.mem_map.mpr ⟨i, hi, rfl⟩)

theorem entry_rsp : (b.entry ret s).regs rsp = (execAll s b.before).regs rsp - 8 :=
  Cpu.set_regs_self

theorem entry_mem : (b.entry ret s).mem = write64 s.mem ((b.entry ret s).regs rsp) ret := by
  rw [entry_rsp]
  exact congrArg (write64 · _ ret) (execAll_mem s b.before)

theorem leave_mem (b : Block) (u : Cpu) : (b.leave u).mem = u.mem :=
  execAll_mem u b.after

theorem entry_rip (h : ∀ i ∈ b.before, b.callee ≠ i.dst) :
    (b.entry ret s).rip = s.regs b.callee :=
  execAll_regs_ne s h

theorem Stashes.entry_kept (h : b.Stashes saved ret s) {r : Reg} (hr : r ≠ rsp)
    (hout : .gp r ∉ b.outs) : (b.entry ret s).regs r = s.regs r := by
  rw [entry_regs_ne hr]
  apply execAll_regs_ne
  intro i hi heq
  rcases h.writes i hi with hrsp | hdecl
  · exact hr (heq.trans hrsp)
  · exact hout (heq ▸ hdecl)

theorem leave_xmm (b : Block) (u : Cpu) : (b.leave u).xmm = u.xmm :=
  execAll_xmm u b.after

theorem Stashes.leave_regs_ne (h : b.Stashes saved ret s) {r : Reg} (hr : r ≠ rsp) :
    (b.leave u).regs r = u.regs r := by
  rw [leave, h.after]
  exact Cpu.set_regs_ne hr

theorem Stashes.leave_rsp (h : b.Stashes saved ret s) (hg : Obeys c g) (hsaved : saved ∈ c.gp)
    (hu : g (b.entry ret s) u) : (b.leave u).regs rsp = s.regs rsp := by
  have hmov : (b.leave u).regs rsp = u.regs saved := by
    rw [leave, h.after]
    exact Cpu.set_regs_self
  rw [hmov, hg.gp _ _ hu saved hsaved, h.saved]

theorem Stashes.declares_iff (h : b.Stashes saved ret s) (hg : Obeys c g) (hsaved : saved ∈ c.gp)
    (hgp : ∀ r, r = rsp ∨ r ∈ c.gp ∨ .gp r ∈ b.outs) (hxmm : ∀ i, .xmm i ∉ b.outs) :
    b.Declares ret g s ↔
      ∀ u, g (b.entry ret s) u → ∀ i ∉ c.xmm, u.xmm i = (b.entry ret s).xmm i := by
  constructor
  · intro hdeclares u hu i _
    by_contra hchanged
    apply hxmm i
    apply hdeclares _ ⟨u, hu, rfl⟩
    intro hkept
    apply hchanged
    rw [entry_xmm, ← leave_xmm b u]
    exact hkept
  · rintro hkeeps t ⟨u, hu, rfl⟩ r hchanged
    cases r with
    | gp r =>
      by_contra hout
      apply hchanged
      by_cases hrsp : r = rsp
      · rw [hrsp]
        exact h.leave_rsp hg hsaved hu
      · have hkept : r ∈ c.gp := by
          rcases hgp r with heq | hmem | hdecl
          · exact absurd heq hrsp
          · exact hmem
          · exact absurd hdecl hout
        exact (h.leave_regs_ne hrsp).trans
          ((hg.gp _ _ hu r hkept).trans (h.entry_kept hrsp hout))
    | xmm i =>
      exfalso
      apply hchanged
      have hentry : u.xmm i = (b.entry ret s).xmm i := by
        by_cases hi : i ∈ c.xmm
        · exact hg.xmm _ _ hu i hi
        · exact hkeeps u hu i hi
      rw [Kept, leave_xmm, hentry, entry_xmm]

end Block

end WinCompat.Lib.InlineAsm
