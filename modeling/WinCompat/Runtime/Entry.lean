import WinCompat.Lib.InlineAsm
import WinCompat.Loader.Thunk

/-!
# Calling guest code

The assembly of `run_entrypoint`, `run_entrypoint_win64` and `run_dll_main_win64` in
`runtime/src/lib.rs` and of `call_win64_wndproc` in `win32-user32/src/lib.rs`. Each block saves RSP in
R12, loads the arguments, goes to the stack that it is given and calls.

Both calling conventions let a routine change XMM registers, and no block declares one. So the host's
registers are intact after a call exactly if the routine leaves those alone too
(`leavesIntact_iff`).
-/

namespace WinCompat.Runtime

open Lib Lib.Bytes Lib.InlineAsm
open Lib.X86 hiding Instr

/-! ## The two conventions -/

def win64 : Convention where
  gp := Loader.winSaved
  xmm := [6, 7, 8, 9, 10, 11, 12, 13, 14, 15]

def sysv : Convention where
  gp := Loader.sysvSaved
  xmm := []

/-! ## The blocks -/

/-- The outputs that all of them have: R12, the result, and what is discarded. -/
def commonOuts : List Register :=
  [.gp r12, .gp rax, .gp rcx, .gp rdx, .gp r8, .gp r9, .gp r10, .gp r11]

/-- The block of `run_entrypoint` -/
def runEntrypoint (sp entry : Reg) : Block where
  before := [.mov r12 rsp, .mov rsp sp]
  callee := entry
  after := [.mov rsp r12]
  outs := commonOuts ++ [.gp rsi, .gp rdi]

/-- The block of `run_entrypoint_win64` -/
def runEntrypointWin64 (sp peb entry : Reg) : Block where
  before := [.mov r12 rsp, .mov rcx peb, .xor rdx rdx, .mov rsp sp, .subImm rsp 0x20]
  callee := entry
  after := [.mov rsp r12]
  outs := commonOuts

/-- The block of `run_dll_main_win64` -/
def runDllMainWin64 (hModule reason reserved sp entry : Reg) : Block where
  before := [.mov r12 rsp, .mov rcx hModule, .mov32 rdx reason, .mov r8 reserved, .mov rsp sp,
    .subImm rsp 0x20]
  callee := entry
  after := [.mov rsp r12]
  outs := commonOuts

/-- The block of `call_win64_wndproc` -/
def callWin64Wndproc (sp args proc : Reg) : Block where
  before := [.mov r12 rsp, .mov rsp sp, .mov rax args, .load rcx rax 0, .load rdx rax 8,
    .load r8 rax 16, .load r9 rax 24]
  callee := proc
  after := [.mov rsp r12]
  outs := commonOuts

/-! ## Calls -/

/-- A call, with the registers that its inputs were put into. -/
inductive Call
  | runEntrypoint (sp entry : Reg)
  | runEntrypointWin64 (sp peb entry : Reg)
  | runDllMainWin64 (hModule reason reserved sp entry : Reg)
  | callWin64Wndproc (sp args proc : Reg)
  deriving DecidableEq

namespace Call

def block : Call → Block
  | .runEntrypoint sp entry => Runtime.runEntrypoint sp entry
  | .runEntrypointWin64 sp peb entry => Runtime.runEntrypointWin64 sp peb entry
  | .runDllMainWin64 hModule reason reserved sp entry =>
      Runtime.runDllMainWin64 hModule reason reserved sp entry
  | .callWin64Wndproc sp args proc => Runtime.callWin64Wndproc sp args proc

def inputs : Call → List Reg
  | .runEntrypoint sp entry => [sp, entry]
  | .runEntrypointWin64 sp peb entry => [sp, peb, entry]
  | .runDllMainWin64 hModule reason reserved sp entry => [hModule, reason, reserved, sp, entry]
  | .callWin64Wndproc sp args proc => [sp, args, proc]

def convention : Call → Convention
  | .runEntrypoint _ _ => sysv
  | _ => win64

/-- `stack_top`, or the top of the scratch area. -/
def sp : Call → Reg
  | .runEntrypoint sp _ | .runEntrypointWin64 sp _ _ | .runDllMainWin64 _ _ _ sp _
  | .callWin64Wndproc sp _ _ => sp

/-- No output shares a register with an input, and neither RSP nor RBP is an input's. The stack from
    `base` on has room for the home area and the return address. -/
structure Prepared (c : Call) (base : Nat) (s : Cpu) : Prop where
  inputs : ∀ r ∈ c.inputs, .gp r ∉ c.block.outs ∧ r ≠ rsp ∧ r ≠ rbp
  aligned : (s.regs c.sp).toNat % 16 = 0
  room : base + 40 ≤ (s.regs c.sp).toNat

/-- Where a Windows routine with these arguments finds its stack. -/
structure WinFrame (base top : Nat) (e : Cpu) : Prop where
  aligned : (e.regs rsp).toNat % 16 = 8
  home : base ≤ (e.regs rsp).toNat + 8 ∧ (e.regs rsp).toNat + 8 + 32 ≤ top

/-- What the routine is entered with. -/
def Enters (c : Call) (base : Nat) (s e : Cpu) : Prop :=
  match c with
  | .runEntrypoint _ entry => e.rip = s.regs entry
  | .runEntrypointWin64 sp peb entry =>
      e.rip = s.regs entry ∧ WinFrame base (s.regs sp).toNat e ∧ e.regs rcx = s.regs peb ∧
        e.regs rdx = 0
  | .runDllMainWin64 hModule reason reserved sp entry =>
      e.rip = s.regs entry ∧ WinFrame base (s.regs sp).toNat e ∧ e.regs rcx = s.regs hModule ∧
        e.regs rdx = ((s.regs reason).setWidth 32).setWidth 64 ∧ e.regs r8 = s.regs reserved
  | .callWin64Wndproc _ _ proc => e.rip = s.regs proc

/-- The routine is entered as documented, what it returns is the result, and the host has its
    registers back. -/
structure LeavesIntact (c : Call) (base : Nat) (ret : Word) (g : Routine) (s : Cpu) : Prop where
  enters : c.Enters base s (c.block.entry ret s)
  result : ∀ u, g (c.block.entry ret s) u → (c.block.leave u).regs rax = u.regs rax
  restored : ∀ t, c.block.Runs ret g s t → t.regs rsp = s.regs rsp
  declares : c.block.Declares ret g s

variable {c : Call} {base : Nat} {ret : Word} {g : Routine} {s : Cpu}

theorem stashes (c : Call) (ret : Word) (s : Cpu) : c.block.Stashes r12 ret s := by
  cases c with
  | runEntrypoint sp entry =>
    have hwrites : ∀ r ∈ [r12, rsp], r = rsp ∨ .gp r ∈ commonOuts ++ [.gp rsi, .gp rdi] := by decide
    exact Block.stashes_of [rsp] rfl rfl rfl (by decide) hwrites ret s
  | runEntrypointWin64 sp peb entry =>
    have hwrites : ∀ r ∈ [r12, rcx, rdx, rsp, rsp], r = rsp ∨ .gp r ∈ commonOuts := by decide
    exact Block.stashes_of [rcx, rdx, rsp, rsp] rfl rfl rfl (by decide) hwrites ret s
  | runDllMainWin64 hModule reason reserved sp entry =>
    have hwrites : ∀ r ∈ [r12, rcx, rdx, r8, rsp, rsp], r = rsp ∨ .gp r ∈ commonOuts := by decide
    exact Block.stashes_of [rcx, rdx, r8, rsp, rsp] rfl rfl rfl (by decide) hwrites ret s
  | callWin64Wndproc sp args proc =>
    have hwrites : ∀ r ∈ [r12, rsp, rax, rcx, rdx, r8, r9], r = rsp ∨ .gp r ∈ commonOuts := by
      decide
    exact Block.stashes_of [rsp, rax, rcx, rdx, r8, r9] rfl rfl rfl (by decide) hwrites ret s

theorem saved_mem (c : Call) : r12 ∈ c.convention.gp := by
  cases c <;> exact List.mem_of_elem_eq_true rfl

theorem outs_cover (c : Call) (r : Reg) : r = rsp ∨ r ∈ c.convention.gp ∨ .gp r ∈ c.block.outs := by
  have hwin : ∀ r, r = rsp ∨ r ∈ win64.gp ∨ .gp r ∈ commonOuts := by decide
  have hsysv : ∀ r, r = rsp ∨ r ∈ sysv.gp ∨ .gp r ∈ commonOuts ++ [.gp rsi, .gp rdi] := by decide
  cases c with
  | runEntrypoint sp entry => exact hsysv r
  | runEntrypointWin64 sp peb entry => exact hwin r
  | runDllMainWin64 hModule reason reserved sp entry => exact hwin r
  | callWin64Wndproc sp args proc => exact hwin r

theorem xmm_not_mem_outs (c : Call) (i : Fin 16) : .xmm i ∉ c.block.outs := by
  have hwin : ∀ i, .xmm i ∉ commonOuts := by decide
  have hsysv : ∀ i, .xmm i ∉ commonOuts ++ [.gp rsi, .gp rdi] := by decide
  cases c with
  | runEntrypoint sp entry => exact hsysv i
  | runEntrypointWin64 sp peb entry => exact hwin i
  | runDllMainWin64 hModule reason reserved sp entry => exact hwin i
  | callWin64Wndproc sp args proc => exact hwin i

/-! ## Entry -/

theorem winFrame_of {top : Word} {e : Cpu} (hrsp : e.regs rsp = top - 0x20 - 8)
    (haligned : top.toNat % 16 = 0) (hroom : base + 40 ≤ top.toNat) : WinFrame base top.toNat e := by
  have hsub : (e.regs rsp).toNat = top.toNat - 40 := by
    rw [hrsp]
    bv_omega
  constructor
  · rw [hsub]
    omega
  · rw [hsub]
    omega

theorem Prepared.ne (h : c.Prepared base s) {r : Reg} (hr : r ∈ c.inputs) {i : Instr}
    (hi : i.dst = rsp ∨ .gp i.dst ∈ c.block.outs) : r ≠ i.dst := by
  intro heq
  have hin := h.inputs r hr
  rcases hi with hrsp | hout
  · exact hin.2.1 (heq.trans hrsp)
  · exact hin.1 (heq ▸ hout)

theorem Prepared.execAll_regs (h : c.Prepared base s) {r : Reg} (hr : r ∈ c.inputs)
    {is : List Instr} (his : is ⊆ c.block.before) : (execAll s is).regs r = s.regs r :=
  execAll_regs_ne s fun i hi => h.ne hr ((stashes c 0 s).writes i (his hi))

theorem Prepared.rip (h : c.Prepared base s) (hcallee : c.block.callee ∈ c.inputs) (ret : Word) :
    (c.block.entry ret s).rip = s.regs c.block.callee :=
  Block.entry_rip fun i hi => h.ne hcallee ((stashes c ret s).writes i hi)

theorem Prepared.arg (h : c.Prepared base s) {dst src : Reg} (hsrc : src ∈ c.inputs)
    (is : List Instr) (i : Instr) {js : List Instr} (hbefore : c.block.before = is ++ i :: js)
    {v : Word → Word} (hi : ∀ s' : Cpu, (i.exec s').regs dst = v (s'.regs src)) (dsts : List Reg)
    (hdsts : js.map Instr.dst = dsts) (hlast : dst ≠ rsp ∧ dst ∉ dsts) (ret : Word) :
    (c.block.entry ret s).regs dst = v (s.regs src) := by
  have hsub : is ⊆ c.block.before := hbefore ▸ List.subset_append_left is (i :: js)
  rw [Block.entry_regs_ne hlast.1, hbefore, execAll_regs_last s is i dsts hdsts hlast.2, hi,
    h.execAll_regs hsrc hsub]

theorem Prepared.frame (h : c.Prepared base s) (hsp : c.sp ∈ c.inputs) (is : List Instr)
    (hbefore : c.block.before = is ++ [.mov rsp c.sp, .subImm rsp 0x20]) (ret : Word) :
    WinFrame base (s.regs c.sp).toNat (c.block.entry ret s) := by
  have hsub : is ⊆ c.block.before := hbefore ▸ List.subset_append_left is _
  apply winFrame_of ?_ h.aligned h.room
  rw [Block.entry_rsp, hbefore, execAll_switch, h.execAll_regs hsp hsub]

theorem Prepared.enters (h : c.Prepared base s) (ret : Word) :
    c.Enters base s (c.block.entry ret s) := by
  cases c with
  | runEntrypoint sp entry => exact h.rip (List.mem_of_getLast? rfl) ret
  | callWin64Wndproc sp args proc => exact h.rip (List.mem_of_getLast? rfl) ret
  | runEntrypointWin64 sp peb entry =>
    have hframe := h.frame List.mem_cons_self [.mov r12 rsp, .mov rcx peb, .xor rdx rdx] rfl ret
    have hrcx := @h.arg _ _ _ rcx peb (List.mem_cons_of_mem _ List.mem_cons_self) [.mov r12 rsp]
      (.mov rcx peb) _ rfl id (fun _ => Cpu.set_regs_self) [rdx, rsp, rsp] rfl (by decide) ret
    have hrdx : ((Call.runEntrypointWin64 sp peb entry).block.entry ret s).regs rdx = 0 := by
      rw [Block.entry_regs_ne (by decide)]
      refine (execAll_regs_last s [.mov r12 rsp, .mov rcx peb] (.xor rdx rdx) [rsp, rsp] rfl
        (by decide)).trans ?_
      exact Cpu.set_regs_self.trans BitVec.xor_self
    exact ⟨h.rip (List.mem_of_getLast? rfl) ret, hframe, hrcx, hrdx⟩
  | runDllMainWin64 hModule reason reserved sp entry =>
    have hframe := h.frame (by simp [Call.inputs, Call.sp])
      [.mov r12 rsp, .mov rcx hModule, .mov32 rdx reason, .mov r8 reserved] rfl ret
    have hrcx := @h.arg _ _ _ rcx hModule List.mem_cons_self [.mov r12 rsp] (.mov rcx hModule) _ rfl
      id (fun _ => Cpu.set_regs_self) [rdx, r8, rsp, rsp] rfl (by decide) ret
    have hrdx := @h.arg _ _ _ rdx reason (by simp [Call.inputs]) [.mov r12 rsp, .mov rcx hModule]
      (.mov32 rdx reason) _ rfl (fun w => (w.setWidth 32).setWidth 64)
      (fun _ => Cpu.set_regs_self) [r8, rsp, rsp] rfl (by decide) ret
    have hr8 := @h.arg _ _ _ r8 reserved (by simp [Call.inputs])
      [.mov r12 rsp, .mov rcx hModule, .mov32 rdx reason] (.mov r8 reserved) _ rfl id
      (fun _ => Cpu.set_regs_self) [rsp, rsp] rfl (by decide) ret
    exact ⟨h.rip (List.mem_of_getLast? rfl) ret, hframe, hrcx, hrdx, hr8⟩

/-! ## The host's registers -/

/-- **A call of guest code leaves the host's registers intact exactly if** the routine leaves also
    those XMM registers alone which its convention lets it change. -/
theorem leavesIntact_iff (c : Call) (base : Nat) (ret : Word) (g : Routine) (s : Cpu)
    (h : c.Prepared base s) (hg : Obeys c.convention g) :
    c.LeavesIntact base ret g s ↔
      ∀ u, g (c.block.entry ret s) u → ∀ i ∉ c.convention.xmm,
        u.xmm i = (c.block.entry ret s).xmm i := by
  have hstash := stashes c ret s
  have hdeclares := hstash.declares_iff hg (saved_mem c) (outs_cover c) (xmm_not_mem_outs c)
  constructor
  · intro hintact
    exact hdeclares.mp hintact.declares
  · intro hxmm
    refine ⟨h.enters ret, ?_, ?_, hdeclares.mpr hxmm⟩
    · intro u _
      exact hstash.leave_regs_ne (by decide)
    · rintro t ⟨u, hu, rfl⟩
      exact hstash.leave_rsp hg (saved_mem c) hu

/-- A host that calls an entry point at `0x401000` with the stack at `0x7fff0000`. -/
def sampleHost : Cpu where
  regs q := if q = rdi then 0x7fff0000 else if q = rbx then 0x401000 else BitVec.ofNat 64 q.val
  xmm _ := 0
  rip := 0x10000
  mem _ := 0
  stores := []

def sampleCall : Call := .runEntrypointWin64 rdi rsi rbx

theorem sampleCall_prepared : sampleCall.Prepared 0x7ff00000 sampleHost where
  inputs := by decide
  aligned := by decide
  room := by decide

/-- A routine that returns right away, with 42 in RAX and `x` in XMM0. -/
def returns42 (x : BitVec 128 → BitVec 128) : Routine := fun e u =>
  u = { Loader.leave e 42 with xmm := Function.update e.xmm 0 (x (e.xmm 0)) }

theorem obeys_returns42 (x : BitVec 128 → BitVec 128) : Obeys win64 (returns42 x) where
  returned := by
    rintro e _ rfl
    rfl
  popped := by
    rintro e _ rfl
    exact (Loader.obeysSysV_leave (fun _ => False) e 42).popped
  gp := by
    rintro e _ rfl r hr
    have hne : ∀ r ∈ win64.gp, r ≠ rax ∧ r ≠ rsp := by decide
    exact (Cpu.set_regs_ne (hne r hr).1).trans (Cpu.set_regs_ne (hne r hr).2)
  xmm := by
    rintro e _ rfl i hi
    have hne : ∀ i ∈ win64.xmm, i ≠ 0 := by decide
    exact Function.update_of_ne (hne i hi) _ _

theorem leavesIntact_iff_sample :
    sampleCall.LeavesIntact 0x7ff00000 0x10020 (returns42 id) sampleHost := by
  refine (leavesIntact_iff sampleCall 0x7ff00000 0x10020 (returns42 id) sampleHost
    sampleCall_prepared (obeys_returns42 id)).mpr ?_
  rintro _ rfl i -
  exact congrFun (Function.update_eq_self _ _) i

/-- Windows lets the routine change XMM0, and `run_entrypoint_win64` does not say so. -/
theorem xmm0_not_declared :
    Obeys win64 (returns42 (· + 1)) ∧
      ¬ sampleCall.LeavesIntact 0x7ff00000 0x10020 (returns42 (· + 1)) sampleHost := by
  refine ⟨obeys_returns42 _, ?_⟩
  intro hintact
  have hmem := hintact.declares _ ⟨_, rfl, rfl⟩ (.xmm 0) ?_
  · exact xmm_not_mem_outs sampleCall 0 hmem
  · intro hkept
    exact absurd hkept (by decide)

end Call

end WinCompat.Runtime
