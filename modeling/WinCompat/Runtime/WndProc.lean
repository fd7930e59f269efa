import WinCompat.Runtime.Entry

/-!
# Window procedures and their caller's frame

`call_win64_wndproc` in `win32-user32/src/lib.rs` has a 64-byte array on its stack, `scratch`, and
switches to a stack pointer in it. The procedure owns what is below that pointer and the 32 bytes of
its home area above it. The pointer is the array's address plus 48, rounded down to 16: the home
area ends 16 bytes above the array, or up to 15 less, and below the pointer the array has room for
the return address and no more than 40 bytes.

What lies beyond belongs to the caller's frame (`intact_iff`), whatever the address of the array.
-/

namespace WinCompat.Runtime.WndProc

open Lib Lib.Bytes Lib.InlineAsm
open Lib.X86 hiding Instr

/-! ## The frame -/

/-- The frame of `call_win64_wndproc`, with its two arrays. -/
structure HostFrame where
  low : Nat
  high : Nat
  scratch : Word
  args : Word
  bounded : high ≤ 2 ^ 64
  scratchIn : low ≤ scratch.toNat ∧ scratch.toNat + 64 ≤ high
  argsIn : low ≤ args.toNat ∧ args.toNat + 32 ≤ high
  disjoint : args.toNat + 32 ≤ scratch.toNat ∨ scratch.toNat + 64 ≤ args.toNat

namespace HostFrame

def Contains (F : HostFrame) (a : Word) : Prop := F.low ≤ a.toNat ∧ a.toNat < F.high

def InScratch (F : HostFrame) (a : Word) : Prop :=
  F.scratch.toNat ≤ a.toNat ∧ a.toNat < F.scratch.toNat + 64

end HostFrame

/-- `((base as usize + 48) & !0xF) as *mut u8` -/
def handoff (base : Word) : Word := (base + 48) &&& ~~~0xF#64

/-- The arguments as the host passes them. -/
structure Args where
  hwnd : Word
  msg : BitVec 32
  wParam : Word
  lParam : Word
  deriving DecidableEq

/-- `[hwnd, msg as u64, w_param, l_param as u64]` -/
def Args.packed (x : Args) : List Word := [x.hwnd, x.msg.setWidth 64, x.wParam, x.lParam]

/-- The registers that the operands were put into. -/
structure Operands where
  sp : Reg
  args : Reg
  proc : Reg
  deriving DecidableEq

def Operands.call (o : Operands) : Call := .callWin64Wndproc o.sp o.args o.proc

/-- The host has come to the block. -/
structure Prepared (F : HostFrame) (o : Operands) (x : Args) (s : Cpu) : Prop where
  registers : ∀ r ∈ o.call.inputs, .gp r ∉ o.call.block.outs ∧ r ≠ rsp ∧ r ≠ rbp
  frame : (s.regs rsp).toNat = F.low
  sp : s.regs o.sp = handoff F.scratch
  args : s.regs o.args = F.args
  packed : [s.load F.args, s.load (F.args + 8), s.load (F.args + 16), s.load (F.args + 24)] =
    x.packed

/-- The bytes that a procedure entered in state `e` may write on its caller's stack: all below its
    RSP, and its home area above the return address. -/
def Owns (e : Cpu) (a : Word) : Prop :=
  a.toNat < (e.regs rsp).toNat ∨ (a - (e.regs rsp + 8)).toNat < 32

/-- A procedure that obeys the Windows ABI, called from a host with the frame `F`. -/
structure Conforms (F : HostFrame) (g : Routine) : Prop where
  obeys : Obeys win64 g
  confined : ∀ e u, g e u → ∀ a, F.Contains a → ¬ Owns e a → u.mem a = e.mem a

/-- Bytes that a procedure owns although they are in the frame and not in the scratch area: those
    below the area, and the last bytes of the home area. -/
def HostFrame.Beside (F : HostFrame) (a : Word) : Prop :=
  a.toNat < F.scratch.toNat ∨
    F.scratch.toNat + 64 ≤ a.toNat ∧ a.toNat < F.scratch.toNat + 80 - F.scratch.toNat % 16

/-- The procedure is entered as the ABI wants it, with the arguments, and the host has its stack
    pointer and its frame back, apart from the scratch area. -/
structure Intact (F : HostFrame) (o : Operands) (x : Args) (ret : Word) (g : Routine) (s : Cpu) :
    Prop where
  target : (o.call.block.entry ret s).rip = s.regs o.proc
  aligned : ((o.call.block.entry ret s).regs rsp + 8).toNat % 16 = 0
  arguments : [rcx, rdx, r8, r9].map (o.call.block.entry ret s).regs = x.packed
  result : ∀ u, g (o.call.block.entry ret s) u → (o.call.block.leave u).regs rax = u.regs rax
  restored : ∀ t, o.call.block.Runs ret g s t → t.regs rsp = s.regs rsp
  frame : ∀ t, o.call.block.Runs ret g s t → ∀ a, F.Contains a → ¬ F.InScratch a →
    t.mem a = s.mem a

/-! ## The stack pointer -/

theorem toNat_and_not_15 (x : Word) : (x &&& ~~~0xF#64).toNat = x.toNat / 16 * 16 := by
  have hhigh : ∀ i : Fin 64, (~~~0xF#64).getLsbD i = decide (4 ≤ i.val) := by decide
  have hshift : x &&& ~~~0xF#64 = (x >>> 4) <<< 4 := by
    ext i hi
    rw [BitVec.getElem_and, ← BitVec.getLsbD_eq_getElem (x := ~~~0xF#64), hhigh ⟨i, hi⟩]
    by_cases h : i < 4
    · simp [h]
    · have hadd : 4 + (i - 4) = i := by omega
      simp [h, hadd, BitVec.getLsbD_eq_getElem hi]
      omega
  rw [hshift]
  simp
  omega

theorem HostFrame.handoff_toNat (F : HostFrame) :
    (handoff F.scratch).toNat = F.scratch.toNat + 48 - F.scratch.toNat % 16 := by
  have hin := F.scratchIn
  have hbounded := F.bounded
  have hadd : (F.scratch + 48).toNat = F.scratch.toNat + 48 := by
    have := F.scratch.isLt
    bv_omega
  rw [handoff, toNat_and_not_15, hadd]
  omega

/-! ## Entry -/

variable {F : HostFrame} {o : Operands} {x : Args} {ret : Word} {g : Routine} {s : Cpu}

theorem Prepared.call (h : Prepared F o x s) : o.call.Prepared 0 s := by
  have hsp : (s.regs o.sp).toNat = F.scratch.toNat + 48 - F.scratch.toNat % 16 := by
    rw [h.sp, F.handoff_toNat]
  refine ⟨h.registers, ?_, ?_⟩
  · show (s.regs o.sp).toNat % 16 = 0
    omega
  · show 0 + 40 ≤ (s.regs o.sp).toNat
    omega

theorem Prepared.entry_rsp (h : Prepared F o x s) (ret : Word) :
    (o.call.block.entry ret s).regs rsp = handoff F.scratch - 8 := by
  have hswitch := @execAll_regs_last s [.mov r12 rsp] (.mov rsp o.sp)
    [.mov rax o.args, .load rcx rax 0, .load rdx rax 8, .load r8 rax 16, .load r9 rax 24] rsp
    [rax, rcx, rdx, r8, r9] rfl (by decide)
  have hsp : (execAll s [.mov r12 rsp]).regs o.sp = s.regs o.sp :=
    h.call.execAll_regs List.mem_cons_self (List.cons_subset_cons _ (List.nil_subset _))
  rw [Block.entry_rsp]
  refine congrArg (· - 8) (hswitch.trans ?_)
  exact (Cpu.set_regs_self.trans hsp).trans h.sp

theorem Prepared.entry_rsp_toNat (h : Prepared F o x s) (ret : Word) :
    ((o.call.block.entry ret s).regs rsp).toNat =
      F.scratch.toNat + 40 - F.scratch.toNat % 16 := by
  have hhandoff := F.handoff_toNat
  rw [h.entry_rsp]
  bv_omega

/-- The array of the arguments is read through RAX. -/
theorem Prepared.entry_load (h : Prepared F o x s) {dst : Reg} {disp : Word} (is : List Instr)
    {js : List Instr} (ldsts : List Reg) (hldsts : is.map Instr.dst = ldsts) (hrax : rax ∉ ldsts)
    (hbefore : o.call.block.before =
      [.mov r12 rsp, .mov rsp o.sp, .mov rax o.args] ++ is ++ .load dst rax disp :: js)
    (dsts : List Reg) (hdsts : js.map Instr.dst = dsts) (hlast : dst ≠ rsp ∧ dst ∉ dsts) :
    (o.call.block.entry ret s).regs dst = s.load (F.args + disp) := by
  have hargs : (execAll s ([.mov r12 rsp, .mov rsp o.sp, .mov rax o.args] ++ is)).regs rax =
      s.regs o.args := by
    refine (execAll_regs_last s [.mov r12 rsp, .mov rsp o.sp] (.mov rax o.args) ldsts hldsts
      hrax).trans (Cpu.set_regs_self.trans ?_)
    exact h.call.execAll_regs (List.mem_cons_of_mem _ List.mem_cons_self)
      (List.cons_subset_cons _ (List.cons_subset_cons _ (List.nil_subset _)))
  rw [Block.entry_regs_ne hlast.1, hbefore, execAll_regs_last s _ _ dsts hdsts hlast.2]
  refine Cpu.set_regs_self.trans ?_
  rw [hargs, h.args, Cpu.load, execAll_mem, Cpu.load]

theorem Prepared.entry_arguments (h : Prepared F o x s) (ret : Word) :
    [rcx, rdx, r8, r9].map (o.call.block.entry ret s).regs = x.packed := by
  have hrcx := @h.entry_load _ _ _ ret _ rcx 0 [] _ [] rfl (by decide) rfl [rdx, r8, r9] rfl
    (by decide)
  have hrdx := @h.entry_load _ _ _ ret _ rdx 8 [.load rcx rax 0] _ [rcx] rfl (by decide) rfl
    [r8, r9] rfl (by decide)
  have hr8 := @h.entry_load _ _ _ ret _ r8 16 [.load rcx rax 0, .load rdx rax 8] _ [rcx, rdx] rfl
    (by decide) rfl [r9] rfl (by decide)
  have hr9 := @h.entry_load _ _ _ ret _ r9 24
    [.load rcx rax 0, .load rdx rax 8, .load r8 rax 16] _ [rcx, rdx, r8] rfl (by decide) rfl [] rfl
    (by decide)
  have hfirst : F.args + 0 = F.args := BitVec.add_zero F.args
  rw [← h.packed]
  simp only [List.map_cons, List.map_nil]
  rw [hrcx, hrdx, hr8, hr9, hfirst]

/-! ## The frame afterwards -/

theorem Prepared.entry_mem (h : Prepared F o x s) {a : Word} (ha : ¬ F.InScratch a) :
    (o.call.block.entry ret s).mem a = s.mem a := by
  have hrsp := h.entry_rsp_toNat ret
  have hin := F.scratchIn
  have hbounded := F.bounded
  unfold HostFrame.InScratch at ha
  rw [Block.entry_mem]
  apply write64_of_le
  bv_omega

theorem Prepared.owns_iff (h : Prepared F o x s) {a : Word} (ha : ¬ F.InScratch a) :
    Owns (o.call.block.entry ret s) a ↔ F.Beside a := by
  have hrsp := h.entry_rsp_toNat ret
  have hin := F.scratchIn
  have hbounded := F.bounded
  have hhome : ((o.call.block.entry ret s).regs rsp + 8).toNat =
      F.scratch.toNat + 48 - F.scratch.toNat % 16 := by
    bv_omega
  unfold HostFrame.InScratch at ha
  unfold Owns HostFrame.Beside
  constructor
  · intro howns
    bv_omega
  · intro hbeside
    bv_omega

theorem HostFrame.exists_beside (F : HostFrame) :
    ∃ a, F.Contains a ∧ ¬ F.InScratch a ∧ F.Beside a := by
  have hin := F.scratchIn
  have hargs := F.argsIn
  have hbounded := F.bounded
  rcases F.disjoint with hbelow | habove
  · have hone : (F.scratch - 1).toNat = F.scratch.toNat - 1 := by bv_omega
    refine ⟨F.scratch - 1, ?_, ?_, ?_⟩
    · unfold Contains
      omega
    · unfold InScratch
      omega
    · unfold Beside
      omega
  · have hend : (F.scratch + 64).toNat = F.scratch.toNat + 64 := by bv_omega
    refine ⟨F.scratch + 64, ?_, ?_, ?_⟩
    · unfold Contains
      omega
    · unfold InScratch
      omega
    · unfold Beside
      omega

theorem Prepared.frame_iff (h : Prepared F o x s) (hg : Conforms F g) :
    (∀ t, o.call.block.Runs ret g s t → ∀ a, F.Contains a → ¬ F.InScratch a →
      t.mem a = s.mem a) ↔
    ∀ u, g (o.call.block.entry ret s) u → ∀ a, F.Contains a → F.Beside a →
      u.mem a = (o.call.block.entry ret s).mem a := by
  constructor
  · intro hframe u hu a hcontains hbeside
    have hout : ¬ F.InScratch a := by
      unfold HostFrame.Beside at hbeside
      unfold HostFrame.InScratch
      omega
    have hsame := hframe _ ⟨u, hu, rfl⟩ a hcontains hout
    rwa [Block.leave_mem, ← h.entry_mem hout] at hsame
  · rintro hspared t ⟨u, hu, rfl⟩ a hcontains hout
    rw [Block.leave_mem, ← @h.entry_mem _ _ _ ret _ _ hout]
    by_cases hbeside : F.Beside a
    · exact hspared u hu a hcontains hbeside
    · exact hg.confined _ _ hu a hcontains fun howns => hbeside ((h.owns_iff hout).mp howns)

theorem Prepared.intact_iff_frame (h : Prepared F o x s) (hg : Conforms F g) :
    Intact F o x ret g s ↔
      ∀ t, o.call.block.Runs ret g s t → ∀ a, F.Contains a → ¬ F.InScratch a →
        t.mem a = s.mem a := by
  constructor
  · intro hintact
    exact hintact.frame
  · intro hframe
    have hstash := Call.stashes o.call ret s
    have hrsp := h.entry_rsp_toNat ret
    have hin := F.scratchIn
    have hbounded := F.bounded
    refine ⟨h.call.enters ret, ?_, h.entry_arguments ret, ?_, ?_, hframe⟩
    · bv_omega
    · intro u _
      exact hstash.leave_regs_ne (by decide)
    · rintro t ⟨u, hu, rfl⟩
      exact hstash.leave_rsp hg.obeys (Call.saved_mem o.call) hu

/-- A procedure that leaves anything at all in the memory that it owns. -/
def scribbles : Routine := fun e u =>
  ∃ m : Mem, (∀ a, ¬ Owns e a → m a = e.mem a) ∧ u = { Loader.leave e 0 with mem := m }

/-- A procedure that stores something and returns. -/
theorem obeys_of_leave {v : Word}
    (h : ∀ e u, g e u → ∃ m : Mem, u = { Loader.leave e v with mem := m }) : Obeys win64 g where
  returned e u hu := by
    obtain ⟨m, rfl⟩ := h e u hu
    rfl
  popped e u hu := by
    obtain ⟨m, rfl⟩ := h e u hu
    exact (Loader.obeysSysV_leave (fun _ => False) e v).popped
  gp e u hu r hr := by
    obtain ⟨m, rfl⟩ := h e u hu
    have hne : ∀ r ∈ win64.gp, r ≠ rax ∧ r ≠ rsp := by decide
    exact (Cpu.set_regs_ne (hne r hr).1).trans (Cpu.set_regs_ne (hne r hr).2)
  xmm e u hu i _ := by
    obtain ⟨m, rfl⟩ := h e u hu
    rfl

theorem conforms_scribbles (F : HostFrame) : Conforms F scribbles where
  obeys := by
    apply obeys_of_leave
    rintro e u ⟨m, -, rfl⟩
    exact ⟨m, rfl⟩
  confined := by
    rintro e u ⟨m, hm, rfl⟩ a _ hnot
    exact hm a hnot

/-- **A call of a window procedure leaves its caller's frame intact exactly if** the procedure makes
    no use of the bytes beside the scratch area. No frame is safe from every procedure that obeys
    the ABI. -/
theorem intact_iff (F : HostFrame) (o : Operands) (x : Args) (ret : Word) (s : Cpu)
    (h : Prepared F o x s) :
    (∀ g, Conforms F g →
      (Intact F o x ret g s ↔
        ∀ u, g (o.call.block.entry ret s) u → ∀ a, F.Contains a → F.Beside a →
          u.mem a = (o.call.block.entry ret s).mem a)) ∧
    ∃ g, Conforms F g ∧ ¬ Intact F o x ret g s := by
  constructor
  · intro g hg
    exact (h.intact_iff_frame hg).trans (h.frame_iff hg)
  · obtain ⟨a, hcontains, hout, hbeside⟩ := F.exists_beside
    have hscribbles := conforms_scribbles F
    refine ⟨scribbles, hscribbles, ?_⟩
    intro hintact
    have hspared := (h.frame_iff hscribbles).mp ((h.intact_iff_frame hscribbles).mp hintact)
    let e := o.call.block.entry ret s
    have hchanged : ∀ b, ¬ Owns e b → Function.update e.mem a (e.mem a + 1) b = e.mem b := by
      intro b hb
      apply Function.update_of_ne
      rintro rfl
      exact hb ((h.owns_iff hout).mpr hbeside)
    have hsame := hspared _ ⟨_, hchanged, rfl⟩ a hcontains hbeside
    have hupdate : Function.update e.mem a (e.mem a + 1) a = e.mem a + 1 :=
      Function.update_self a (e.mem a + 1) e.mem
    have hne : ∀ b : Byte, b + 1 ≠ b := by decide
    exact hne (e.mem a) (hupdate.symm.trans hsame)

/-- A frame whose scratch area lies at a multiple of 16, with the argument array above it. -/
def sampleFrame : HostFrame where
  low := 0x7fff0f00
  high := 0x7fff1100
  scratch := 0x7fff1000
  args := 0x7fff1060
  bounded := by decide
  scratchIn := by decide
  argsIn := by decide
  disjoint := by decide

def sampleArgs : Args := ⟨0x200000001, 0x0F, 0, 0x1122334455667788⟩

def sampleOperands : Operands := ⟨rdi, rsi, rbx⟩

/-- `WM_PAINT` for the first window. -/
def sampleHost : Cpu where
  regs q := if q = rsp then 0x7fff0f00 else if q = rdi then 0x7fff1030 else
    if q = rsi then 0x7fff1060 else if q = rbx then 0x401000 else BitVec.ofNat 64 q.val
  xmm _ := 0
  rip := 0x10000
  mem := write64 (write64 (write64 (write64 (fun _ => 0) 0x7fff1060 0x200000001)
    0x7fff1068 0x0F) 0x7fff1070 0) 0x7fff1078 0x1122334455667788
  stores := []

theorem sampleHost_prepared : Prepared sampleFrame sampleOperands sampleArgs sampleHost where
  registers := by decide
  frame := by decide
  sp := by decide
  args := by decide
  packed := by decide

/-- `mov [rsp+8], rcx` to `mov [rsp+32], r9`, then `xor eax, eax` and `ret`. -/
def homes : Routine := fun e u =>
  u = { Loader.leave e 0 with
    mem := write64 (write64 (write64 (write64 e.mem (e.regs rsp + 8) (e.regs rcx))
      (e.regs rsp + 16) (e.regs rdx)) (e.regs rsp + 24) (e.regs r8)) (e.regs rsp + 32) (e.regs r9) }

theorem conforms_homes (F : HostFrame) : Conforms F homes where
  obeys := by
    apply obeys_of_leave
    rintro e u rfl
    exact ⟨_, rfl⟩
  confined := by
    rintro e u rfl a _ hnot
    unfold Owns at hnot
    refine (write64_of_le ?_).trans ((write64_of_le ?_).trans ((write64_of_le ?_).trans
      (write64_of_le ?_))) <;> bv_omega

/-- A procedure that stores its four arguments in its home area writes the last one above the
    scratch area. -/
theorem homes_overwrites :
    Prepared sampleFrame sampleOperands sampleArgs sampleHost ∧ Conforms sampleFrame homes ∧
      ∃ t, sampleOperands.call.block.Runs 0x10020 homes sampleHost t ∧
        sampleFrame.Contains 0x7fff1048 ∧ ¬ sampleFrame.InScratch 0x7fff1048 ∧
          sampleHost.mem 0x7fff1048 = 0 ∧ t.mem 0x7fff1048 = 0x88 := by
  refine ⟨sampleHost_prepared, conforms_homes _, _, ⟨_, rfl, rfl⟩, ?_, ?_, ?_, ?_⟩
  · unfold HostFrame.Contains
    decide
  · unfold HostFrame.InScratch
    decide
  · decide
  · decide

/-- A procedure that returns right away makes no use of them. -/
theorem intact_iff_sample :
    Intact sampleFrame sampleOperands sampleArgs 0x10020 (fun e u => u = Loader.leave e 7)
      sampleHost := by
  have hconforms : Conforms sampleFrame fun e u => u = Loader.leave e 7 := by
    refine ⟨obeys_of_leave (v := 7) ?_, ?_⟩
    · rintro e u rfl
      exact ⟨_, rfl⟩
    · rintro e u rfl a _ _
      rfl
  refine ((intact_iff sampleFrame sampleOperands sampleArgs 0x10020 sampleHost
    sampleHost_prepared).1 _ hconforms).mpr ?_
  rintro u rfl a _ _
  rfl

end WinCompat.Runtime.WndProc
