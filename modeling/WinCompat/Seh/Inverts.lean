import WinCompat.Seh.Prologue

/-!
# When `virtual_unwind` inverts a prologue

`Restores` is what unwinding is for: from any state the body of a function can reach, the caller's
nonvolatile registers, RSP and RIP come back. A body keeps RSP, or the frame register; it keeps the
nonvolatile registers that the prologue did not save; and it keeps the cells the prologue saved to
and the return address.

The walk reads the opcode of a code from its prolog offset, so what it undoes is not what the
prologue did, except by coincidence of the offsets. `Undone` is that coincidence, on the encoding
alone, and it is exact.
-/

namespace WinCompat.Seh

open Lib.Bytes

/-- The bytes at `addr` of the image. -/
def Mapped (image : Nat → Byte) (addr : Nat) (bytes : List Byte) : Prop :=
  ∀ (i : Nat) (b : Byte), bytes[i]? = some b → image (addr + i) = b

/-- `now` is a state of the body of a function entered in `entry`, with prologue `p`. -/
structure Body (p : Prologue) (entry now : Cpu) : Prop where
  frame : match p.frame with
    | none => now.rsp = (p.run entry).rsp
    | some (f, _) => now.regs f = (p.run entry).regs f
  regs : ∀ r : Nonvol, ¬ p.Saves r → now.regs r = (p.run entry).regs r
  mem : ∀ a ∈ entry.rsp :: p.cells entry, ∀ j < 8,
    now.mem (a + BitVec.ofNat 64 j) = (p.run entry).mem (a + BitVec.ofNat 64 j)

/-- Unwinding gives the caller's state back, wherever the image is and whatever the function does. -/
def Restores (p : Prologue) : Prop :=
  ∀ (image : Nat → Byte) (imageBase : Nat) (rf : RuntimeFunction) (entry now : Cpu) (rip : Word),
    rf.unwindData ≠ 0 → Mapped image (imageBase + rf.unwindData.toNat) p.encode →
    Body p entry now →
      let ctx := (virtualUnwind image now.mem (some rf) imageBase ⟨now.regs, rip⟩).ctx
      (∀ r : Nonvol, ctx.regs r = entry.regs r) ∧ ctx.rsp = entry.rsp + 8 ∧
        ctx.rip = read64 entry.mem entry.rsp

/-- The effect of the codes as the walk reads them. -/
def Prologue.misread (p : Prologue) : Effect :=
  effect (moves (fun i => (slots p.ops).getD i 0) (slots p.ops).length)

/-- How far from the entry RSP the walk begins. -/
def Prologue.base (p : Prologue) : Word :=
  match p.frame with
  | none => p.layout.disp
  | some (f, off) =>
      match p.layout.regs f with
      | .frame d => d - BitVec.ofNat 64 (off.val * 16)
      | .entry _ => 0

/-- The codes, misread, happen to undo the prologue: RSP travels back to the return address, which
    nothing was stored over; each nonvolatile register is loaded last from eight bytes that hold its
    value at entry; and one that is not loaded at all was neither saved nor set. -/
structure Undone (p : Prologue) : Prop where
  depth : p.base + p.misread.disp = 0
  returnAddress : ∀ j < 8, p.layout.src (BitVec.ofNat 64 j) = .orig
  loaded : ∀ (r : Nonvol) (d : Word), p.misread.loads r = some d → ∀ j < 8,
    p.layout.src (p.base + d + BitVec.ofNat 64 j) = .stored (.entry r) j
  kept : ∀ r : Nonvol, p.misread.loads r = none →
    ¬ p.Saves r ∧ p.layout.regs r = .entry r

/-! ## Reading the encoding back -/

theorem getElem?_flatMap_pair {α β : Type} (f g : α → β) (l : List α) (i : Nat) :
    (l.flatMap fun w => [f w, g w])[2 * i]? = l[i]?.map f ∧
      (l.flatMap fun w => [f w, g w])[2 * i + 1]? = l[i]?.map g := by
  induction l generalizing i with
  | nil => exact ⟨rfl, rfl⟩
  | cons w rest ih =>
    cases i with
    | zero => exact ⟨rfl, rfl⟩
    | succ i => exact ih i

theorem append_extract (w : BitVec 16) : w.extractLsb' 8 8 ++ w.extractLsb' 0 8 = w := by
  apply BitVec.eq_of_getLsbD_eq
  intro i hi
  rw [BitVec.getLsbD_append]
  by_cases h : i < 8
  · simp [h]
  · have hsub : i - 8 < 8 := by omega
    have hadd : 8 + (i - 8) = i := by omega
    simp [h, hsub, hadd]

namespace Prologue

variable {image : Nat → Byte}

theorem u16At_code {p : Prologue} {ptr : Nat} (h : Mapped image ptr p.encode) {i : Nat}
    (hi : i < (slots p.ops).length) : u16At image (ptr + 4 + i * 2) = (slots p.ops).getD i 0 := by
  obtain ⟨h₀, h₁⟩ := getElem?_flatMap_pair (fun w : BitVec 16 => w.extractLsb' 0 8)
    (fun w => w.extractLsb' 8 8) (slots p.ops) i
  have hw : (slots p.ops)[i]? = some ((slots p.ops).getD i 0) := by
    rw [List.getD_eq_getElem?_getD, List.getElem?_eq_getElem hi]
    rfl
  rw [hw] at h₀ h₁
  have e₀ := h (4 + 2 * i) _ ((List.getElem?_append_right (by simp)).trans (by simpa using h₀))
  have e₁ := h (4 + (2 * i + 1)) _ ((List.getElem?_append_right (by simp)).trans (by simpa using h₁))
  unfold u16At
  rw [show ptr + 4 + i * 2 + 1 = ptr + (4 + (2 * i + 1)) by omega,
    show ptr + 4 + i * 2 = ptr + (4 + 2 * i) by omega, e₀, e₁]
  exact append_extract _

/-- The RSP that the walk begins with. -/
def started (p : Prologue) (regs : Reg → Word) : Word :=
  match p.frame with
  | none => regs 4
  | some (f, off) => regs f - BitVec.ofNat 64 (off.val * 16)

theorem frameByte_some {p : Prologue} {f : Nonvol} {off : Fin 16} (h : p.frame = some (f, off)) :
    (Fin.ofNat 16 p.frameByte.toNat : Reg) = f.val ∧ p.frameByte.toNat / 16 = off.val := by
  have hlt : f.val.val + off.val * 16 < 2 ^ 8 := by omega
  unfold frameByte
  rw [h]
  simp only [BitVec.toNat_ofNat, Nat.mod_eq_of_lt hlt]
  refine ⟨?_, by omega⟩
  apply Fin.ext
  show (f.val.val + off.val * 16) % 16 = f.val.val
  omega

/-- The context after the frame register has been looked at. -/
def framedContext (p : Prologue) (ctx : Context) : Context :=
  match p.frame with
  | none => ctx
  | some (f, off) => ctx.setReg 4 (ctx.regs f - BitVec.ofNat 64 (off.val * 16))

theorem framedContext_rsp (p : Prologue) (ctx : Context) :
    (p.framedContext ctx).rsp = p.started ctx.regs := by
  unfold framedContext started
  cases p.frame with
  | none => rfl
  | some fo => exact Context.setReg_rsp _ _

theorem framedContext_regs (p : Prologue) (ctx : Context) {r : Reg} (hr : r ≠ 4) :
    (p.framedContext ctx).regs r = ctx.regs r := by
  unfold framedContext
  cases p.frame with
  | none => rfl
  | some fo => exact Context.setReg_regs_ne _ _ hr

theorem virtualUnwind_eq {p : Prologue} {imageBase : Nat} {rf : RuntimeFunction} {stack : Mem}
    {ctx : Context} (hrva : rf.unwindData ≠ 0)
    (h : Mapped image (imageBase + rf.unwindData.toNat) p.encode) :
    (virtualUnwind image stack (some rf) imageBase ctx).ctx =
      let walked := walk (fun i => (slots p.ops).getD i 0) stack (slots p.ops).length
        (p.framedContext ctx)
      { walked with rip := read64 stack walked.rsp }.addRsp 8 := by
  have hversion := h 0 _ rfl
  have hcount := h 2 _ rfl
  have hframe := h 3 _ rfl
  rw [Nat.add_zero] at hversion
  have hflags : 1 + p.flags.val * 8 < 2 ^ 8 := by omega
  have hlen : (slots p.ops).length < 2 ^ 8 := Nat.lt_of_le_of_lt p.fits (by decide)
  have hver : ¬ ((1 + p.flags.val * 8) % 8 ≠ 1 ∧ (1 + p.flags.val * 8) % 8 ≠ 2) := by omega
  have hframed : (if (Fin.ofNat 16 p.frameByte.toNat : Reg) ≠ 0 then
      ctx.setReg 4 (ctx.readRegByNum (Fin.ofNat 16 p.frameByte.toNat) -
        BitVec.ofNat 64 (p.frameByte.toNat / 16 * 16)) else ctx) = p.framedContext ctx := by
    unfold framedContext
    cases hf : p.frame with
    | none =>
      have hb : p.frameByte = 0 := by unfold frameByte; rw [hf]
      rw [hb]
      rfl
    | some fo =>
      obtain ⟨f, off⟩ := fo
      obtain ⟨hreg, hoff⟩ := frameByte_some hf
      have hne : f.val ≠ 0 := by
        intro e
        have hmem := f.property
        rw [e] at hmem
        revert hmem
        decide
      rw [hreg, hoff, if_pos hne]
      rfl
  have hwalk : ∀ c, walk (fun i => u16At image (imageBase + rf.unwindData.toNat + 4 + i * 2)) stack
      (slots p.ops).length c =
        walk (fun i => (slots p.ops).getD i 0) stack (slots p.ops).length c := by
    intro c
    rw [walk_eq_moves, walk_eq_moves]
    congr 1
    exact moves_congr _ fun i hi => u16At_code h hi
  simp only [virtualUnwind, if_neg hrva, hversion, hcount, hframe, BitVec.toNat_ofNat,
    Nat.mod_eq_of_lt hflags, Nat.mod_eq_of_lt hlen, if_neg hver, hframed, hwalk]

theorem virtualUnwind_spec {p : Prologue} {imageBase : Nat} (rf : RuntimeFunction) (stack : Mem)
    (regs : Reg → Word) (rip : Word) (hrva : rf.unwindData ≠ 0)
    (h : Mapped image (imageBase + rf.unwindData.toNat) p.encode) :
    let ctx := (virtualUnwind image stack (some rf) imageBase ⟨regs, rip⟩).ctx
    ctx.rsp = p.started regs + p.misread.disp + 8 ∧
      ctx.rip = read64 stack (p.started regs + p.misread.disp) ∧
      ∀ r, r ≠ 4 → ctx.regs r =
        match p.misread.loads r with
        | some d => read64 stack (p.started regs + d)
        | none => regs r := by
  have hf := walk_follows (fun i => (slots p.ops).getD i 0) stack (slots p.ops).length
    (p.framedContext ⟨regs, rip⟩)
  have hrsp := hf.rsp
  rw [framedContext_rsp] at hrsp
  rw [virtualUnwind_eq hrva h]
  refine ⟨?_, ?_, ?_⟩
  · rw [Context.addRsp_rsp]
    exact congrArg (· + 8) hrsp
  · exact congrArg (read64 stack) hrsp
  · intro r hr
    rw [Context.addRsp_regs_ne _ _ hr]
    refine (hf.regs r hr).trans ?_
    rw [framedContext_rsp, framedContext_regs p _ hr]
    rfl

/-! ## Where the prologue stored -/

theorem setFpreg_mem {p : Prologue} {f : Nonvol} {off : Fin 16} (h : p.frame = some (f, off)) :
    Op.setFpreg ∈ p.ops.map Prod.snd := by
  have hc := p.framed
  rw [h] at hc
  exact List.count_pos_iff.mp (by rw [hc]; exact Nat.one_pos)

end Prologue

variable {off : Fin 16}

/-- Once the frame register is set it stays set. -/
theorem Layout.exec_frame {f : Nonvol} {l : Layout} {op : Op}
    (h : op = .setFpreg ∨ ∃ d, l.regs f = .frame d) :
    ∃ d, (l.exec (some (f, off)) op).regs f = .frame d := by
  cases op with
  | setFpreg => exact ⟨_, Function.update_self _ _ _⟩
  | _ =>
    rcases h with e | hd
    · cases e
    · exact hd

theorem Layout.foldl_frame {f : Nonvol} (ops : List Op) :
    ∀ {l : Layout}, (Op.setFpreg ∈ ops ∨ ∃ d, l.regs f = .frame d) →
      ∃ d, (ops.foldl (Layout.exec (some (f, off))) l).regs f = .frame d := by
  induction ops with
  | nil =>
    intro l h
    rcases h with e | hd
    · exact absurd e List.not_mem_nil
    · exact hd
  | cons op rest ih =>
    intro l h
    apply ih
    rcases h with e | hd
    · rcases List.mem_cons.mp e with e | e
      · exact Or.inr (Layout.exec_frame (Or.inl e.symm))
      · exact Or.inl e
    · exact Or.inr (Layout.exec_frame (Or.inr hd))

theorem Prologue.layout_frame {p : Prologue} {f : Nonvol} (h : p.frame = some (f, off)) :
    ∃ d, p.layout.regs f = .frame d := by
  unfold Prologue.layout
  rw [h]
  exact Layout.foldl_frame _ (Or.inl (setFpreg_mem h))

theorem exec_src {entry s : Cpu} {l : Layout} (hl : Lays entry l s)
    (frame : Option (Nonvol × Fin 16)) (op : Op) (e : Word)
    (h : (l.exec frame op).src e ≠ .orig) :
    l.src e ≠ .orig ∨ ∃ a, s.cell op = some a ∧ ∃ j < 8, entry.rsp + e = a + BitVec.ofNat 64 j := by
  cases hs : op.stores with
  | none =>
    have hsame : (l.exec frame op).src e = l.src e := by
      cases op with
      | setFpreg => cases frame <;> rfl
      | allocSmall k | allocLarge n | allocLargeFar n => rfl
      | pushNonvol r | saveNonvol r n | saveNonvolFar r n => cases hs
    exact Or.inl (hsame ▸ h)
  | some rd =>
    obtain ⟨r, d⟩ := rd
    have hsrc : (l.exec frame op).src e = (({ l with disp := l.disp - op.alloc } : Layout).store
        (l.disp - op.alloc + d) r).src e := by
      cases op <;> first | (cases hs; rfl) | cases hs
    rw [hsrc] at h
    unfold Layout.store at h
    dsimp only at h
    by_cases hlt : (e - (l.disp - op.alloc + d)).toNat < 8
    · refine Or.inr ⟨s.rsp - op.alloc + d, ?_, (e - (l.disp - op.alloc + d)).toNat, hlt, ?_⟩
      · unfold Cpu.cell
        rw [hs]
        rfl
      · rw [hl.rsp, BitVec.ofNat_toNat, BitVec.setWidth_eq]
        bv_omega
    · rw [if_neg hlt] at h
      exact Or.inl h

theorem foldl_src {entry : Cpu} (frame : Option (Nonvol × Fin 16)) (e : Word) (ops : List Op) :
    ∀ {l : Layout} {s : Cpu}, Lays entry l s → (ops.foldl (Layout.exec frame) l).src e ≠ .orig →
      l.src e ≠ .orig ∨
        ∃ a ∈ cells frame s ops, ∃ j < 8, entry.rsp + e = a + BitVec.ofNat 64 j := by
  induction ops with
  | nil => intro l s _ h; exact Or.inl h
  | cons op rest ih =>
    intro l s hl h
    rcases ih (hl.exec frame op) h with h | ⟨a, ha, hj⟩
    · rcases exec_src hl frame op e h with h | ⟨a, ha, hj⟩
      · exact Or.inl h
      · refine Or.inr ⟨a, ?_, hj⟩
        exact List.mem_append_left _ (by rw [ha]; exact List.mem_singleton.mpr rfl)
    · exact Or.inr ⟨a, List.mem_append_right _ ha, hj⟩

theorem Body.mem_eq {p : Prologue} {entry now : Cpu} (hb : Body p entry now) {e : Word}
    (h : p.layout.src e ≠ .orig) :
    now.mem (entry.rsp + e) = (p.layout.src e).value entry e := by
  rw [← (p.run_lays entry).mem e]
  rcases foldl_src p.frame e _ (lays_start entry) h with h | ⟨a, ha, j, hj, hej⟩
  · exact absurd rfl h
  · rw [hej]
    exact hb.mem a (List.mem_cons_of_mem _ ha) j hj

theorem Body.started {p : Prologue} {entry now : Cpu} (hb : Body p entry now) :
    p.started now.regs = entry.rsp + p.base := by
  have hf := hb.frame
  have hl := p.run_lays entry
  unfold Prologue.started Prologue.base
  cases hfr : p.frame with
  | none =>
    rw [hfr] at hf
    exact Eq.trans hf hl.rsp
  | some fo =>
    obtain ⟨f, off⟩ := fo
    rw [hfr] at hf
    obtain ⟨d, hd⟩ := Prologue.layout_frame hfr
    have hval := hl.regs f (ne_rsp_of_nonvol f)
    rw [hd] at hval
    simp only [hd, hf, hval]
    show entry.rsp + d - _ = entry.rsp + (d - _)
    simp only [BitVec.sub_eq_add_neg, BitVec.add_assoc]

/-! ## Restoring, state by state -/

/-- Where the walk leaves a register. -/
def unwoundReg (p : Prologue) (entry now : Cpu) (r : Reg) : Word :=
  match p.misread.loads r with
  | some d => read64 now.mem (entry.rsp + p.base + d)
  | none => now.regs r

/-- `Restores` without the image and the context. -/
theorem restores_iff (p : Prologue) : Restores p ↔ ∀ entry now, Body p entry now →
    (∀ r : Nonvol, unwoundReg p entry now r = entry.regs r) ∧
      entry.rsp + p.base + p.misread.disp + 8 = entry.rsp + 8 ∧
      read64 now.mem (entry.rsp + p.base + p.misread.disp) = read64 entry.mem entry.rsp := by
  constructor
  · intro h entry now hb
    -- the image may as well begin with the encoding
    have hmap : Mapped (fun a => (p.encode[a - 1]?).getD 0)
        (0 + (⟨0, 0, 1⟩ : RuntimeFunction).unwindData.toNat) p.encode := by
      intro i b hi
      show (p.encode[0 + 1 + i - 1]?).getD 0 = b
      rw [show 0 + 1 + i - 1 = i by omega, hi]
      rfl
    obtain ⟨hregs, hrsp, hrip⟩ := h _ 0 ⟨0, 0, 1⟩ entry now 0 (by decide) hmap hb
    obtain ⟨srsp, srip, sregs⟩ :=
      Prologue.virtualUnwind_spec ⟨0, 0, 1⟩ now.mem now.regs 0 (by decide) hmap
    rw [hb.started] at srsp srip
    refine ⟨?_, srsp.symm.trans hrsp, srip.symm.trans hrip⟩
    intro r
    rw [← hregs r, sregs r (ne_rsp_of_nonvol r), hb.started]
    rfl
  · intro h image imageBase rf entry now rip hrva hmap hb
    obtain ⟨hregs, hrsp, hrip⟩ := h entry now hb
    obtain ⟨srsp, srip, sregs⟩ :=
      Prologue.virtualUnwind_spec rf now.mem now.regs rip hrva hmap
    rw [hb.started] at srsp srip
    refine ⟨?_, srsp.trans hrsp, srip.trans hrip⟩
    intro r
    rw [sregs r (ne_rsp_of_nonvol r), hb.started]
    exact hregs r

theorem body_run (p : Prologue) (entry : Cpu) : Body p entry (p.run entry) := by
  refine ⟨?_, fun _ _ => rfl, fun _ _ _ _ => rfl⟩
  cases p.frame <;> rfl

theorem Undone.restores {p : Prologue} (h : Undone p) : Restores p := by
  rw [restores_iff]
  intro entry now hb
  have hbase : entry.rsp + p.base + p.misread.disp = entry.rsp := by
    rw [BitVec.add_assoc, h.depth]
    exact BitVec.add_zero _
  refine ⟨?_, by rw [hbase], ?_⟩
  · intro r
    unfold unwoundReg
    cases hload : p.misread.loads r with
    | some d =>
      show read64 now.mem (entry.rsp + p.base + d) = entry.regs r
      rw [read64_eq_iff]
      intro j hj
      have hsrc := h.loaded r d hload j hj
      have hmem := hb.mem_eq (e := p.base + d + BitVec.ofNat 64 j) (by rw [hsrc]; simp)
      rw [hsrc] at hmem
      rw [BitVec.add_assoc, BitVec.add_assoc, ← BitVec.add_assoc p.base]
      exact hmem
    | none =>
      obtain ⟨hsaves, hreg⟩ := h.kept r hload
      show now.regs r = entry.regs r
      rw [hb.regs r hsaves, (p.run_lays entry).regs r (ne_rsp_of_nonvol r), hreg]
      rfl
  · rw [hbase, read64_eq_iff]
    intro j hj
    rw [byte_read64 _ _ hj]
    have hkeep := hb.mem entry.rsp List.mem_cons_self j hj
    rw [hkeep, (p.run_lays entry).mem, h.returnAddress j hj]
    rfl

/-! ## From restoring to undone -/

theorem byte_add_one_ne (b : Byte) : b + 1 ≠ b := by
  bv_omega

/-- An entry state in which everything is 0 but one byte of one register. -/
def oneByte (r : Reg) (b : Byte) (j : Nat) : Cpu :=
  ⟨Function.update (fun _ => 0) r (placed b j), fun _ => 0⟩

theorem oneByte_rsp {r : Reg} (hr : r ≠ 4) (b : Byte) (j : Nat) : (oneByte r b j).rsp = 0 := by
  simp only [Cpu.rsp, oneByte, Function.update_of_ne hr.symm]

theorem oneByte_self (r : Reg) (b : Byte) {j : Nat} (hj : j < 8) :
    byte ((oneByte r b j).regs r) j = b := by
  simp only [oneByte, Function.update_self, byte_placed b hj]

theorem oneByte_other (b : Byte) {r r' : Reg} {i j : Nat} (h : r' = r → i ≠ j) :
    byte ((oneByte r b j).regs r') i = 0 := by
  by_cases hr : r' = r
  · subst hr
    simp only [oneByte, Function.update_self, byte_placed_ne b (h rfl)]
  · simp only [oneByte, Function.update_of_ne hr, byte_zero]

section Necessary

variable {p : Prologue}

theorem Restores.depth (h : Restores p) : p.base + p.misread.disp = 0 := by
  have hrsp := ((restores_iff p).mp h ⟨fun _ => 0, fun _ => 0⟩ _ (body_run p _)).2.1
  have hz : (⟨fun _ => 0, fun _ => 0⟩ : Cpu).rsp = 0 := rfl
  rw [hz] at hrsp
  bv_omega

theorem Restores.returnAddress (h : Restores p) {j : Nat} (hj : j < 8) :
    p.layout.src (BitVec.ofNat 64 j) = .orig := by
  cases hs : p.layout.src (BitVec.ofNat 64 j) with
  | orig => rfl
  | stored v i =>
    -- whatever is stored there, the return address may be something else
    have hval : ∀ m m' : Mem, v.value ⟨fun _ => 0, m⟩ = v.value ⟨fun _ => 0, m'⟩ := by
      intro m m'
      cases v <;> rfl
    let b := byte (v.value ⟨fun _ => 0, fun _ => 0⟩) i
    let entry : Cpu := ⟨fun _ => 0, fun _ => b + 1⟩
    have hbase : entry.rsp + p.base + p.misread.disp = entry.rsp := by
      rw [BitVec.add_assoc, h.depth]
      exact BitVec.add_zero _
    have hrip := ((restores_iff p).mp h entry _ (body_run p entry)).2.2
    rw [hbase, read64_eq_iff] at hrip
    have hbyte := hrip j hj
    rw [byte_read64 _ _ hj, (p.run_lays entry).mem, hs] at hbyte
    have hstored : (Src.stored v i).value entry (BitVec.ofNat 64 j) = b := by
      show byte (v.value entry) i = b
      rw [hval]
    rw [hstored] at hbyte
    exact absurd hbyte.symm (byte_add_one_ne b)

theorem Restores.loaded (h : Restores p) {r : Nonvol} {d : Word}
    (hload : p.misread.loads r = some d) {j : Nat} (hj : j < 8) :
    p.layout.src (p.base + d + BitVec.ofNat 64 j) = .stored (.entry r) j := by
  -- byte `j` of the register is read from that byte of the stack, in every entry state
  have hread : ∀ entry : Cpu,
      (p.layout.src (p.base + d + BitVec.ofNat 64 j)).value entry (p.base + d + BitVec.ofNat 64 j) =
        byte (entry.regs r) j := by
    intro entry
    have hreg := ((restores_iff p).mp h entry _ (body_run p entry)).1 r
    unfold unwoundReg at hreg
    rw [hload] at hreg
    have hbyte := read64_eq_iff.mp hreg j hj
    rw [← hbyte, ← (p.run_lays entry).mem]
    simp only [BitVec.add_assoc]
  have hr := ne_rsp_of_nonvol r
  cases hs : p.layout.src (p.base + d + BitVec.ofNat 64 j) with
  | orig =>
    have hone := hread (oneByte r.val 1 j)
    rw [hs, oneByte_self r.val 1 hj] at hone
    exact absurd (show (0 : Byte) = 1 from hone) (by decide)
  | stored v i =>
    cases v with
    | entry r' =>
      have hone := hread (oneByte r.val 1 j)
      rw [hs, oneByte_self r.val 1 hj] at hone
      have hone : byte ((oneByte r.val 1 j).regs r') i = 1 := hone
      by_cases hr' : r' = r.val
      · by_cases hi : i = j
        · rw [hr', hi]
        · rw [oneByte_other 1 fun _ => hi] at hone
          exact absurd hone (by decide)
      · rw [oneByte_other 1 fun e => absurd e hr'] at hone
        exact absurd hone (by decide)
    | frame c =>
      let b := byte (0 + c) i
      have hone := hread (oneByte r.val (b + 1) j)
      rw [hs, oneByte_self r.val (b + 1) hj] at hone
      have hone : byte ((oneByte r.val (b + 1) j).rsp + c) i = b + 1 := hone
      rw [oneByte_rsp hr] at hone
      exact absurd hone.symm (byte_add_one_ne b)

theorem Restores.kept (h : Restores p) {r : Nonvol} (hload : p.misread.loads r = none) :
    ¬ p.Saves r ∧ p.layout.regs r = .entry r := by
  have hr := ne_rsp_of_nonvol r
  have hnow : ∀ entry now, Body p entry now → now.regs r = entry.regs r := by
    intro entry now hb
    have hreg := ((restores_iff p).mp h entry now hb).1 r
    unfold unwoundReg at hreg
    rw [hload] at hreg
    exact hreg
  have hregs : p.layout.regs r = .entry r := by
    have hval : ∀ entry : Cpu, (p.layout.regs r).value entry = entry.regs r := by
      intro entry
      rw [← (p.run_lays entry).regs r hr]
      exact hnow entry _ (body_run p entry)
    cases hs : p.layout.regs r with
    | entry r' =>
      by_cases he : r' = r.val
      · rw [he]
      · have := hval ⟨Function.update (fun _ => 0) r.val 1, fun _ => 0⟩
        rw [hs] at this
        have : Function.update (fun _ => (0 : Word)) r.val 1 r' =
          Function.update (fun _ => (0 : Word)) r.val 1 r.val := this
        rw [Function.update_of_ne he, Function.update_self] at this
        exact absurd this (by decide)
    | frame c =>
      have := hval ⟨Function.update (fun _ => 0) r.val (c + 1), fun _ => 0⟩
      rw [hs] at this
      have : Function.update (fun _ => (0 : Word)) r.val (c + 1) 4 + c =
        Function.update (fun _ => (0 : Word)) r.val (c + 1) r.val := this
      rw [Function.update_of_ne hr.symm, Function.update_self] at this
      bv_omega
  refine ⟨?_, hregs⟩
  intro hsaves
  -- the body is free to change a register the prologue saved
  let entry : Cpu := ⟨fun _ => 0, fun _ => 0⟩
  have hb : Body p entry ((p.run entry).setReg r.val 1) := by
    refine ⟨?_, ?_, fun _ _ _ _ => rfl⟩
    · cases hf : p.frame with
      | none =>
        show Function.update _ r.val 1 4 = _
        exact Function.update_of_ne hr.symm _ _
      | some fo =>
        obtain ⟨f, off⟩ := fo
        show Function.update _ r.val 1 f.val = _
        have hne : f.val ≠ r.val := by
          intro e
          obtain ⟨d, hd⟩ := Prologue.layout_frame hf
          rw [e, hregs] at hd
          cases hd
        exact Function.update_of_ne hne _ _
    · intro r' hr'
      show Function.update _ r.val 1 r'.val = _
      have hne : r'.val ≠ r.val := by
        intro e
        exact hr' (Subtype.ext e ▸ hsaves)
      exact Function.update_of_ne hne _ _
  have := hnow entry _ hb
  have : Function.update (p.run entry).regs r.val 1 r.val = (0 : Word) := this
  rw [Function.update_self] at this
  exact absurd this (by decide)

end Necessary

/-- **When unwinding inverts a prologue**: exactly when the codes, as the walk misreads them, happen
    to undo it. -/
theorem restores_iff_undone (p : Prologue) : Restores p ↔ Undone p :=
  ⟨fun h => ⟨h.depth, fun _ hj => h.returnAddress hj, fun _ _ hload _ hj => h.loaded hload hj,
    fun _ hload => h.kept hload⟩, Undone.restores⟩

/-- `sub rsp, 40` as the last instruction of a prologue of 0x42 bytes: the prolog offset reads as the
    operation and its op-info. -/
example : Undone ⟨0, 0x42, [(0x42, .allocSmall 4)], none, by simp, by decide, by decide⟩ :=
  ⟨by decide, by decide, fun _ _ h => (by cases h), fun r _ => ⟨by simp [Prologue.Saves, Op.stores], rfl⟩⟩

/-- `push rbx; sub rsp, 32`. -/
def pushAlloc : Prologue :=
  ⟨0, 5, [(1, .pushNonvol ⟨3, by decide⟩), (5, .allocSmall 3)], none, by simp, by decide, by decide⟩

/-- The walk takes the prolog offset 1 of the push for `UWOP_ALLOC_LARGE` and the code of the
    allocation for its size. -/
theorem pushAlloc_not_restored : ¬ Restores pushAlloc := by
  intro h
  exact absurd h.depth (by decide)

end WinCompat.Seh
