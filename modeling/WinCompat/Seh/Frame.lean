import WinCompat.Seh.Inverts
import WinCompat.Seh.Lookup

/-!
# Frame, handler and chain

What exception dispatch takes from `RtlVirtualUnwind` beside the registers: the establisher frame,
which is RSP as the prologue left it, a pointer to the handler, and a context in which the codes of
chained `UNWIND_INFO`s have been undone too.

The frame is written after the return address has been popped. No array of codes can make up for
that: what a walk adds to RSP stays far below 2^64 (`travelled_le`), so the sum never comes back to
where it began.
-/

namespace WinCompat.Seh

open Lib Lib.Bytes

/-! ## The export -/

/-- What `RtlVirtualUnwind` returns, and what it leaves in the two out-parameters. -/
structure Unwinding where
  /-- 0 for NULL. -/
  routine : Nat
  ctx : Context
  frame : Option Word

/-- `rtl_virtual_unwind`; `none` is a fault. -/
def Process.rtlVirtualUnwind (s : Process) (stack : Mem) (functionEntry : Option Nat)
    (ctx : Context) : Option Unwinding :=
  (s.callVirtualUnwind stack functionEntry ctx).map fun u =>
    ⟨if u.handler ≠ 0 then u.handler.toNat else 0, u.ctx, u.establisherFrame⟩

/-! ## What is expected of it -/

/-- A version of `UNWIND_INFO` that there is. -/
def Supported (image : Nat → Byte) (unwindPtr : Nat) : Prop :=
  (image unwindPtr).toNat % 8 = 1 ∨ (image unwindPtr).toNat % 8 = 2

instance (image : Nat → Byte) (unwindPtr : Nat) : Decidable (Supported image unwindPtr) :=
  inferInstanceAs (Decidable (_ ∨ _))

/-- `UNW_FLAG_EHANDLER` or `UNW_FLAG_UHANDLER`. -/
def HasHandler (image : Nat → Byte) (unwindPtr : Nat) : Prop :=
  (image unwindPtr).toNat / 8 % 4 ≠ 0

instance (image : Nat → Byte) (unwindPtr : Nat) : Decidable (HasHandler image unwindPtr) :=
  inferInstanceAs (Decidable (_ ≠ _))

/-- `UNW_FLAG_CHAININFO`. -/
def HasParent (image : Nat → Byte) (unwindPtr : Nat) : Prop :=
  (image unwindPtr).toNat / 8 / 4 % 2 = 1

instance (image : Nat → Byte) (unwindPtr : Nat) : Decidable (HasParent image unwindPtr) :=
  inferInstanceAs (Decidable (_ = _))

def countOfUnwindCodes (image : Nat → Byte) (unwindPtr : Nat) : Nat :=
  (image (unwindPtr + 2)).toNat

def unwindCode (image : Nat → Byte) (unwindPtr i : Nat) : BitVec 16 :=
  u16At image (unwindPtr + 4 + i * 2)

/-- The `UnwindData` of the `RUNTIME_FUNCTION` after the padded array. -/
def parentInfo (image : Nat → Byte) (imageBase unwindPtr : Nat) : Nat :=
  let n := countOfUnwindCodes image unwindPtr
  imageBase + (u32At image (unwindPtr + 4 + (n + n % 2) * 2 + 8)).toNat

/-- The parents of an `UNWIND_INFO`, nearest first. -/
inductive ChainedTo (image : Nat → Byte) (imageBase : Nat) : Nat → List Nat → Prop
  | primary {unwindPtr : Nat} (h : ¬ HasParent image unwindPtr) :
      ChainedTo image imageBase unwindPtr []
  | chained {unwindPtr : Nat} {rest : List Nat} (h : HasParent image unwindPtr)
      (hrest : ChainedTo image imageBase (parentInfo image imageBase unwindPtr) rest) :
      ChainedTo image imageBase unwindPtr (parentInfo image imageBase unwindPtr :: rest)

/-- RSP after the prologue: the frame register, less 16 times the frame offset, or RSP. -/
def prologueFrame (image : Nat → Byte) (unwindPtr : Nat) (regs : Reg → Word) : Word :=
  let frameReg : Reg := Fin.ofNat 16 (image (unwindPtr + 3)).toNat
  if frameReg ≠ 0 then
    regs frameReg - BitVec.ofNat 64 ((image (unwindPtr + 3)).toNat / 16 * 16)
  else regs 4

/-- The context that the codes of each of the `UNWIND_INFO`s leave, one after the other. -/
def applyCodes (image : Nat → Byte) (stack : Mem) (infos : List Nat) (ctx : Context) : Context :=
  infos.foldl (fun ctx unwindPtr =>
    walk (unwindCode image unwindPtr) stack (countOfUnwindCodes image unwindPtr) ctx) ctx

/-- RSP as the prologue left it. -/
def Context.framed (ctx : Context) (image : Nat → Byte) (unwindPtr : Nat) : Context :=
  if (Fin.ofNat 16 (image (unwindPtr + 3)).toNat : Reg) ≠ 0 then
    ctx.setReg 4 (prologueFrame image unwindPtr ctx.regs)
  else ctx

/-- Pop the return address. -/
def Context.popReturn (ctx : Context) (stack : Mem) : Context :=
  { ctx with rip := read64 stack ctx.rsp }.addRsp 8

/-- The moves that the codes of all these amount to. -/
def movesOf (image : Nat → Byte) (infos : List Nat) : List Move :=
  infos.flatMap fun unwindPtr =>
    moves (unwindCode image unwindPtr) (countOfUnwindCodes image unwindPtr)

/-- What register `r` is after moves with effect `e` from a context with these registers. -/
def Effect.value (e : Effect) (stack : Mem) (rsp : Word) (regs : Reg → Word) (r : Reg) : Word :=
  match e.loads r with
  | .some d => read64 stack (rsp + d)
  | .none => regs r

/-- The padding and the halves of the RVA are such that the four bytes after the codes make up the
    handler's address. -/
def AddressFound (image : Nat → Byte) (imageBase unwindPtr : Nat) : Prop :=
  countOfUnwindCodes image unwindPtr % 2 = 1 ∧
    (unwindCode image unwindPtr (countOfUnwindCodes image unwindPtr + 1) ++
        unwindCode image unwindPtr (countOfUnwindCodes image unwindPtr)).toNat =
      imageBase + (storedHandler image unwindPtr).toNat

/-- The parents' codes move RSP nowhere and leave each register with the value it has without
    them. -/
def ParentsIdle (image : Nat → Byte) (stack : Mem) (unwindPtr : Nat) (parents : List Nat)
    (regs : Reg → Word) : Prop :=
  let own := effect (movesOf image [unwindPtr])
  let all := effect (movesOf image (unwindPtr :: parents))
  let rsp := prologueFrame image unwindPtr regs
  all.disp = own.disp ∧ ∀ r, r ≠ 4 → all.value stack rsp regs r = own.value stack rsp regs r

/-! ## How far RSP travels -/

def Move.travel : Move → Nat
  | .pop _ => 8
  | .add n => n.toNat
  | .load _ _ => 0

def travelled (ms : List Move) : Nat := (ms.map Move.travel).sum

theorem foldl_move_disp (ms : List Move) : ∀ e : Effect,
    (ms.foldl Effect.move e).disp = e.disp + BitVec.ofNat 64 (travelled ms) := by
  induction ms with
  | nil =>
    intro e
    exact (BitVec.add_zero _).symm
  | cons m rest ih =>
    intro e
    have hstep : (e.move m).disp = e.disp + BitVec.ofNat 64 m.travel := by
      cases m with
      | pop reg => rfl
      | add n => simp [Effect.move, Move.travel]
      | load reg n => simp [Effect.move, Move.travel, load_disp]
    rw [List.foldl_cons, ih, hstep, BitVec.add_assoc]
    simp [travelled, BitVec.ofNat_add]

theorem effect_disp (ms : List Move) : (effect ms).disp = BitVec.ofNat 64 (travelled ms) :=
  (foldl_move_disp ms Effect.none).trans (BitVec.zero_add _)

@[simp] theorem travelled_nil : travelled [] = 0 := rfl

@[simp] theorem travelled_cons (m : Move) (ms : List Move) :
    travelled (m :: ms) = m.travel + travelled ms := by
  simp [travelled]

theorem travel_near (w : BitVec 16) : (Move.add (w.zeroExtend 64 * 8)).travel < 2 ^ 32 := by
  unfold Move.travel
  bv_omega

theorem travel_far (w : BitVec 32) : (Move.add (w.zeroExtend 64)).travel < 2 ^ 32 := by
  unfold Move.travel
  bv_omega

/-- Each code adds less than 4 GiB. -/
theorem travelled_le (code : Nat → BitVec 16) {limit : Nat} (hlimit : 2 ^ 32 ≤ limit) (n : Nat) :
    travelled (moves code n) ≤ n * limit := by
  fun_induction moves code n with
  | case1 => simp
  | case4 j =>
    have hsize := travel_near (code j)
    simp only [travelled_cons, Nat.succ_mul]
    omega
  | case6 j =>
    have hsize := travel_far (code j ++ code (j + 1))
    simp only [travelled_cons, Nat.succ_mul]
    omega
  | _ =>
    simp only [travelled_cons, travelled_nil, Move.travel, BitVec.toNat_ofNat, Nat.succ_mul]
    omega

theorem popped_ne (code : Nat → BitVec 16) {n : Nat} (hn : n < 256) :
    (effect (moves code n)).disp + 8 ≠ 0 := by
  have hle := travelled_le code (Nat.le_refl _) n
  have height : BitVec.toNat (8 : Word) = 8 := rfl
  have hzero : BitVec.toNat (0 : Word) = 0 := rfl
  rw [effect_disp]
  intro h
  have hnat := congrArg BitVec.toNat h
  rw [BitVec.toNat_add, BitVec.toNat_ofNat, height, hzero] at hnat
  omega

/-! ## What is walked -/

theorem applyCodes_eq_moves (image : Nat → Byte) (stack : Mem) (infos : List Nat) (ctx : Context) :
    applyCodes image stack infos ctx = (movesOf image infos).foldl (Context.move stack) ctx := by
  unfold applyCodes movesOf
  rw [List.foldl_flatMap]
  simp only [walk_eq_moves]

theorem applyCodes_follows (image : Nat → Byte) (stack : Mem) (infos : List Nat) (ctx : Context) :
    Follows stack ctx (effect (movesOf image infos)) (applyCodes image stack infos ctx) := by
  rw [applyCodes_eq_moves]
  exact Follows.foldl _ ⟨(BitVec.add_zero _).symm, fun _ _ => rfl⟩

namespace Context

theorem framed_rsp (ctx : Context) (image : Nat → Byte) (unwindPtr : Nat) :
    (ctx.framed image unwindPtr).rsp = prologueFrame image unwindPtr ctx.regs := by
  unfold framed
  split
  · exact setReg_rsp _ _
  · rename_i hframe
    unfold prologueFrame
    rw [if_neg hframe]
    rfl

theorem framed_regs (ctx : Context) (image : Nat → Byte) (unwindPtr : Nat) {r : Reg} (hr : r ≠ 4) :
    (ctx.framed image unwindPtr).regs r = ctx.regs r := by
  unfold framed
  split
  · exact setReg_regs_ne _ _ hr
  · rfl

theorem framed_eq (ctx : Context) (image : Nat → Byte) (unwindPtr : Nat) :
    ctx.framed image unwindPtr =
      if (Fin.ofNat 16 (image (unwindPtr + 3)).toNat : Reg) ≠ 0 then
        ctx.setReg 4 (ctx.readRegByNum (Fin.ofNat 16 (image (unwindPtr + 3)).toNat) -
          BitVec.ofNat 64 ((image (unwindPtr + 3)).toNat / 16 * 16))
      else ctx := by
  unfold framed
  split
  · rename_i hframe
    unfold prologueFrame
    rw [if_pos hframe]
    rfl
  · rfl

@[simp] theorem popReturn_rsp (ctx : Context) (stack : Mem) :
    (ctx.popReturn stack).rsp = ctx.rsp + 8 := addRsp_rsp _ _

theorem popReturn_regs_ne (ctx : Context) (stack : Mem) {r : Reg} (hr : r ≠ 4) :
    (ctx.popReturn stack).regs r = ctx.regs r := addRsp_regs_ne _ _ hr

theorem popReturn_eq_iff (a b : Context) (stack : Mem) :
    a.popReturn stack = b.popReturn stack ↔ a.rsp = b.rsp ∧ ∀ r, r ≠ 4 → a.regs r = b.regs r := by
  constructor
  · intro h
    constructor
    · have hrsp := congrArg Context.rsp h
      simpa only [popReturn_rsp, BitVec.add_left_inj] using hrsp
    · intro r hr
      have hreg := congrArg (fun ctx => ctx.regs r) h
      simpa only [popReturn_regs_ne _ _ hr] using hreg
  · intro h
    have hregs : a.regs = b.regs := by
      funext r
      by_cases hr : r = 4
      · rw [hr]
        exact h.1
      · exact h.2 r hr
    unfold popReturn rsp
    rw [hregs]

end Context

section

variable {image : Nat → Byte} {stack : Mem} {rf : RuntimeFunction} {imageBase : Nat}
  (hrva : rf.unwindData ≠ 0) (hversion : Supported image (imageBase + rf.unwindData.toNat))
  (ctx : Context)

include hrva hversion

theorem virtualUnwind_supported :
    let unwindPtr := imageBase + rf.unwindData.toNat
    let walked := applyCodes image stack [unwindPtr] (ctx.framed image unwindPtr)
    let returned := walked.popReturn stack
    virtualUnwind image stack (some rf) imageBase ctx =
      ⟨if (image unwindPtr).toNat / 8 % 4 ≠ 0 then
          u32At image (unwindPtr + (4 + countOfUnwindCodes image unwindPtr * 2)) else 0,
        returned, some returned.rsp⟩ := by
  have hsupported : ¬ ((image (imageBase + rf.unwindData.toNat)).toNat % 8 ≠ 1 ∧
      (image (imageBase + rf.unwindData.toNat)).toNat % 8 ≠ 2) := by
    unfold Supported at hversion
    omega
  unfold virtualUnwind
  simp only [if_neg hrva, if_neg hsupported, Context.framed_eq]
  rfl

theorem establisherFrame_ne :
    (virtualUnwind image stack (some rf) imageBase ctx).establisherFrame ≠
      some (prologueFrame image (imageBase + rf.unwindData.toNat) ctx.regs) := by
  have hfollows := (applyCodes_follows image stack [imageBase + rf.unwindData.toNat]
    (ctx.framed image (imageBase + rf.unwindData.toNat))).rsp
  rw [Context.framed_rsp] at hfollows
  rw [virtualUnwind_supported hrva hversion ctx]
  intro h
  have hrsp := Option.some.inj h
  rw [Context.popReturn_rsp, hfollows, BitVec.add_assoc] at hrsp
  have hback : (effect (movesOf image [imageBase + rf.unwindData.toNat])).disp + 8 = 0 := by
    simpa using hrsp
  unfold movesOf at hback
  rw [List.flatMap_singleton] at hback
  exact popped_ne _ (image (imageBase + rf.unwindData.toNat + 2)).isLt hback

theorem handler_eq_address_iff (hbase : 0 < imageBase)
    (hhandler : HasHandler image (imageBase + rf.unwindData.toNat)) :
    (virtualUnwind image stack (some rf) imageBase ctx).handler.toNat =
        imageBase + (storedHandler image (imageBase + rf.unwindData.toNat)).toNat ↔
      AddressFound image imageBase (imageBase + rf.unwindData.toNat) := by
  rw [virtualUnwind_supported hrva hversion ctx]
  generalize imageBase + rf.unwindData.toNat = ptr at hhandler
  unfold HasHandler at hhandler
  dsimp only
  rw [if_pos hhandler]
  have hslots : u32At image (ptr + (4 + countOfUnwindCodes image ptr * 2)) =
      unwindCode image ptr (countOfUnwindCodes image ptr + 1) ++
        unwindCode image ptr (countOfUnwindCodes image ptr) := by
    unfold u32At unwindCode
    rw [show ptr + (4 + countOfUnwindCodes image ptr * 2) =
        ptr + 4 + countOfUnwindCodes image ptr * 2 by omega,
      show ptr + 4 + countOfUnwindCodes image ptr * 2 + 2 =
        ptr + 4 + (countOfUnwindCodes image ptr + 1) * 2 by omega]
  unfold AddressFound
  rw [← hslots]
  constructor
  · intro h
    refine ⟨?_, h⟩
    by_contra hodd
    -- With no padding it is the RVA that is read, and the image is not at address 0.
    have heven : countOfUnwindCodes image ptr % 2 = 0 := by omega
    have hread : storedHandler image ptr =
        u32At image (ptr + (4 + countOfUnwindCodes image ptr * 2)) := by
      unfold storedHandler
      exact congrArg (u32At image) (by unfold countOfUnwindCodes at *; omega)
    rw [hread] at h
    omega
  · exact fun h => h.2

theorem chained_ctx_iff (parents : List Nat) :
    (virtualUnwind image stack (some rf) imageBase ctx).ctx =
        (applyCodes image stack ((imageBase + rf.unwindData.toNat) :: parents)
          (ctx.framed image (imageBase + rf.unwindData.toNat))).popReturn stack ↔
      ParentsIdle image stack (imageBase + rf.unwindData.toNat) parents ctx.regs := by
  have hown := applyCodes_follows image stack [imageBase + rf.unwindData.toNat]
    (ctx.framed image (imageBase + rf.unwindData.toNat))
  have hall := applyCodes_follows image stack ((imageBase + rf.unwindData.toNat) :: parents)
    (ctx.framed image (imageBase + rf.unwindData.toNat))
  rw [virtualUnwind_supported hrva hversion ctx]
  refine (Context.popReturn_eq_iff _ _ stack).trans ?_
  unfold ParentsIdle
  refine and_congr ?_ (forall_congr' fun r => imp_congr_right fun hr => ?_)
  · rw [hown.rsp, hall.rsp]
    exact (BitVec.add_right_inj _).trans eq_comm
  · rw [hown.regs r hr, hall.regs r hr, Context.framed_rsp, Context.framed_regs _ _ _ hr]
    exact eq_comm

end

theorem prologueFrame_of_body {p : Prologue} {image : Nat → Byte} {unwindPtr : Nat}
    {entry now : Cpu} (hmapped : Mapped image unwindPtr p.encode) (hbody : Body p entry now) :
    prologueFrame image unwindPtr now.regs = p.started (p.run entry).regs := by
  have hbyte : image (unwindPtr + 3) = p.frameByte := hmapped 3 _ rfl
  have hframe := hbody.frame
  unfold prologueFrame Prologue.started
  rw [hbyte]
  cases hf : p.frame with
  | none =>
    rw [hf] at hframe
    have hzero : p.frameByte = 0 := by
      unfold Prologue.frameByte
      rw [hf]
    rw [hzero]
    exact hframe
  | some fo =>
    rw [hf] at hframe
    obtain ⟨hreg, hoffset⟩ := Prologue.frameByte_some hf
    have hne : fo.1.val ≠ 0 := by
      intro hzero
      have hmem := fo.1.property
      rw [hzero] at hmem
      revert hmem
      decide
    rw [hreg, hoffset, if_pos hne]
    dsimp only
    rw [hframe]

/-! ## Over runs -/

/-- **What `RtlVirtualUnwind` says of a function of the image whose table is installed**: never its
    frame; its handler, and what its chain leaves, exactly when the one is spelt by chance and the
    other comes to nothing. -/
theorem rtlVirtualUnwind_iff {acts : List Action} {s : Process} {im : Image} {rva count : Nat}
    (hrun : imageLoader.exec Process.new acts = some s) (hlast : installed none acts = some im)
    (hpdata : im.pdata = some (rva, count)) {i : Nat} (hi : i < count)
    (hrva : (im.function rva i).unwindData ≠ 0) {unwindPtr : Nat}
    (hptr : unwindPtr = im.base + (im.function rva i).unwindData.toNat)
    (hversion : Supported s.bytes unwindPtr) (stack : Mem) (ctx : Context) :
    ∃ u, s.rtlVirtualUnwind stack (some (im.base + rva + i * 12)) ctx = some u ∧
      (u.frame ≠ some (prologueFrame s.bytes unwindPtr ctx.regs) ∧
        ∀ (p : Prologue) (entry : Cpu), Mapped s.bytes unwindPtr p.encode →
          Body p entry ⟨ctx.regs, stack⟩ →
            prologueFrame s.bytes unwindPtr ctx.regs = p.started (p.run entry).regs) ∧
      (HasHandler s.bytes unwindPtr →
        (u.routine = im.base + (storedHandler s.bytes unwindPtr).toNat ↔
          AddressFound s.bytes im.base unwindPtr)) ∧
      ∀ parents, ChainedTo s.bytes im.base unwindPtr parents →
        (u.ctx = (applyCodes s.bytes stack (unwindPtr :: parents)
            (ctx.framed s.bytes unwindPtr)).popReturn stack ↔
          ParentsIdle s.bytes stack unwindPtr parents ctx.regs) := by
  subst hptr
  obtain ⟨rva', count', hpdata', hunwinds⟩ := (hlast ▸ inv_new.exec hrun).unwindsOnly
  obtain ⟨rfl, rfl⟩ := Prod.mk.inj (Option.some.inj (hpdata.symm.trans hpdata'))
  unfold Process.rtlVirtualUnwind
  rw [hunwinds.unwind i hi stack ctx]
  refine ⟨_, rfl, ⟨establisherFrame_ne hrva hversion ctx, ?_⟩, ?_, ?_⟩
  · exact fun p entry hmapped hbody => prologueFrame_of_body hmapped hbody
  · intro hhandler
    refine Iff.trans ?_
      (@handler_eq_address_iff _ stack _ _ hrva hversion ctx im.base_pos hhandler)
    dsimp only
    split
    · rfl
    · rename_i hzero
      rw [not_not.mp hzero]
      rfl
  · intro parents _
    exact chained_ctx_iff hrva hversion ctx parents

/-- From RVA 16 on: two `RUNTIME_FUNCTION`s, and at 0x40 an `UNWIND_INFO` without codes, chained to
    the one at 0x50, which allocates 40 bytes. The one at 0x60 has a handler, 0x1100. -/
def dispatchBytes : List Byte :=
  [0, 0x10, 0, 0, 0x10, 0x10, 0, 0, 0x40, 0, 0, 0,
    0x10, 0x10, 0, 0, 0x20, 0x10, 0, 0, 0x60, 0, 0, 0,
    0, 0, 0, 0, 0, 0, 0, 0, 0, 0, 0, 0, 0, 0, 0, 0, 0, 0, 0, 0, 0, 0, 0, 0,
    0x21, 0, 0, 0, 0, 0x10, 0, 0, 0x10, 0x10, 0, 0, 0x50, 0, 0, 0,
    0x01, 0x42, 1, 0, 0x42, 0x42, 0, 0, 0, 0, 0, 0, 0, 0, 0, 0,
    0x09, 4, 0, 0, 0, 0x11, 0, 0]

def dispatchImage : Image where
  base := 0x140000000
  size := 8192
  content r := dispatchBytes.getD (r - 16) 0
  exceptionTable := some (16, 24)
  base_pos := mainImage.base_pos
  size_pos := mainImage.size_pos
  base_add_size := mainImage.base_add_size
  size_le := mainImage.size_le

/-- The process that has loaded this image alone. -/
def dispatching : Process :=
  ⟨[dispatchImage], [], some ⟨0x140000010, 2, 0x140000000, 8192⟩, true⟩

theorem rtlVirtualUnwind_iff_dispatching :
    ∃ u, dispatching.rtlVirtualUnwind (fun _ => 0) (some 0x14000001C) nowhere = some u ∧
      u.routine ≠ 0x140000000 + (storedHandler dispatching.bytes 0x140000060).toNat := by
  have hrun : imageLoader.exec Process.new [.loadBytes dispatchImage true] = some dispatching := rfl
  have hpdata : dispatchImage.pdata = some (16, 2) := rfl
  have hsecond : 1 < 2 := by decide
  obtain ⟨u, hu, -, hroutine, -⟩ := rtlVirtualUnwind_iff hrun rfl hpdata hsecond (by decide) rfl
    (by decide) (fun _ => 0) nowhere
  exact ⟨u, hu, fun h => absurd ((hroutine (by decide)).mp h).1 (by decide)⟩

/-- The frame is 8 too high, the parent's 40 bytes are still there, and the pointer to the handler
    is its RVA. -/
theorem dispatching_misreported :
    ∃ u v, dispatching.rtlVirtualUnwind (fun _ => 0) (some 0x140000010) nowhere = some u ∧
      dispatching.rtlVirtualUnwind (fun _ => 0) (some 0x14000001C) nowhere = some v ∧
      (u.frame = some 8 ∧ prologueFrame dispatching.bytes 0x140000040 nowhere.regs = 0) ∧
      (ChainedTo dispatching.bytes 0x140000000 0x140000040 [0x140000050] ∧
        u.ctx ≠ (applyCodes dispatching.bytes (fun _ => 0) [0x140000040, 0x140000050]
          (nowhere.framed dispatching.bytes 0x140000040)).popReturn fun _ => 0) ∧
      v.routine = 0x1100 ∧ HasHandler dispatching.bytes 0x140000060 ∧
      storedHandler dispatching.bytes 0x140000060 = 0x1100 := by
  refine ⟨_, _, rfl, rfl, ⟨by decide, by decide⟩, ⟨?_, ?_⟩, by decide, by decide, by decide⟩
  · exact .chained (by decide) (.primary (by decide))
  · intro h
    exact absurd (congrArg Context.rsp h) (by decide)

end WinCompat.Seh
