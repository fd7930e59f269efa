import WinCompat.Lib.Bytes

/-!
# `virtual_unwind`

`pe-loader/src/seh.rs`. The image is mapped apart from the stack and only read, so the `.xdata`
bytes and the stack are two memories here: `image`, read by the address the source computes in
`usize`, and `stack`, read through the registers.

The walk takes each code as one little-endian `u16` and reads the opcode from its lowest nibble,
the op-info from the next; and it goes from the last code of the array to the first. `moves` is
what a code array amounts to under that reading, without a stack or a context, and `Effect` sums
the moves up: how far RSP travels, and from where each register is loaded last.
-/

namespace WinCompat.Seh

open Lib.Bytes

/-- A register by its Windows x64 number: Rax=0, Rcx=1, Rdx=2, Rbx=3, Rsp=4, Rbp=5, Rsi=6, Rdi=7,
    R8=8 … R15=15. -/
abbrev Reg := Fin 16

/-- The registers of `Context`, which has them in the order of their numbers from 0x78 on. -/
structure Context where
  regs : Reg → Word
  rip : Word

structure RuntimeFunction where
  beginAddress : BitVec 32
  endAddress : BitVec 32
  unwindData : BitVec 32
  deriving DecidableEq

inductive Opcode
  | pushNonvol
  | allocLarge
  | allocSmall
  | setFpreg
  | saveNonvol
  | saveNonvolFar
  | epilog
  | saveXmm128
  | saveXmm128Far
  | pushMachframe
  | unknown
  deriving DecidableEq

/-- The `UWOP_` constants. -/
def Opcode.ofNibble : Nat → Opcode
  | 0 => .pushNonvol
  | 1 => .allocLarge
  | 2 => .allocSmall
  | 3 => .setFpreg
  | 4 => .saveNonvol
  | 5 => .saveNonvolFar
  | 6 => .epilog
  | 7 => .saveXmm128
  | 8 => .saveXmm128Far
  | 9 => .pushMachframe
  | _ => .unknown

/-- `nonvolatile_offset`. -/
def nonvolatileOffset (reg : Reg) : Option Nat :=
  match reg.val with
  | 3 => some 0x90
  | 5 => some 0xA0
  | 6 => some 0xA8
  | 7 => some 0xB0
  | 8 => some 0xB8
  | 9 => some 0xC0
  | 10 => some 0xC8
  | 11 => some 0xD0
  | 12 => some 0xD8
  | 13 => some 0xE0
  | 14 => some 0xE8
  | 15 => some 0xF0
  | _ => none

namespace Context

def rsp (ctx : Context) : Word := ctx.regs 4

def setReg (ctx : Context) (reg : Reg) (v : Word) : Context :=
  { ctx with regs := Function.update ctx.regs reg v }

/-- `context.rsp += n`. -/
def addRsp (ctx : Context) (n : Word) : Context := ctx.setReg 4 (ctx.rsp + n)

@[simp] theorem setReg_rsp (ctx : Context) (v : Word) : (ctx.setReg 4 v).rsp = v := by
  simp only [rsp, setReg, Function.update_self]

theorem setReg_regs_ne (ctx : Context) {reg r : Reg} (v : Word) (h : r ≠ reg) :
    (ctx.setReg reg v).regs r = ctx.regs r := by
  simp only [setReg, Function.update_of_ne h]

@[simp] theorem addRsp_rsp (ctx : Context) (n : Word) : (ctx.addRsp n).rsp = ctx.rsp + n :=
  setReg_rsp ctx _

theorem addRsp_regs_ne (ctx : Context) (n : Word) {r : Reg} (h : r ≠ 4) :
    (ctx.addRsp n).regs r = ctx.regs r :=
  setReg_regs_ne ctx _ h

/-- `read_reg_by_num`. -/
def readRegByNum (ctx : Context) (reg : Reg) : Word := ctx.regs reg

/-- `write_reg_by_offset`. -/
def writeRegByOffset (ctx : Context) (offset : Nat) (v : Word) : Context :=
  ctx.setReg (Fin.ofNat 16 ((offset - 0x78) / 8)) v

/-- Load `reg`, if it is one the table knows, from `addr`. -/
def restore (ctx : Context) (stack : Mem) (reg : Reg) (addr : Word) : Context :=
  match nonvolatileOffset reg with
  | some off => ctx.writeRegByOffset off (read64 stack addr)
  | none => ctx

end Context

/-- `(code & 0x0F) as u8` and `((code >> 4) & 0x0F) as u8`. -/
def opcode (code : BitVec 16) : Opcode := Opcode.ofNibble (code.toNat % 16)

def opInfo (code : BitVec 16) : Reg := Fin.ofNat 16 (code.toNat / 16)

/-- The loop over the unwind codes, with `code_idx` codes left. Each arm that finds too few codes
    for its operands breaks out of the loop. -/
def walk (code : Nat → BitVec 16) (stack : Mem) : Nat → Context → Context
  | 0, ctx => ctx
  | i + 1, ctx =>
      match opcode (code i) with
      | .pushNonvol => walk code stack i ((ctx.restore stack (opInfo (code i)) ctx.rsp).addRsp 8)
      | .allocSmall => walk code stack i (ctx.addRsp (BitVec.ofNat 64 ((opInfo (code i)).val * 8 + 8)))
      | .allocLarge =>
          if opInfo (code i) = 0 then
            match i with
            | j + 1 => walk code stack j (ctx.addRsp ((code j).zeroExtend 64 * 8))
            | 0 => ctx
          else
            match i with
            | j + 2 => walk code stack j (ctx.addRsp ((code j ++ code (j + 1)).zeroExtend 64))
            | _ => ctx
      | .setFpreg => walk code stack i ctx
      | .saveNonvol =>
          match i with
          | j + 1 =>
              walk code stack j
                (ctx.restore stack (opInfo (code i)) (ctx.rsp + (code j).zeroExtend 64 * 8))
          | 0 => ctx
      | .saveNonvolFar =>
          match i with
          | j + 2 =>
              walk code stack j (ctx.restore stack (opInfo (code i))
                (ctx.rsp + (code j ++ code (j + 1)).zeroExtend 64 * 8))
          | _ => ctx
      | .saveXmm128 =>
          match i with
          | j + 1 => walk code stack j ctx
          | 0 => ctx
      | .saveXmm128Far =>
          match i with
          | j + 2 => walk code stack j ctx
          | _ => ctx
      | .epilog | .pushMachframe | .unknown => walk code stack i ctx

/-- A little-endian `u16` and `u32` of the image. -/
def u16At (image : Nat → Byte) (a : Nat) : BitVec 16 := image (a + 1) ++ image a

def u32At (image : Nat → Byte) (a : Nat) : BitVec 32 := u16At image (a + 2) ++ u16At image a

/-- What `virtual_unwind` returns, the context it leaves, and what it writes to
    `establisher_frame`. -/
structure Unwound where
  handler : BitVec 32
  ctx : Context
  establisherFrame : Option Word

/-- `virtual_unwind`, for a context pointer that is not null. -/
def virtualUnwind (image : Nat → Byte) (stack : Mem) (functionEntry : Option RuntimeFunction)
    (imageBase : Nat) (ctx : Context) : Unwound :=
  match functionEntry with
  | none => ⟨0, ctx, none⟩
  | some rf =>
      if rf.unwindData = 0 then ⟨0, ctx, none⟩
      else
        let unwindPtr := imageBase + rf.unwindData.toNat
        let version := (image unwindPtr).toNat % 8
        let flags := (image unwindPtr).toNat / 8
        let countOfUnwindCodes := (image (unwindPtr + 2)).toNat
        let frameReg : Reg := Fin.ofNat 16 (image (unwindPtr + 3)).toNat
        let frameOffset := (image (unwindPtr + 3)).toNat / 16
        if version ≠ 1 ∧ version ≠ 2 then ⟨0, ctx, none⟩
        else
          let framed :=
            if frameReg ≠ 0 then
              ctx.setReg 4 (ctx.readRegByNum frameReg - BitVec.ofNat 64 (frameOffset * 16))
            else ctx
          let walked :=
            walk (fun i => u16At image (unwindPtr + 4 + i * 2)) stack countOfUnwindCodes framed
          let returned := { walked with rip := read64 stack walked.rsp }.addRsp 8
          ⟨if flags % 4 ≠ 0 then u32At image (unwindPtr + (4 + countOfUnwindCodes * 2)) else 0,
            returned, some returned.rsp⟩

/-! ## What the codes amount to -/

/-- One thing the walk does to the context. -/
inductive Move
  | pop (reg : Reg)
  | add (n : Word)
  -- from `n` bytes above RSP
  | load (reg : Reg) (n : Word)
  deriving DecidableEq

/-- The moves of the codes below `i`, last code first. -/
def moves (code : Nat → BitVec 16) : Nat → List Move
  | 0 => []
  | i + 1 =>
      match opcode (code i) with
      | .pushNonvol => .pop (opInfo (code i)) :: moves code i
      | .allocSmall => .add (BitVec.ofNat 64 ((opInfo (code i)).val * 8 + 8)) :: moves code i
      | .allocLarge =>
          if opInfo (code i) = 0 then
            match i with
            | j + 1 => .add ((code j).zeroExtend 64 * 8) :: moves code j
            | 0 => []
          else
            match i with
            | j + 2 => .add ((code j ++ code (j + 1)).zeroExtend 64) :: moves code j
            | _ => []
      | .setFpreg => moves code i
      | .saveNonvol =>
          match i with
          | j + 1 => .load (opInfo (code i)) ((code j).zeroExtend 64 * 8) :: moves code j
          | 0 => []
      | .saveNonvolFar =>
          match i with
          | j + 2 => .load (opInfo (code i)) ((code j ++ code (j + 1)).zeroExtend 64 * 8) :: moves code j
          | _ => []
      | .saveXmm128 =>
          match i with
          | j + 1 => moves code j
          | 0 => []
      | .saveXmm128Far =>
          match i with
          | j + 2 => moves code j
          | _ => []
      | .epilog | .pushMachframe | .unknown => moves code i

def Context.move (stack : Mem) (ctx : Context) : Move → Context
  | .pop reg => (ctx.restore stack reg ctx.rsp).addRsp 8
  | .add n => ctx.addRsp n
  | .load reg n => ctx.restore stack reg (ctx.rsp + n)

theorem walk_eq_moves (code : Nat → BitVec 16) (stack : Mem) (n : Nat) (ctx : Context) :
    walk code stack n ctx = (moves code n).foldl (Context.move stack) ctx := by
  fun_induction walk code stack n ctx with
  | case1 ctx => rfl
  | _ => rw [moves.eq_def]; simp_all [Context.move]

theorem moves_congr {code code' : Nat → BitVec 16} (n : Nat) (h : ∀ i < n, code i = code' i) :
    moves code n = moves code' n := by
  fun_induction moves code n with
  | case1 => rfl
  | _ => rw [moves.eq_def code']; grind

/-! ## The sum of the moves -/

/-- Registers that the table of `nonvolatile_offset` knows. -/
def restorable (reg : Reg) : Bool := (nonvolatileOffset reg).isSome

/-- How far RSP has moved from where it was, and how far from there each register was last loaded
    from. -/
structure Effect where
  disp : Word
  loads : Reg → Option Word

def Effect.none : Effect := ⟨0, fun _ => .none⟩

def Effect.load (e : Effect) (reg : Reg) (d : Word) : Effect :=
  if restorable reg then { e with loads := Function.update e.loads reg (some d) } else e

def Effect.move (e : Effect) : Move → Effect
  | .pop reg => { e.load reg e.disp with disp := e.disp + 8 }
  | .add n => { e with disp := e.disp + n }
  | .load reg n => e.load reg (e.disp + n)

def effect (ms : List Move) : Effect := ms.foldl Effect.move Effect.none

/-- `ctx` is what `start` has become by moves with effect `e`. -/
structure Follows (stack : Mem) (start : Context) (e : Effect) (ctx : Context) : Prop where
  rsp : ctx.rsp = start.rsp + e.disp
  regs : ∀ r, r ≠ 4 → ctx.regs r =
    match e.loads r with
    | some d => read64 stack (start.rsp + d)
    | none => start.regs r

theorem atOffset_of_nonvolatileOffset {reg : Reg} {off : Nat}
    (h : nonvolatileOffset reg = some off) : Fin.ofNat 16 ((off - 0x78) / 8) = reg := by
  revert off
  revert reg
  decide

theorem ne_rsp_of_restorable {reg : Reg} (h : restorable reg = true) : reg ≠ 4 := by
  intro e
  subst e
  cases h

theorem restore_eq (ctx : Context) (stack : Mem) (reg : Reg) (addr : Word) :
    ctx.restore stack reg addr =
      if restorable reg then ctx.setReg reg (read64 stack addr) else ctx := by
  unfold Context.restore restorable
  cases h : nonvolatileOffset reg with
  | none => rfl
  | some off =>
    simp only [Context.writeRegByOffset, atOffset_of_nonvolatileOffset h, Option.isSome_some,
      if_true]

variable {stack : Mem}

theorem Follows.addRsp {start ctx : Context} {e : Effect} (hf : Follows stack start e ctx)
    (n : Word) : Follows stack start { e with disp := e.disp + n } (ctx.addRsp n) := by
  refine ⟨?_, ?_⟩
  · rw [Context.addRsp_rsp, hf.rsp, BitVec.add_assoc]
  · intro r hr
    rw [Context.addRsp_regs_ne _ _ hr]
    exact hf.regs r hr

theorem Follows.restore {start ctx : Context} {e : Effect} {addr d : Word}
    (hf : Follows stack start e ctx) (reg : Reg) (haddr : addr = start.rsp + d) :
    Follows stack start (e.load reg d) (ctx.restore stack reg addr) := by
  rw [restore_eq]
  unfold Effect.load
  by_cases hres : restorable reg = true
  · rw [if_pos hres, if_pos hres]
    refine ⟨?_, ?_⟩
    · show Function.update ctx.regs reg _ 4 = _
      rw [Function.update_of_ne (ne_rsp_of_restorable hres).symm]
      exact hf.rsp
    · intro r hr
      show Function.update ctx.regs reg _ r = _
      by_cases hreg : r = reg
      · subst hreg
        simp only [Function.update_self, haddr]
      · simp only [Function.update_of_ne hreg]
        exact hf.regs r hr
  · rw [if_neg hres, if_neg hres]
    exact hf

theorem load_disp (e : Effect) (reg : Reg) (d : Word) : (e.load reg d).disp = e.disp := by
  unfold Effect.load
  split <;> rfl

theorem Follows.move {start ctx : Context} {e : Effect} (hf : Follows stack start e ctx) (m : Move) :
    Follows stack start (e.move m) (ctx.move stack m) := by
  cases m with
  | pop reg =>
    have h := (hf.restore reg hf.rsp).addRsp 8
    rw [load_disp] at h
    exact h
  | add n => exact hf.addRsp n
  | load reg n =>
    apply hf.restore reg
    rw [hf.rsp, BitVec.add_assoc]

theorem Follows.foldl {start : Context} (ms : List Move) :
    ∀ {e : Effect} {ctx : Context}, Follows stack start e ctx →
      Follows stack start (ms.foldl Effect.move e) (ms.foldl (Context.move stack) ctx) := by
  induction ms with
  | nil => intro e ctx hf; exact hf
  | cons m rest ih => intro e ctx hf; exact ih (hf.move m)

/-- What the walk leaves, from the codes alone. -/
theorem walk_follows (code : Nat → BitVec 16) (stack : Mem) (n : Nat) (ctx : Context) :
    Follows stack ctx (effect (moves code n)) (walk code stack n ctx) := by
  rw [walk_eq_moves]
  apply Follows.foldl
  refine ⟨?_, ?_⟩
  · exact (BitVec.add_zero _).symm
  · intro r _
    rfl

/-! ## The handler -/

/-- The RVA after the code array, which the format pads to an even number of slots. -/
def storedHandler (image : Nat → Byte) (unwindPtr : Nat) : BitVec 32 :=
  let countOfUnwindCodes := (image (unwindPtr + 2)).toNat
  u32At image (unwindPtr + 4 + (countOfUnwindCodes + countOfUnwindCodes % 2) * 2)

/-- The version is one that is supported, and the array needs no padding, unless the padding and the
    halves of the RVA are the same; or the version is not supported and the RVA is 0. -/
def HandlerFound (image : Nat → Byte) (unwindPtr : Nat) : Prop :=
  let version := (image unwindPtr).toNat % 8
  let countOfUnwindCodes := (image (unwindPtr + 2)).toNat
  let slot := fun i => u16At image (unwindPtr + 4 + i * 2)
  if version = 1 ∨ version = 2 then
    countOfUnwindCodes % 2 = 0 ∨
      slot countOfUnwindCodes = slot (countOfUnwindCodes + 1) ∧
        slot (countOfUnwindCodes + 1) = slot (countOfUnwindCodes + 2)
  else storedHandler image unwindPtr = 0

theorem append_eq_append_iff {n k : Nat} {hi hi' : BitVec n} {lo lo' : BitVec k} :
    hi ++ lo = hi' ++ lo' ↔ hi = hi' ∧ lo = lo' := by
  constructor
  · intro h
    constructor
    · have hhigh := congrArg (fun v => BitVec.extractLsb' k n v) h
      simpa [BitVec.extractLsb'_append_eq_of_le] using hhigh
    · have hlow := congrArg (fun v => BitVec.setWidth k v) h
      simpa [BitVec.setWidth_append] using hlow
  · rintro ⟨rfl, rfl⟩
    rfl

theorem u32At_eq_iff (image : Nat → Byte) (a b : Nat) :
    u32At image a = u32At image b ↔
      u16At image (a + 2) = u16At image (b + 2) ∧ u16At image a = u16At image b :=
  append_eq_append_iff

theorem walk_congr {code code' : Nat → BitVec 16} {n : Nat} (h : ∀ i < n, code i = code' i)
    (stack : Mem) (ctx : Context) : walk code stack n ctx = walk code' stack n ctx := by
  rw [walk_eq_moves, walk_eq_moves, moves_congr n h]

/-- **The handler that is returned is the one stored** exactly when `HandlerFound`; and the walk
    depends on no slot but those of the array. -/
theorem handler_eq_iff (image : Nat → Byte) (stack : Mem) {rf : RuntimeFunction} (imageBase : Nat)
    (ctx : Context) (hrf : rf.unwindData ≠ 0)
    (hflags : (image (imageBase + rf.unwindData.toNat)).toNat / 8 % 4 ≠ 0) :
    ((virtualUnwind image stack (some rf) imageBase ctx).handler =
        storedHandler image (imageBase + rf.unwindData.toNat) ↔
      HandlerFound image (imageBase + rf.unwindData.toNat)) ∧
    ∀ code : Nat → BitVec 16, ∀ start,
      (∀ i < (image (imageBase + rf.unwindData.toNat + 2)).toNat,
        code i = u16At image (imageBase + rf.unwindData.toNat + 4 + i * 2)) →
      walk code stack (image (imageBase + rf.unwindData.toNat + 2)).toNat start =
        walk (fun i => u16At image (imageBase + rf.unwindData.toNat + 4 + i * 2)) stack
          (image (imageBase + rf.unwindData.toNat + 2)).toNat start := by
  refine ⟨?_, fun code start hcode => walk_congr hcode stack start⟩
  generalize hptr : imageBase + rf.unwindData.toNat = ptr at hflags
  unfold virtualUnwind HandlerFound
  simp only [if_neg hrf, hptr]
  by_cases hversion : (image ptr).toNat % 8 = 1 ∨ (image ptr).toNat % 8 = 2
  · have hsupported : ¬ ((image ptr).toNat % 8 ≠ 1 ∧ (image ptr).toNat % 8 ≠ 2) := by omega
    simp only [if_neg hsupported, if_pos hversion, if_pos hflags]
    generalize hn : (image (ptr + 2)).toNat = n
    unfold storedHandler
    rw [hn]
    by_cases heven : n % 2 = 0
    · have hoffset : ptr + (4 + n * 2) = ptr + 4 + (n + n % 2) * 2 := by omega
      rw [hoffset]
      exact iff_of_true (Eq.refl _) (Or.inl heven)
    · have hodd : n % 2 = 1 := by omega
      rw [u32At_eq_iff, hodd, or_iff_right (by omega)]
      have hslots : ptr + (4 + n * 2) = ptr + 4 + n * 2 ∧
          ptr + 4 + n * 2 + 2 = ptr + 4 + (n + 1) * 2 ∧
          ptr + 4 + (n + 1) * 2 + 2 = ptr + 4 + (n + 2) * 2 := by omega
      rw [hslots.1, hslots.2.1, hslots.2.2]
      exact and_comm
  · have hunsupported : (image ptr).toNat % 8 ≠ 1 ∧ (image ptr).toNat % 8 ≠ 2 := by omega
    simp only [if_pos hunsupported, if_neg hversion]
    exact eq_comm

/-- The image at 0x140000000 with this `UNWIND_INFO` at 0x5000. -/
def unwindInfoImage (bytes : List Byte) (a : Nat) : Byte := bytes.getD (a - 0x140005000) 0

/-- A function that allocates 16 bytes and pushes a register. -/
def twoCodes : Nat → Byte :=
  unwindInfoImage [0x09, 6, 2, 0, 6, 0x12, 2, 0x30, 0, 0x60, 0, 0]

def nowhere : Context := ⟨fun _ => 0, 0⟩

theorem handler_eq_iff_twoCodes : (virtualUnwind twoCodes (fun _ => 0)
    (some ⟨0x1000, 0x1010, 0x5000⟩) 0x140000000 nowhere).handler = 0x6000 := by
  have hstored : storedHandler twoCodes (0x140000000 + 0x5000) = 0x6000 := by decide
  have hunwind : (RuntimeFunction.mk 0x1000 0x1010 0x5000).unwindData ≠ 0 := by decide
  have hiff := (handler_eq_iff twoCodes (fun _ => 0) 0x140000000 nowhere hunwind (by decide)).1
  exact (hiff.mpr (Or.inl rfl)).trans hstored

/-- With one code the padding is taken for the lower half of the RVA. -/
theorem oneCode_handler : ∃ image : Nat → Byte,
    (virtualUnwind image (fun _ => 0) (some ⟨0x1000, 0x1010, 0x5000⟩) 0x140000000 nowhere).handler =
      0x60000000 ∧ storedHandler image 0x140005000 = 0x6000 :=
  ⟨unwindInfoImage [0x09, 4, 1, 0, 4, 0x42, 0, 0, 0, 0x60, 0, 0], by decide, by decide⟩

end WinCompat.Seh
