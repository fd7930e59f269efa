import WinCompat.Lib.Bytes

/-!
# The trampolines, byte for byte

`emit_returning` and `emit_noreturn` of `pe-loader/src/thunk.rs`. The argument count is a `u8`
there; every displacement computed from one fits an `imm32` with room to spare.
-/

namespace WinCompat.Loader

open Lib.Bytes

/-- How many System V arguments travel on the stack: the Windows arguments from the 7th on. -/
def stackArgs (nArgs : Nat) : Nat := nArgs - 6

/-- The bytes reserved for them, padded so that the call is made on a 16-byte boundary. -/
def frameSize (nArgs : Nat) : Nat :=
  8 * stackArgs nArgs + if stackArgs nArgs % 2 = 0 then 8 else 0

/-- A displacement or an immediate, `as u32`. -/
def imm32 (n : Nat) : List Byte := le32 (BitVec.ofNat 32 n)

/-- The first four Windows arguments into the System V registers. -/
def emitShuffle : List Byte :=
  [0x48, 0x89, 0xCF] ++    -- mov rdi, rcx
  [0x48, 0x89, 0xD6] ++    -- mov rsi, rdx
  [0x4C, 0x89, 0xC2] ++    -- mov rdx, r8
  [0x4C, 0x89, 0xC9]       -- mov rcx, r9

def emitReturning (target : Word) (nArgs : Nat) : List Byte :=
  let s := stackArgs nArgs
  let frame := frameSize nArgs
  [0x57] ++                -- push rdi
  [0x56] ++                -- push rsi
  (if frame > 0 then [0x48, 0x81, 0xEC] ++ imm32 frame else []) ++    -- sub rsp, frame
  emitShuffle ++
  -- mov r8, [rsp + 0x38 + frame]
  (if nArgs ≥ 5 then [0x4C, 0x8B, 0x84, 0x24] ++ imm32 (0x38 + frame) else []) ++
  -- mov r9, [rsp + 0x40 + frame]
  (if nArgs ≥ 6 then [0x4C, 0x8B, 0x8C, 0x24] ++ imm32 (0x40 + frame) else []) ++
  (List.range s).flatMap (fun i =>
    -- mov rax, [rsp + 0x48 + frame + 8 * i]
    [0x48, 0x8B, 0x84, 0x24] ++ imm32 (0x48 + frame + 8 * i) ++
    -- mov [rsp + 8 * i], rax
    ([0x48, 0x89, 0x84, 0x24] ++ imm32 (8 * i))) ++
  ([0x48, 0xB8] ++ le64 target) ++    -- mov rax, target
  [0xFF, 0xD0] ++                     -- call rax
  (if frame > 0 then [0x48, 0x81, 0xC4] ++ imm32 frame else []) ++    -- add rsp, frame
  [0x5E] ++                -- pop rsi
  [0x5F] ++                -- pop rdi
  [0xC3]                   -- ret

def emitNoreturn (target : Word) (nArgs : Nat) : List Byte :=
  emitShuffle ++
  -- mov r8, [rsp + 0x28]
  (if nArgs ≥ 5 then [0x4C, 0x8B, 0x84, 0x24] ++ imm32 0x28 else []) ++
  -- mov r9, [rsp + 0x30]
  (if nArgs ≥ 6 then [0x4C, 0x8B, 0x8C, 0x24] ++ imm32 0x30 else []) ++
  ([0x48, 0xB8] ++ le64 target) ++    -- mov rax, target
  [0xFF, 0xE0]                        -- jmp rax

end WinCompat.Loader
