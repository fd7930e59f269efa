import WinCompat.Lib.Machine
import WinCompat.Lib.Paging
import WinCompat.Loader.Trampoline

/-!
# The thunk arena

`ThunkArena` of `pe-loader/src/thunk.rs`: a block of memory that code is emitted into from the
bottom up, and the blocks it outgrew. The kernel's answers to `mmap` come with the labels of the
machine; it hands out whole pages that were not mapped.

The machine keeps a record beside each arena of the spans it handed out and of what had been handed
out when it was finalized. `Stable` is what the users of an arena rely on, after any calls on any
number of arenas.
-/

namespace WinCompat.Loader

open Lib Lib.Paging
open Lib.Bytes (Word)

inductive ThunkError
  | tooManyArgs (n : Nat)
  | allocFailed (size : Nat) (msg : String)
  | execFailed (size : Nat) (msg : String)
  deriving DecidableEq

/-- A mapping: whole pages. -/
structure Block where
  page : Nat
  count : Nat
  deriving DecidableEq

namespace Block

def base (b : Block) : Nat := b.page * pageSize

def len (b : Block) : Nat := b.count * pageSize

def HasPage (b : Block) (i : Nat) : Prop := InRange b.page b.count i

instance (b : Block) (i : Nat) : Decidable (b.HasPage i) :=
  inferInstanceAs (Decidable (InRange _ _ _))

end Block

structure Arena where
  /-- `base` and `len`. -/
  block : Block
  cursor : Nat
  sealed : Bool
  retired : List Block
  deriving DecidableEq

namespace Arena

/-- Every block the arena owns, as `finalize` and `drop` go through them. -/
def blocks (a : Arena) : List Block := a.retired ++ [a.block]

end Arena

/-- What the kernel answers to an `mmap`: a page number, or what `errno_str` makes of the refusal. -/
abbrev MmapAnswer := Except String Nat

/-- An anonymous read-write mapping of `len` bytes, where `len` is a multiple of the page size. -/
def mmapBlock (space : Space) (len : Nat) : MmapAnswer → Except ThunkError (Block × Space)
  | .error msg => .error (.allocFailed len msg)
  | .ok page =>
    .ok (⟨page, len / pageSize⟩, mapZero space page (len / pageSize) .readWrite)

/-- The length asked for by `with_capacity`. A capacity so large that this would wrap is one the
    kernel refuses. -/
def capacityLen (capacity : Nat) : Nat := roundUp (max capacity pageSize) pageSize

def withCapacity (space : Space) (capacity : Nat) (os : MmapAnswer) :
    Except ThunkError (Arena × Space) := do
  let (block, space) ← mmapBlock space (capacityLen capacity) os
  return (⟨block, 0, false, []⟩, space)

namespace Arena

/-- The length asked for by `grow(need)`. -/
def growLen (a : Arena) (need : Nat) : Nat := roundUp (max need (a.block.len * 2)) pageSize

def grow (a : Arena) (space : Space) (need : Nat) (os : MmapAnswer) :
    Except ThunkError (Arena × Space) := do
  let (block, space) ← mmapBlock space (a.growLen need) os
  return (⟨block, 0, false, a.retired ++ [a.block]⟩, space)

def alloc (a : Arena) (space : Space) (n : Nat) (os : MmapAnswer) :
    Except ThunkError (Nat × Arena × Space) :=
  if a.sealed then
    .error (.allocFailed n "arena is sealed (finalized); cannot emit more thunks")
  else if a.block.len < roundUp a.cursor 16 + n then do
    let (a, space) ← a.grow space (roundUp a.cursor 16 + n) os
    let aligned := roundUp a.cursor 16
    return (aligned, { a with cursor := aligned + n }, space)
  else
    .ok (roundUp a.cursor 16, { a with cursor := roundUp a.cursor 16 + n }, space)

/-- The common end of `make_thunk` and `make_thunk_noreturn`. -/
def emit (a : Arena) (space : Space) (code : List Byte) (os : MmapAnswer) :
    Except ThunkError (Nat × Arena × Space) := do
  let (off, a, space) ← a.alloc space code.length os
  return (a.block.base + off, a, storeBytes space (a.block.base + off) code)

def makeThunk (a : Arena) (space : Space) (target : Word) (nArgs : Nat) (os : MmapAnswer) :
    Except ThunkError (Nat × Arena × Space) :=
  if 32 < nArgs then .error (.tooManyArgs nArgs)
  else a.emit space (emitReturning target nArgs) os

def makeThunkNoreturn (a : Arena) (space : Space) (target : Word) (nArgs : Nat)
    (os : MmapAnswer) : Except ThunkError (Nat × Arena × Space) :=
  if 6 < nArgs then .error (.tooManyArgs nArgs)
  else a.emit space (emitNoreturn target nArgs) os

end Arena

/-- The loop of `finalize`. `mprotect` refuses only what is not mapped (`ENOMEM`). -/
def sealBlocks (space : Space) : List Block → Except ThunkError Unit × Space
  | [] => (.ok (), space)
  | b :: bs =>
    let r := mprotect space b.page b.count .readExec
    if r.1 then sealBlocks r.2 bs else (.error (.execFailed b.len "errno 12"), r.2)

def Arena.finalize (a : Arena) (space : Space) : Except ThunkError Unit × Arena × Space :=
  if a.sealed then (.ok (), a, space)
  else
    let r := sealBlocks space a.blocks
    match r.1 with
    | .ok () => (.ok (), { a with sealed := true }, r.2)
    | .error e => (.error e, a, r.2)

/-! ## The machine -/

/-- Emitted code, where it was handed out. -/
structure Span where
  addr : Nat
  code : List Byte

/-- An arena with what was done with it. -/
structure Holder where
  arena : Arena
  /-- Every span handed out. -/
  spans : List Span
  /-- The spans handed out when the arena was first finalized. -/
  atSeal : Option (List Span)

structure ArenaState where
  space : Space
  arenas : Nat → Option Holder

inductive ArenaCall
  | withCapacity (k capacity : Nat) (os : MmapAnswer)
  | makeThunk (k : Nat) (target : Word) (nArgs : Nat) (os : MmapAnswer)
  | makeThunkNoreturn (k : Nat) (target : Word) (nArgs : Nat) (os : MmapAnswer)
  | finalize (k : Nat)

/-- `mmap` hands out pages that are not mapped. -/
def FreshAnswer (space : Space) (len : Nat) : MmapAnswer → Prop
  | .error _ => True
  | .ok page => page * pageSize + len ≤ taskSize ∧ Unmapped space page (len / pageSize)

instance (space : Space) (len : Nat) : ∀ os, Decidable (FreshAnswer space len os)
  | .error _ => inferInstanceAs (Decidable True)
  | .ok _ => inferInstanceAs (Decidable (_ ∧ _))

namespace ArenaState

def setHolder (s : ArenaState) (k : Nat) (space : Space) (h : Holder) : ArenaState :=
  ⟨space, Function.update s.arenas k (some h)⟩

/-- What is left of a call that returned a span, or an error and nothing else. -/
def handOut (s : ArenaState) (k : Nat) (h : Holder) (code : List Byte) :
    Except ThunkError (Nat × Arena × Space) → ArenaState
  | .error _ => s
  | .ok (addr, a, space) => s.setHolder k space { h with arena := a, spans := ⟨addr, code⟩ :: h.spans }

end ArenaState

def Holder.seal (h : Holder) (a : Arena) : Holder :=
  { h with arena := a, atSeal := some (h.atSeal.getD h.spans) }

def ArenaCall.next (s : ArenaState) : ArenaCall → Option ArenaState
  | .withCapacity k capacity os =>
    if s.arenas k = none ∧ FreshAnswer s.space (capacityLen capacity) os then
      match Loader.withCapacity s.space capacity os with
      | .error _ => some s
      | .ok (a, space) => some (s.setHolder k space ⟨a, [], none⟩)
    else none
  | .makeThunk k target nArgs os => do
    let h ← s.arenas k
    let code := emitReturning target nArgs
    if FreshAnswer s.space (h.arena.growLen (roundUp h.arena.cursor 16 + code.length)) os then
      some (s.handOut k h code (h.arena.makeThunk s.space target nArgs os))
    else none
  | .makeThunkNoreturn k target nArgs os => do
    let h ← s.arenas k
    let code := emitNoreturn target nArgs
    if FreshAnswer s.space (h.arena.growLen (roundUp h.arena.cursor 16 + code.length)) os then
      some (s.handOut k h code (h.arena.makeThunkNoreturn s.space target nArgs os))
    else none
  | .finalize k => do
    let h ← s.arenas k
    match h.arena.finalize s.space with
    | (.ok (), a, space) => some (s.setHolder k space (h.seal a))
    | (.error _, a, space) => some (s.setHolder k space { h with arena := a })

/-- No arena yet; anything else may be mapped. -/
def arenaMachine : Machine ArenaState ArenaCall where
  init s := ∀ k, s.arenas k = none
  next := ArenaCall.next

/-! ## What the users of an arena rely on -/

def Span.Apart (x y : Span) : Prop :=
  x.addr + x.code.length ≤ y.addr ∨ y.addr + y.code.length ≤ x.addr

def Block.Contains (b : Block) (sp : Span) : Prop :=
  b.base ≤ sp.addr ∧ sp.addr + sp.code.length ≤ b.base + b.len

/-- Writable and not executable until the arena is finalized, executable and not writable after. -/
def WriteXorExec (finalized : Bool) (p : Prot) : Prop :=
  p.write = !finalized ∧ p.exec = finalized

/-- **An arena's promises.** -/
structure Stable (s : ArenaState) : Prop where
  disjoint : ∀ k h, s.arenas k = some h → h.spans.Pairwise Span.Apart
  apart : ∀ k k' h h', k ≠ k' → s.arenas k = some h → s.arenas k' = some h' →
    ∀ sp ∈ h.spans, ∀ sp' ∈ h'.spans, sp.Apart sp'
  inside : ∀ k h, s.arenas k = some h → ∀ sp ∈ h.spans, ∃ b ∈ h.arena.blocks, b.Contains sp
  intact : ∀ k h, s.arenas k = some h → ∀ sp ∈ h.spans, Holds s.space sp.addr sp.code
  protected_ : ∀ k h, s.arenas k = some h → ∀ b ∈ h.arena.blocks,
    ∀ a, b.base ≤ a → a < b.base + b.len →
      ∃ pg, s.space (a / pageSize) = some pg ∧ WriteXorExec h.atSeal.isSome pg.prot
  closed : ∀ k h, s.arenas k = some h → ∀ l, h.atSeal = some l → h.spans = l

end WinCompat.Loader
