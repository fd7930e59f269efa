import WinCompat.Lib.Bytes

/-!
# The C allocator, seen by its callers

`malloc`, `realloc` and `free` over a byte-addressed memory. Where a block lands, and what the
allocator writes outside the blocks it has handed out, is the answer each call is given; `Granted`
is what the standard and the ABI promise of an answer. A pointer that is no block's is undefined
behaviour, `none`.
-/

namespace WinCompat.Lib.Malloc

open Bytes

/-- `size` bytes at `base`. -/
structure Block where
  base : Word
  size : Nat
  deriving DecidableEq

namespace Block

def Contains (b : Block) (a : Word) : Prop :=
  b.base.toNat ≤ a.toNat ∧ a.toNat < b.base.toNat + b.size

instance (b : Block) (a : Word) : Decidable (b.Contains a) := inferInstanceAs (Decidable (_ ∧ _))

/-- The two share no byte. -/
def Apart (b b' : Block) : Prop :=
  b.base.toNat + b.size ≤ b'.base.toNat ∨ b'.base.toNat + b'.size ≤ b.base.toNat

instance (b b' : Block) : Decidable (b.Apart b') := inferInstanceAs (Decidable (_ ∨ _))

theorem Apart.symm {b b' : Block} (h : b.Apart b') : b'.Apart b := Or.symm h

theorem Apart.not_contains {b b' : Block} (h : b.Apart b') {a : Word} (ha : b'.Contains a) :
    ¬ b.Contains a := by
  unfold Apart at h
  unfold Contains at *
  omega

/-- 16-byte aligned, not at 0, and inside the address space. -/
structure Fits (b : Block) : Prop where
  aligned : b.base.toNat % 16 = 0
  base_ne : b.base ≠ 0
  bounded : b.base.toNat + b.size ≤ 2 ^ 64

end Block

structure Heap where
  mem : Mem
  /-- The blocks handed out and not freed. -/
  blocks : List Block

/-- Memory agrees on the bytes of these blocks. -/
def Keeps (m m' : Mem) (blocks : List Block) : Prop :=
  ∀ b ∈ blocks, ∀ a, b.Contains a → m' a = m a

/-- A new block of `size` bytes, among blocks that stay, with the memory it leaves. -/
structure Granted (others : List Block) (m : Mem) (size : Nat) (base : Word) (m' : Mem) : Prop where
  fits : Block.Fits ⟨base, size⟩
  apart : ∀ b ∈ others, Block.Apart ⟨base, size⟩ b
  keeps : Keeps m m' others

/-- Where a block lands and the memory it leaves; `none` is NULL. -/
abbrev Answer := Option (Word × Mem)

namespace Heap

/-- The blocks other than the one at `base`. -/
def others (h : Heap) (base : Word) : List Block := h.blocks.filter fun b => b.base ≠ base

def malloc (h : Heap) (size : Nat) : Answer → Option Word × Heap
  | none => (none, h)
  | some (base, m) => (some base, ⟨m, ⟨base, size⟩ :: h.blocks⟩)

def realloc (h : Heap) (base : Word) (size : Nat) (answer : Answer) : Option (Option Word × Heap) :=
  if ∃ b ∈ h.blocks, b.base = base then
    match answer with
    | none => some (none, h)
    | some (base', m) => some (some base', ⟨m, ⟨base', size⟩ :: h.others base⟩)
  else
    none

/-- `m` is the memory that `free` leaves. -/
def free (h : Heap) (base : Word) (m : Mem) : Option Heap :=
  if ∃ b ∈ h.blocks, b.base = base then some ⟨m, h.others base⟩ else none

/-- The answers `malloc` gives. -/
def Mallocs (h : Heap) (size : Nat) (answer : Answer) : Prop :=
  ∀ base m, answer = some (base, m) → Granted h.blocks h.mem size base m

/-- The answers `realloc` gives: a new block, in the place of the old one or elsewhere, that begins
    with as much of its contents as there is room for. -/
def Reallocs (h : Heap) (base : Word) (size : Nat) (answer : Answer) : Prop :=
  ∀ base' m, answer = some (base', m) → Granted (h.others base) h.mem size base' m ∧
    ∀ b ∈ h.blocks, b.base = base → ∀ i, i < b.size → i < size →
      m (off base' i) = h.mem (off base i)

/-- What `free` leaves. -/
def Frees (h : Heap) (base : Word) (m : Mem) : Prop := Keeps h.mem m (h.others base)

end Heap

/-! ## Stores into a block -/

theorem sub_lt_iff {a x : Word} {n : Nat} (h : a.toNat + n ≤ 2 ^ 64) :
    (x - a).toNat < n ↔ Block.Contains ⟨a, n⟩ x := by
  have ha := a.isLt
  have hx := x.isLt
  unfold Block.Contains
  rw [BitVec.toNat_sub]
  dsimp only
  omega

/-- `write_bytes(a, 0, n)`. -/
def fillZero (m : Mem) (a : Word) (n : Nat) : Mem := fun x => if (x - a).toNat < n then 0 else m x

@[simp] theorem fillZero_zero (m : Mem) (a : Word) : fillZero m a 0 = m :=
  funext fun _ => if_neg (Nat.not_lt_zero _)

theorem fillZero_of_not_contains {m : Mem} {a x : Word} {n : Nat} (h : a.toNat + n ≤ 2 ^ 64)
    (hx : ¬ Block.Contains ⟨a, n⟩ x) : fillZero m a n x = m x :=
  if_neg (mt (sub_lt_iff h).mp hx)

theorem write64_of_not_contains {m : Mem} {a v x : Word} (h : a.toNat + 8 ≤ 2 ^ 64)
    (hx : ¬ Block.Contains ⟨a, 8⟩ x) : write64 m a v x = m x :=
  if_neg (mt (sub_lt_iff h).mp hx)

theorem off_toNat {a : Word} {i : Nat} (h : a.toNat + i < 2 ^ 64) :
    (off a i).toNat = a.toNat + i := by
  unfold off
  rw [BitVec.toNat_add, BitVec.toNat_ofNat, Nat.mod_eq_of_lt (by omega : i < 2 ^ 64)]
  exact Nat.mod_eq_of_lt h

/-- Byte `i` of a block. -/
theorem contains_off {b : Block} {i : Nat} (hi : i < b.size)
    (hbounded : b.base.toNat + b.size ≤ 2 ^ 64) : b.Contains (off b.base i) := by
  unfold Block.Contains
  rw [off_toNat (by omega)]
  omega

theorem fillZero_off {m : Mem} {a : Word} {n i : Nat} (hi : i < n) (h : a.toNat + n ≤ 2 ^ 64) :
    fillZero m a n (off a i) = 0 :=
  if_pos ((sub_lt_iff h).mpr (@contains_off ⟨a, n⟩ i hi h))

theorem Keeps.read64 {m m' : Mem} {blocks : List Block} (h : Keeps m m' blocks) {b : Block}
    (hb : b ∈ blocks) {k : Nat} (hk : k + 8 ≤ b.size) (hbounded : b.base.toNat + b.size ≤ 2 ^ 64) :
    Bytes.read64 m' (off b.base k) = Bytes.read64 m (off b.base k) := by
  apply read64_congr
  intro j hj
  have hin := @contains_off b (k + j) (by omega) hbounded
  rw [← off_off] at hin
  exact h b hb _ hin

theorem Keeps.trans {m m' m'' : Mem} {blocks : List Block} (h : Keeps m m' blocks)
    (h' : Keeps m' m'' blocks) : Keeps m m'' blocks :=
  fun b hb a ha => (h' b hb a ha).trans (h b hb a ha)

theorem keeps_of_apart {m m' : Mem} {b : Block} {others : List Block}
    (hapart : ∀ b' ∈ others, b.Apart b') (h : ∀ a, ¬ b.Contains a → m' a = m a) :
    Keeps m m' others :=
  fun b' hb' a ha => h a ((hapart b' hb').not_contains ha)

end WinCompat.Lib.Malloc
