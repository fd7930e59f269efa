import WinCompat.Crt.Strings
import WinCompat.Heap.Blocks

/-!
# Run-times side by side

The functions that more than one of `crt.rs` (msvcrt), `ucrt.rs` (ucrtbase) and `vcruntime.rs`
(vcruntime140) exports. The allocators are the heap's calls, so blocks may go from one run-time to
the other; they differ in `realloc` to 0 bytes, which msvcrt takes to free the block. What
vcruntime140 has it takes from the host's C library.
-/

namespace WinCompat.Crt

open Lib Lib.Bytes Lib.Search Lib.Malloc Heap

/-! ## Blocks -/

namespace Msvcrt

def malloc (s : State) (size : Word) (answer : Answer) : Option (Word × State) :=
  (Call.heapAlloc 0 size answer).apply s

/-- `calloc`; `checked_mul` fails where the product does not fit. -/
def calloc (s : State) (count size : Word) (answer : Answer) : Option (Word × State) :=
  if count.toNat * size.toNat < 2 ^ 64 then
    (Call.heapAlloc heapZeroMemory (count * size) answer).apply s
  else some (0, s)

/-- `free`, which returns nothing. -/
def free (s : State) (ptr : Word) (freed : Mem) : Option (Word × State) :=
  ((Call.heapFree ptr freed).apply s).map fun r => (0, r.2)

def realloc (s : State) (ptr size : Word) (answer : Answer) (freed : Mem) :
    Option (Word × State) :=
  if ptr = 0 then (Call.heapAlloc 0 size answer).apply s
  else if size = 0 then ((Call.heapFree ptr freed).apply s).map fun r => (0, r.2)
  else (Call.heapReAlloc 0 ptr size answer).apply s

end Msvcrt

namespace Ucrt

def malloc (s : State) (size : Word) (answer : Answer) : Option (Word × State) :=
  (Call.heapAlloc 0 size answer).apply s

def calloc (s : State) (count size : Word) (answer : Answer) : Option (Word × State) :=
  if count.toNat * size.toNat < 2 ^ 64 then
    (Call.heapAlloc heapZeroMemory (count * size) answer).apply s
  else some (0, s)

def free (s : State) (ptr : Word) (freed : Mem) : Option (Word × State) :=
  ((Call.heapFree ptr freed).apply s).map fun r => (0, r.2)

def realloc (s : State) (ptr size : Word) (answer : Answer) : Option (Word × State) :=
  (Call.heapReAlloc 0 ptr size answer).apply s

end Ucrt

/-- The run-times with an allocator. -/
inductive Runtime
  | msvcrt | ucrtbase
  deriving DecidableEq

/-- A call that any run-time may serve, with what the C allocator has to say, or one of the guest's
    other calls and stores. -/
inductive Request
  | malloc (size : Word) (answer : Answer)
  | calloc (count size : Word) (answer : Answer)
  | realloc (ptr size : Word) (answer : Answer) (freed : Mem)
  | free (ptr : Word) (freed : Mem)
  | heap (c : Call)

namespace Request

def apply (s : State) : Request → Runtime → Option (Word × State)
  | .malloc size answer, .msvcrt => Msvcrt.malloc s size answer
  | .malloc size answer, .ucrtbase => Ucrt.malloc s size answer
  | .calloc count size answer, .msvcrt => Msvcrt.calloc s count size answer
  | .calloc count size answer, .ucrtbase => Ucrt.calloc s count size answer
  | .realloc ptr size answer freed, .msvcrt => Msvcrt.realloc s ptr size answer freed
  | .realloc ptr size answer _, .ucrtbase => Ucrt.realloc s ptr size answer
  | .free ptr freed, .msvcrt => Msvcrt.free s ptr freed
  | .free ptr freed, .ucrtbase => Ucrt.free s ptr freed
  | .heap c, _ => c.apply s

/-- Pointers are NULL or those of live blocks, and the C allocator answers as it should. -/
def Allowed (s : State) : Request → Prop
  | .malloc size answer => (Call.heapAlloc 0 size answer).Allowed s
  | .calloc count size answer => (Call.heapAlloc heapZeroMemory (count * size) answer).Allowed s
  | .realloc ptr size answer freed =>
    (Call.heapReAlloc 0 ptr size answer).Allowed s ∧ (Call.heapFree ptr freed).Allowed s
  | .free ptr freed => (Call.heapFree ptr freed).Allowed s
  | .heap c => c.Allowed s

/-- `realloc` of a block to 0 bytes. -/
def Empties : Request → Prop
  | .realloc ptr size _ _ => ptr ≠ 0 ∧ size = 0
  | _ => False

/-- What C says that a request does, `realloc` to 0 bytes apart. -/
def Documented (s : State) (r : Word) (s' : State) : Request → Prop
  | .malloc size _ => Allocates s 0 size r s'
  | .calloc count size _ =>
    if count.toNat * size.toNat < 2 ^ 64 then Allocates s heapZeroMemory (count * size) r s'
    else Failed s s' r
  | .realloc ptr size answer _ => (Call.heapReAlloc 0 ptr size answer).Documented s r s'
  | .free ptr freed => (Call.heapFree ptr freed).Documented s 1 s'
  | .heap c => c.Documented s r s'

end Request

/-- The values that a sequence of requests returns, and the state after it. -/
def run (s : State) : List (Request × Runtime) → Option (List Word × State)
  | [] => some ([], s)
  | (q, l) :: p => do
      let (r, s') ← q.apply s l
      let (rs, s'') ← run s' p
      some (r :: rs, s'')

/-- Each request of the sequence is allowed where it is made, and none empties a block. -/
def Clean (s : State) : List (Request × Runtime) → Prop
  | [] => True
  | (q, l) :: p => q.Allowed s ∧ ¬ q.Empties ∧ ∀ r s', q.apply s l = some (r, s') → Clean s' p

/-! ## Strings and memory -/

/-- The loop of `memcmp`. -/
def cmpFrom : Nat → List Byte → List Byte → Option Int
  | 0, _, _ => some 0
  | n + 1, x :: a, y :: b => if x ≠ y then some ((x.toNat : Int) - y.toNat) else cmpFrom n a b
  | _ + 1, _, _ => none

/-- The loop of `strncmp`. -/
def ncmpFrom : Nat → List Byte → List Byte → Option Int
  | 0, _, _ => some 0
  | n + 1, x :: a, y :: b =>
      if x ≠ y then some ((x.toNat : Int) - y.toNat) else if x = 0 then some 0 else ncmpFrom n a b
  | _ + 1, _, _ => none

namespace Msvcrt

def strlen (s : Option (List Byte)) : Option Nat :=
  match s with
  | none => some 0
  | some m => lengthFrom m 0

def strncmp (a b : Option (List Byte)) (n : Nat) : Option Int :=
  match a, b with
  | some a, some b => ncmpFrom n a b
  | _, _ => some 0

def memcmp (a b : Option (List Byte)) (n : Nat) : Option Int :=
  match a, b with
  | some a, some b => cmpFrom n a b
  | _, _ => some 0

end Msvcrt

/-- The `n` bytes at `dst` are `f`, and the others are those of `m`. -/
def fillWith (m : Mem) (dst : Word) (n : Nat) (f : Nat → Byte) : Mem :=
  fun x => if (x - dst).toNat < n then f (x - dst).toNat else m x

/-- There are `n` bytes at a pointer that is not NULL. -/
def Valid (p : Word) (n : Nat) : Prop := p ≠ 0 ∧ p.toNat + n ≤ 2 ^ 64

/-- `dst` is returned, the `n` bytes at it are `f`, and no other byte has changed. -/
structure Writes (m : Mem) (dst : Word) (n : Nat) (f : Nat → Byte) (r : Word × Mem) : Prop where
  returned : r.1 = dst
  written : ∀ i < n, r.2 (off dst i) = f i
  kept : ∀ x, ¬ Block.Contains ⟨dst, n⟩ x → r.2 x = m x

/-- The host's functions, which do what C says. -/
structure Libc where
  strlen : Option (List Byte) → Option Nat
  strlen_held : ∀ (s : Text Byte) (m : List Byte), strlen (some (s.held m)) = some s.length
  strchr : Option (List Byte) → BitVec 32 → Option (Option Nat)
  strchr_held : ∀ (s : Text Byte) (c : BitVec 32) (m : List Byte), ∃ r,
    strchr (some (s.held m)) c = some r ∧
      First (fun i => (s.units ++ [0])[i]? = some (c.setWidth 8)) r
  strstr : Option (List Byte) → Option (List Byte) → Option (Option Nat)
  strstr_held : ∀ (s t : Text Byte) (m m' : List Byte), ∃ r,
    strstr (some (s.held m)) (some (t.held m')) = some r ∧
      First (fun i => t.units <+: s.units.drop i) r
  memchr : Option (List Byte) → BitVec 32 → Nat → Option (Option Nat)
  memchr_first : ∀ (l : List Byte) (c : BitVec 32) (n : Nat), n ≤ l.length → ∃ r,
    memchr (some l) c n = some r ∧ First (fun i => i < n ∧ l[i]? = some (c.setWidth 8)) r
  memcmp : Option (List Byte) → Option (List Byte) → Nat → Option Int
  memcmp_orders : ∀ (a b : List Byte) (n : Nat), n ≤ a.length → n ≤ b.length → ∃ r,
    memcmp (some a) (some b) n = some r ∧ Orders r (a.take n) (b.take n)
  memset : Mem → Word → BitVec 32 → Nat → Word × Mem
  memset_writes : ∀ m dst c n, Valid dst n →
    Writes m dst n (fun _ => c.setWidth 8) (memset m dst c n)
  memcpy : Mem → Word → Word → Nat → Word × Mem
  memcpy_writes : ∀ m dst src n, Valid dst n → Valid src n → Block.Apart ⟨dst, n⟩ ⟨src, n⟩ →
    Writes m dst n (fun i => m (off src i)) (memcpy m dst src n)
  memmove : Mem → Word → Word → Nat → Word × Mem
  memmove_writes : ∀ m dst src n, Valid dst n → Valid src n →
    Writes m dst n (fun i => m (off src i)) (memmove m dst src n)

namespace Ucrt

def strlen (s : Option (List Byte)) : Option Nat :=
  match s with
  | none => some 0
  | some m => lengthFrom m 0

def strncmp (a b : Option (List Byte)) (n : Nat) : Option Int := Msvcrt.strncmp a b n

def memcmp (a b : Option (List Byte)) (n : Nat) : Option Int :=
  match a, b with
  | some a, some b => cmpFrom n a b
  | _, _ => some 0

def memchr (host : Libc) (s : Option (List Byte)) (c : BitVec 32) (n : Nat) :
    Option (Option Nat) :=
  if s.isNone ∨ n = 0 then some none else host.memchr s c n

/-- `memset`, whose value is the low byte of the argument. -/
def memset (m : Mem) (dst : Word) (c : BitVec 32) (n : Nat) : Word × Mem :=
  if dst = 0 ∨ n = 0 then (dst, m) else (dst, fillWith m dst n fun _ => c.setWidth 8)

def memcpy (m : Mem) (dst src : Word) (n : Nat) : Word × Mem :=
  if dst = 0 ∨ src = 0 ∨ n = 0 then (dst, m)
  else (dst, fillWith m dst n fun i => m (off src i))

def memmove (m : Mem) (dst src : Word) (n : Nat) : Word × Mem :=
  if dst = 0 ∨ src = 0 ∨ n = 0 then (dst, m)
  else (dst, fillWith m dst n fun i => m (off src i))

end Ucrt

namespace Vcruntime

variable (host : Libc)

def vcrStrlen := host.strlen
def vcrStrchr := host.strchr
def vcrStrstr := host.strstr
def vcrMemchr := host.memchr
def vcrMemcmp := host.memcmp
def vcrMemset := host.memset
def vcrMemcpy := host.memcpy
def vcrMemmove := host.memmove

end Vcruntime

/-- The versions of each function of strings and memory return the same, on all arguments that C
    allows, and leave the same memory. -/
structure Libc.Agrees (host : Libc) : Prop where
  strlen : ∀ (s : Text Byte) (m : List Byte), let p := some (s.held m)
    Msvcrt.strlen p = Ucrt.strlen p ∧ Ucrt.strlen p = Vcruntime.vcrStrlen host p
  strncmp : Msvcrt.strncmp = Ucrt.strncmp
  memcmp : ∀ (a b : List Byte) (n : Nat), n ≤ a.length → n ≤ b.length → ∃ r r' : Int,
    Msvcrt.memcmp (some a) (some b) n = some r ∧ Ucrt.memcmp (some a) (some b) n = some r ∧
      Vcruntime.vcrMemcmp host (some a) (some b) n = some r' ∧ r.sign = r'.sign
  memchr : ∀ (l : List Byte) (c : BitVec 32) (n : Nat),
    Ucrt.memchr host (some l) c n = Vcruntime.vcrMemchr host (some l) c n
  strchr : ∀ (s : Text Byte) (c : BitVec 32) (m : List Byte),
    Crt.strchr (s.held m) c = Vcruntime.vcrStrchr host (some (s.held m)) c
  strstr : ∀ (s t : Text Byte) (m m' : List Byte), Crt.strstr (s.held m) (t.held m') =
    Vcruntime.vcrStrstr host (some (s.held m)) (some (t.held m'))
  memset : ∀ m dst c n, Valid dst n → Ucrt.memset m dst c n = Vcruntime.vcrMemset host m dst c n
  memcpy : ∀ m dst src n, Valid dst n → Valid src n → Block.Apart ⟨dst, n⟩ ⟨src, n⟩ →
    Ucrt.memcpy m dst src n = Vcruntime.vcrMemcpy host m dst src n
  memmove : ∀ m dst src n, Valid dst n → Valid src n →
    Ucrt.memmove m dst src n = Vcruntime.vcrMemmove host m dst src n

/-! ## The functions of strings and memory -/

theorem cmpFrom_orders : ∀ (n : Nat) (a b : List Byte), n ≤ a.length → n ≤ b.length →
    ∃ r, cmpFrom n a b = some r ∧ Orders r (a.take n) (b.take n)
  | 0, _, _, _, _ => ⟨0, rfl, .nil⟩
  | n + 1, x :: a, y :: b, ha, hb => by
    simp only [cmpFrom, List.take_succ_cons]
    by_cases hxy : x = y
    · obtain ⟨r, hr, horders⟩ :=
        cmpFrom_orders n a b (Nat.le_of_succ_le_succ ha) (Nat.le_of_succ_le_succ hb)
      rw [if_neg (not_not.mpr hxy), hr, hxy]
      exact ⟨r, rfl, horders.cons y⟩
    · exact ⟨_, if_pos hxy, .head hxy _ _⟩
  | _ + 1, [], _, ha, _ => absurd ha (by simp)
  | _ + 1, _ :: _, [], _, hb => absurd hb (by simp)

theorem Orders.sign_eq {r r' : Int} {a b : List Byte} (h : Orders r a b) (h' : Orders r' a b) :
    r.sign = r'.sign := by
  obtain hlt | heq | hgt := Int.lt_trichotomy r 0
  · rw [Int.sign_eq_neg_one_of_neg hlt, Int.sign_eq_neg_one_of_neg (h'.lt.mpr (h.lt.mp hlt))]
  · rw [heq, h'.eq.mpr (h.eq.mp heq)]
  · rw [Int.sign_eq_one_of_pos hgt, Int.sign_eq_one_of_pos (h'.gt.mpr (h.gt.mp hgt))]

variable {m : Mem} {dst src : Word} {n : Nat} {f : Nat → Byte} {r r' : Word × Mem}

theorem Writes.unique (hv : Valid dst n) (h : Writes m dst n f r) (h' : Writes m dst n f r') :
    r = r' := by
  refine Prod.ext (h.returned.trans h'.returned.symm) (funext fun x => ?_)
  by_cases hx : Block.Contains ⟨dst, n⟩ x
  · have hlt := (sub_lt_iff hv.2).mpr hx
    have hoff : off dst (x - dst).toNat = x := by
      simp only [off, BitVec.ofNat_toNat, BitVec.setWidth_eq]
      rw [BitVec.add_comm, BitVec.sub_add_cancel]
    rw [← hoff, h.written _ hlt, h'.written _ hlt]
  · rw [h.kept x hx, h'.kept x hx]

theorem writes_fillWith (hv : Valid dst n) : Writes m dst n f (dst, fillWith m dst n f) := by
  refine ⟨rfl, fun i hi => ?_, fun x hx => if_neg (mt (sub_lt_iff hv.2).mp hx)⟩
  have hsub : (off dst i - dst).toNat = i := by
    rw [off, BitVec.add_comm, BitVec.add_sub_cancel, BitVec.toNat_ofNat]
    have := hv.2
    exact Nat.mod_eq_of_lt (by omega)
  simp only [fillWith, hsub, if_pos hi]

theorem writes_none : Writes m dst 0 f (dst, m) := ⟨rfl, nofun, fun _ _ => rfl⟩

theorem writes_memset (c : BitVec 32) (hv : Valid dst n) :
    Writes m dst n (fun _ => c.setWidth 8) (Ucrt.memset m dst c n) := by
  unfold Ucrt.memset
  split
  · next h => exact h.resolve_left hv.1 ▸ writes_none
  · exact writes_fillWith hv

theorem writes_memmove (hv : Valid dst n) (hs : Valid src n) :
    Writes m dst n (fun i => m (off src i)) (Ucrt.memmove m dst src n) := by
  unfold Ucrt.memmove
  split
  · next h => exact (h.resolve_left hv.1).resolve_left hs.1 ▸ writes_none
  · exact writes_fillWith hv

theorem Libc.agrees (host : Libc) : host.Agrees where
  strlen s m := by
    refine ⟨rfl, Eq.trans ?_ (host.strlen_held s m).symm⟩
    exact (lengthFrom_eq s.clean 0).trans (congrArg some (Nat.zero_add _))
  strncmp := rfl
  memcmp a b n ha hb := by
    obtain ⟨r, hr, horders⟩ := cmpFrom_orders n a b ha hb
    obtain ⟨r', hr', horders'⟩ := host.memcmp_orders a b n ha hb
    exact ⟨r, r', hr, hr, hr', horders.sign_eq horders'⟩
  memchr l c n := by
    unfold Ucrt.memchr
    split
    · next h =>
      obtain rfl := h.resolve_left (by simp)
      obtain ⟨r, hr, hfirst⟩ := host.memchr_first l c 0 (Nat.zero_le _)
      cases r with
      | none => exact hr.symm
      | some i => exact absurd hfirst.1.1 (Nat.not_lt_zero i)
    · rfl
  strchr s c m := by
    obtain ⟨r, hr, hfirst⟩ := chrFrom_first s.clean (c.setWidth 8) (m := m) 0
    obtain ⟨r', hr', hfirst'⟩ := host.strchr_held s c m
    refine Eq.trans ?_ hr'.symm
    rw [← hfirst.unique hfirst']
    simpa [Crt.strchr, Text.held] using hr
  strstr s t m m' := by
    obtain ⟨r, hr, hfirst⟩ := @find_first _ _ _ _ _ m m' s.clean t.clean
    obtain ⟨r', hr', hfirst'⟩ := host.strstr_held s t m m'
    rw [hfirst.unique hfirst'] at hr
    exact hr.trans hr'.symm
  memset m dst c n hv := (writes_memset c hv).unique hv (host.memset_writes m dst c n hv)
  memcpy m dst src n hv hs hapart :=
    (writes_memmove hv hs).unique hv (host.memcpy_writes m dst src n hv hs hapart)
  memmove m dst src n hv hs :=
    (writes_memmove hv hs).unique hv (host.memmove_writes m dst src n hv hs)

/-! ## Blocks from one run-time to another -/

variable {s : State} {q : Request}

theorem Request.apply_eq (h : Reached s) (he : ¬ q.Empties) (l l' : Runtime) :
    q.apply s l = q.apply s l' := by
  have hsame : q.apply s .msvcrt = q.apply s .ucrtbase := by
    cases q with
    | realloc ptr size answer freed =>
      simp only [Request.apply, Msvcrt.realloc, Ucrt.realloc]
      by_cases hptr : ptr = 0
      · rw [hptr, if_pos rfl]
        simp only [Call.apply, Heap.heapReAlloc, if_true, Option.map_some, h.inv.besides_zero]
      · rw [if_neg hptr, if_neg fun hsize => he ⟨hptr, hsize⟩]
    | malloc | calloc | free | heap => rfl
  cases l <;> cases l' <;> first | rfl | exact hsame | exact hsame.symm

theorem Request.step (h : Reached s) (hq : q.Allowed s) (he : ¬ q.Empties) (l : Runtime) :
    ∃ r s', q.apply s l = some (r, s') ∧ Reached s' ∧ q.Documented s r s' := by
  rw [Request.apply_eq h he l .ucrtbase]
  cases q with
  | malloc size answer => exact h.call (c := .heapAlloc 0 size answer) hq
  | calloc count size answer =>
    simp only [Request.apply, Ucrt.calloc, Request.Documented]
    split
    · exact h.call (c := .heapAlloc heapZeroMemory (count * size) answer) hq
    · exact ⟨0, s, rfl, h, rfl, rfl, rfl⟩
  | realloc ptr size answer freed => exact h.call hq.1
  | free ptr freed =>
    obtain ⟨r, s', happly, hreached, hdone⟩ := h.call (c := .heapFree ptr freed) hq
    obtain rfl : r = 1 := hdone.1
    exact ⟨0, s', by simp only [Request.apply, Ucrt.free, happly, Option.map_some], hreached, hdone⟩
  | heap c => exact h.call hq

theorem Request.apply_ne (h : Reached s) (hq : q.Allowed s) (he : q.Empties) :
    q.apply s .msvcrt ≠ q.apply s .ucrtbase := by
  cases q with
  | realloc ptr size answer freed =>
    obtain ⟨hptr, rfl⟩ := he
    obtain ⟨old, hold, haddr⟩ := (hq.2.resolve_left hptr).1
    obtain ⟨r, s₁, hfree, -, -, hfreed⟩ := h.call hq.2
    obtain ⟨r', s₂, hrealloc, hreached, hdone⟩ := h.call hq.1
    rw [if_neg hptr] at hfreed
    simp only [Call.Documented, if_neg hptr] at hdone
    simp only [Request.apply, Msvcrt.realloc, Ucrt.realloc, if_neg hptr, if_true, hfree, hrealloc,
      Option.map_some, ne_eq, Option.some.injEq, Prod.mk.injEq, not_and]
    rintro rfl rfl
    obtain hfailed | ⟨q, ⟨hzero, -⟩, hplaced, -⟩ := hdone old hold haddr
    · rw [← hfailed.live, hfreed.1] at hold
      exact absurd haddr (of_decide_eq_true (List.mem_filter.mp hold).2)
    · have hq : q ∈ s₁.live := hplaced.live ▸ List.mem_cons_self
      exact addr_ne (hreached.inv.fits q hq) hzero
  | malloc | calloc | free | heap => exact he.elim

theorem run_clean (h : Reached s) {p p' : List (Request × Runtime)}
    (hp : p.map Prod.fst = p'.map Prod.fst) (hc : Clean s p) :
    ∃ rs s', run s p = some (rs, s') ∧ run s p' = some (rs, s') ∧ Reached s' := by
  induction p generalizing s p' with
  | nil =>
    obtain rfl := List.map_eq_nil_iff.mp hp.symm
    exact ⟨[], s, rfl, rfl, h⟩
  | cons x p ih =>
    obtain ⟨⟨q', l'⟩, p', rfl, hq', hp'⟩ := List.map_eq_cons_iff.mp hp.symm
    obtain ⟨q, l⟩ := x
    obtain rfl : q' = q := hq'
    obtain ⟨hq, he, hrest⟩ := hc
    obtain ⟨r, s', happly, hreached, -⟩ := Request.step h hq he l
    obtain ⟨rs, s'', hrun, hrun', hreached'⟩ := ih hreached hp'.symm (hrest r s' happly)
    have happly' := (Request.apply_eq h he l' l).trans happly
    refine ⟨r :: rs, s'', ?_, ?_, hreached'⟩
    · simp [run, happly, hrun]
    · simp [run, happly', hrun']

/-- **The run-times agree**: the functions of strings and memory, everywhere; the allocators, on
    exactly the requests that do not empty a block; and in runs of such requests blocks may go from
    one run-time to the other, none is lost, and each further request does what C says. -/
theorem crt_agreement (host : Libc) (h : Reached s) : host.Agrees ∧
    (∀ q : Request, q.Allowed s → (q.apply s .msvcrt = q.apply s .ucrtbase ↔ ¬ q.Empties)) ∧
    ∀ p p' : List (Request × Runtime), p.map Prod.fst = p'.map Prod.fst → Clean s p →
      ∃ rs s', run s p = some (rs, s') ∧ run s p' = some (rs, s') ∧ Sound s' ∧
        s'.process.heap.blocks = s'.live.map Payload.block ∧
        ∀ (q : Request) l, q.Allowed s' → ¬ q.Empties →
          ∃ r s'', q.apply s' l = some (r, s'') ∧ q.Documented s' r s'' := by
  refine ⟨host.agrees, fun q hq => ⟨fun heq he => Request.apply_ne h hq he heq,
    fun he => Request.apply_eq h he _ _⟩, fun p p' hp hc => ?_⟩
  obtain ⟨rs, s', hrun, hrun', hreached⟩ := run_clean h hp hc
  refine ⟨rs, s', hrun, hrun', hreached.inv.sound, hreached.inv.blocks, fun q l hq he => ?_⟩
  obtain ⟨r, s'', happly, -, hdone⟩ := Request.step hreached hq he l
  exact ⟨r, s'', happly, hdone⟩

theorem strchr_first (s : Text Byte) (c : BitVec 32) (m : List Byte) : ∃ r,
    Crt.strchr (s.held m) c = some r ∧
      First (fun i => (s.units ++ [0])[i]? = some (c.setWidth 8)) r := by
  simpa [Crt.strchr, Text.held] using chrFrom_first s.clean (c.setWidth 8) (m := m) 0

theorem scanUp_byte (l : List Byte) (c : BitVec 32) (n : Nat) (hn : n ≤ l.length) : ∃ r,
    scanUp (fun i => l[i]?.map (· = c.setWidth 8)) 0 n = some r ∧
      First (fun i => i < n ∧ l[i]? = some (c.setWidth 8)) r := by
  have hat : ∀ i, 0 ≤ i → i < 0 + n → ∃ b,
      (l[i]?.map fun x => decide (x = c.setWidth 8)) = some b ∧
        (b = true ↔ l[i]? = some (c.setWidth 8)) := by
    intro i _ hi
    have hlt : i < l.length := by omega
    exact ⟨l[i] = c.setWidth 8, by simp [hlt], by simp [hlt]⟩
  obtain ⟨r, hr, hfirst⟩ := scanUp_first hat
  exact ⟨r, hr, hfirst.congr fun i => by simp⟩

/-- A C library that is what C says. -/
def standard : Libc where
  strlen := Ucrt.strlen
  strlen_held s _ := (lengthFrom_eq s.clean 0).trans (congrArg some (Nat.zero_add _))
  strchr := Crt.strchr
  strchr_held := strchr_first
  strstr := Crt.strstr
  strstr_held s t _ _ := find_first s.clean t.clean
  memchr p c n := p.bind fun l => scanUp (fun i => l[i]?.map (· = c.setWidth 8)) 0 n
  memchr_first := scanUp_byte
  memcmp := Ucrt.memcmp
  memcmp_orders a b n ha hb := cmpFrom_orders n a b ha hb
  memset m dst c n := (dst, fillWith m dst n fun _ => c.setWidth 8)
  memset_writes _ _ _ _ hv := writes_fillWith hv
  memcpy m dst src n := (dst, fillWith m dst n fun i => m (off src i))
  memcpy_writes _ _ _ _ hv _ _ := writes_fillWith hv
  memmove m dst src n := (dst, fillWith m dst n fun i => m (off src i))
  memmove_writes _ _ _ _ hv _ := writes_fillWith hv

/-- What is left when that block has grown. -/
def grown : State := (growing.apply twoBlocks).elim twoBlocks Prod.snd

/-- The block at 16 is moved to 96, and the one at 48 freed, each by a run-time of its own. -/
def growAndFree (first second : Runtime) : List (Request × Runtime) :=
  [(.realloc 24 32 (some (96, movedMem)) twoBlocks.mem, first), (.free 56 grown.mem, second)]

theorem growAndFree_clean (first second : Runtime) :
    Clean twoBlocks (growAndFree first second) := by
  have hlive : ∃ q ∈ twoBlocks.live, q.addr = 24 := by decide
  refine ⟨⟨growing_allowed, .inr ⟨hlive, fun _ _ _ _ => rfl⟩⟩, fun he => absurd he.2 (by decide), ?_⟩
  intro r s' h
  have happly : ∀ l, Request.apply twoBlocks (.realloc 24 32 (some (96, movedMem)) twoBlocks.mem) l =
      some (104, grown) := fun l => by cases l <;> rfl
  obtain rfl := congrArg Prod.snd (Option.some.inj ((happly first).symm.trans h))
  have hlive : ∃ q ∈ grown.live, q.addr = 56 := by decide
  exact ⟨.inr ⟨hlive, fun _ _ _ _ => rfl⟩, id, fun _ _ _ => trivial⟩

/-- Which run-time serves which request makes no difference. -/
theorem crt_agreement_grown : standard.Agrees ∧ ∃ rs s',
    run twoBlocks (growAndFree .msvcrt .ucrtbase) = some (rs, s') ∧
    run twoBlocks (growAndFree .ucrtbase .msvcrt) = some (rs, s') ∧ Sound s' := by
  obtain ⟨hagrees, -, hruns⟩ := crt_agreement standard twoBlocks_reached
  obtain ⟨rs, s', hrun, hrun', hsound, -⟩ := hruns (growAndFree .msvcrt .ucrtbase)
    (growAndFree .ucrtbase .msvcrt) rfl (growAndFree_clean _ _)
  exact ⟨hagrees, rs, s', hrun, hrun', hsound⟩

/-- Emptied, it stays where it is. -/
def emptied : Request := .realloc 24 0 (some (16, oneBlock.mem)) oneBlock.mem

/-- `realloc` of it to 0 bytes gives NULL in msvcrt, and the block is free; in ucrtbase it gives the
    block. -/
theorem crt_agreement_emptied : Reached oneBlock ∧ emptied.Allowed oneBlock ∧
    (∃ s, emptied.apply oneBlock .msvcrt = some (0, s) ∧ s.live = []) ∧
    ∃ s, emptied.apply oneBlock .ucrtbase = some (24, s) ∧ s.live = [⟨16, 0⟩] := by
  have hothers : oneBlock.process.heap.others (baseOf 24) = [] := by decide
  have hlive : ∃ q ∈ oneBlock.live, q.addr = 24 := by decide
  refine ⟨.step (.start ⟨rfl, rfl⟩) atSixteen_allowed rfl, ⟨⟨hlive, ?_⟩, .inr ⟨hlive, ?_⟩⟩,
    ⟨_, rfl, rfl⟩, ⟨_, rfl, rfl⟩⟩
  · intro base m h
    cases h
    rw [hothers]
    refine ⟨⟨⟨by decide, by decide, by decide⟩, nofun, nofun⟩, fun b hb _ i _ _ => ?_⟩
    rw [show baseOf 24 = 16 by decide]
    rfl
  · rw [Malloc.Heap.Frees, hothers]
    exact nofun

end WinCompat.Crt
