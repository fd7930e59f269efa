import Mathlib.Data.BitVec

/-!
# Pages, and the system calls that map them

An address space says what is mapped at each page number. `mmap`, `munmap` and `mprotect` act on a
range of page numbers; a byte is found through its page. Contents and protection sit together in
`Page`, so "this page keeps its mapping, its contents and its protection" is one equation.

`mprotect` works page by page and stops at the first hole: the pages before the hole have been
changed although the call fails.
-/

namespace WinCompat.Lib.Paging

abbrev Byte := BitVec 8

/-- The `PROT_` bits. -/
structure Prot where
  read : Bool
  write : Bool
  exec : Bool
  deriving DecidableEq

namespace Prot

/-- `PROT_NONE`. -/
def noAccess : Prot := ⟨false, false, false⟩

/-- `PROT_READ | PROT_WRITE`. -/
def readWrite : Prot := ⟨true, true, false⟩

/-- `PROT_READ | PROT_EXEC`. -/
def readExec : Prot := ⟨true, false, true⟩

end Prot

structure Page where
  prot : Prot
  /-- By offset in the page. -/
  content : Nat → Byte

/-- What is mapped, by page number. -/
abbrev Space := Nat → Option Page

/-- The page size of x86-64. -/
def pageSize : Nat := 4096

/-- The end of the user half of the address space. -/
def taskSize : Nat := 2 ^ 47 - pageSize

/-- `(n + page - 1) & !(page - 1)`, for a power of two. -/
def roundUp (n page : Nat) : Nat := (n + page - 1) / page * page

/-- `n & !(page - 1)`, for a power of two. -/
def roundDown (n page : Nat) : Nat := n / page * page

/-- Page `i` is one of the `count` pages from `first` on. -/
def InRange (first count i : Nat) : Prop := first ≤ i ∧ i < first + count

instance (first count i : Nat) : Decidable (InRange first count i) :=
  inferInstanceAs (Decidable (_ ∧ _))

def Mapped (s : Space) (first count : Nat) : Prop :=
  ∀ i, InRange first count i → (s i).isSome

def Unmapped (s : Space) (first count : Nat) : Prop :=
  ∀ i, InRange first count i → s i = none

instance (s : Space) (first count : Nat) : Decidable (Unmapped s first count) :=
  decidable_of_iff (∀ k < count, s (first + k) = none) (by
    constructor
    · intro h i hi
      have hk := h (i - first) (by unfold InRange at hi; omega)
      rwa [Nat.add_sub_cancel' hi.1] at hk
    · intro h k hk
      exact h _ ⟨Nat.le_add_right _ _, by omega⟩)

instance (s : Space) (first count : Nat) : Decidable (Mapped s first count) :=
  decidable_of_iff (∀ k < count, (s (first + k)).isSome) (by
    constructor
    · intro h i hi
      have hk := h (i - first) (by unfold InRange at hi; omega)
      rwa [Nat.add_sub_cancel' hi.1] at hk
    · intro h k hk
      exact h _ ⟨Nat.le_add_right _ _, by omega⟩)

/-! ## The calls -/

/-- An anonymous mapping: zero-filled pages, in the place of whatever was there. -/
def mapZero (s : Space) (first count : Nat) (p : Prot) : Space := fun i =>
  if InRange first count i then some ⟨p, fun _ => 0⟩ else s i

def unmap (s : Space) (first count : Nat) : Space := fun i =>
  if InRange first count i then none else s i

/-- The pages of the range with their protection changed. -/
def protect (s : Space) (first count : Nat) (p : Prot) : Space := fun i =>
  if InRange first count i then (s i).map fun pg => { pg with prot := p } else s i

/-- `mprotect`: whether it succeeds, and what it leaves. -/
def mprotect (s : Space) (first : Nat) : Nat → Prot → Bool × Space
  | 0, _ => (true, s)
  | count + 1, p =>
    match s first with
    | none => (false, s)
    | some pg => mprotect (Function.update s first (some { pg with prot := p })) (first + 1) count p

/-! ## Bytes -/

def getByte (s : Space) (a : Nat) : Option Byte :=
  (s (a / pageSize)).map fun pg => pg.content (a % pageSize)

def setByte (s : Space) (a : Nat) (b : Byte) : Space :=
  Function.update s (a / pageSize)
    ((s (a / pageSize)).map fun pg =>
      { pg with content := Function.update pg.content (a % pageSize) b })

def loadBytes (s : Space) (a n : Nat) : List Byte :=
  (List.range n).map fun i => (getByte s (a + i)).getD 0

def storeBytes (s : Space) (a : Nat) : List Byte → Space
  | [] => s
  | b :: bs => storeBytes (setByte s a b) (a + 1) bs

/-! ## What the calls leave -/

variable {s : Space} {first count i : Nat} {p : Prot}

theorem inRange_succ : InRange first (count + 1) i ↔ i = first ∨ InRange (first + 1) count i := by
  unfold InRange
  omega

theorem mapped_succ :
    Mapped s first (count + 1) ↔ (s first).isSome ∧ Mapped s (first + 1) count := by
  constructor
  · intro h
    exact ⟨h first (inRange_succ.mpr (.inl rfl)), fun i hi => h i (inRange_succ.mpr (.inr hi))⟩
  · intro h i hi
    rcases inRange_succ.mp hi with rfl | hi
    · exact h.1
    · exact h.2 i hi

theorem mapZero_of_inRange (h : InRange first count i) :
    mapZero s first count p i = some ⟨p, fun _ => 0⟩ := if_pos h

theorem mapZero_of_not_inRange (h : ¬ InRange first count i) :
    mapZero s first count p i = s i := if_neg h

theorem unmap_of_inRange (h : InRange first count i) : unmap s first count i = none := if_pos h

theorem unmap_of_not_inRange (h : ¬ InRange first count i) : unmap s first count i = s i := if_neg h

theorem protect_of_inRange (h : InRange first count i) :
    protect s first count p i = (s i).map fun pg => { pg with prot := p } := if_pos h

theorem protect_of_not_inRange (h : ¬ InRange first count i) :
    protect s first count p i = s i := if_neg h

theorem protect_isSome (i : Nat) : (protect s first count p i).isSome = (s i).isSome := by
  by_cases hi : InRange first count i
  · rw [protect_of_inRange hi, Option.isSome_map]
  · rw [protect_of_not_inRange hi]

theorem mapped_mapZero (s : Space) (first count : Nat) (p : Prot) :
    Mapped (mapZero s first count p) first count := by
  intro i hi
  rw [mapZero_of_inRange hi]
  rfl

theorem protect_mapZero (s : Space) (first count : Nat) (p q : Prot) :
    protect (mapZero s first count p) first count q = mapZero s first count q := by
  funext i
  by_cases hi : InRange first count i
  · rw [protect_of_inRange hi, mapZero_of_inRange hi, mapZero_of_inRange hi]
    rfl
  · rw [protect_of_not_inRange hi, mapZero_of_not_inRange hi, mapZero_of_not_inRange hi]

theorem mprotect_of_mapped :
    ∀ {s : Space}, Mapped s first count →
      mprotect s first count p = (true, protect s first count p) := by
  induction count generalizing first with
  | zero =>
    intro s _
    unfold mprotect
    refine congrArg (Prod.mk true) (funext fun i => ?_)
    exact (protect_of_not_inRange fun h => by unfold InRange at h; omega).symm
  | succ count ih =>
    intro s hs
    obtain ⟨hfirst, hrest⟩ := mapped_succ.mp hs
    obtain ⟨pg, hpg⟩ := Option.isSome_iff_exists.mp hfirst
    have hkeep : Mapped (Function.update s first (some { pg with prot := p })) (first + 1) count := by
      intro i hi
      rw [Function.update_of_ne (by unfold InRange at hi; omega)]
      exact hrest i hi
    unfold mprotect
    rw [hpg]
    simp only
    rw [ih hkeep]
    refine congrArg (Prod.mk true) (funext fun i => ?_)
    by_cases hi : i = first
    · subst hi
      rw [protect_of_not_inRange fun h => by unfold InRange at h; omega, Function.update_self,
        protect_of_inRange (inRange_succ.mpr (.inl rfl)), hpg]
      rfl
    · by_cases hin : InRange (first + 1) count i
      · rw [protect_of_inRange hin, protect_of_inRange (inRange_succ.mpr (.inr hin)),
          Function.update_of_ne hi]
      · have hout : ¬ InRange first (count + 1) i := fun h =>
          (inRange_succ.mp h).elim hi hin
        rw [protect_of_not_inRange hin, protect_of_not_inRange hout, Function.update_of_ne hi]

theorem mprotect_content (i : Nat) :
    ∀ s : Space, ((mprotect s first count p).2 i).map Page.content = (s i).map Page.content := by
  induction count generalizing first with
  | zero =>
    intro s
    rfl
  | succ count ih =>
    intro s
    unfold mprotect
    cases hs : s first with
    | none => rfl
    | some pg =>
      refine (ih _).trans ?_
      by_cases hi : i = first
      · rw [hi, Function.update_self, hs]
        rfl
      · rw [Function.update_of_ne hi]

theorem mprotect_isSome (i : Nat) : ((mprotect s first count p).2 i).isSome = (s i).isSome := by
  have h := congrArg Option.isSome (@mprotect_content first count p i s)
  simpa only [Option.isSome_map] using h

theorem mprotect_fst :
    ∀ {s : Space}, (mprotect s first count p).1 = true ↔ Mapped s first count := by
  induction count generalizing first with
  | zero =>
    intro s
    exact ⟨fun _ i hi => absurd hi (by unfold InRange; omega), fun _ => rfl⟩
  | succ count ih =>
    intro s
    rw [mapped_succ]
    unfold mprotect
    cases hs : s first with
    | none => simp
    | some pg =>
      simp only [Option.isSome_some, true_and]
      rw [ih]
      refine forall_congr' fun i => imp_congr_right fun hi => ?_
      rw [Function.update_of_ne (by unfold InRange at hi; omega)]

variable {b : Byte} {a : Nat}

theorem setByte_isSome (i : Nat) : (setByte s a b i).isSome = (s i).isSome := by
  unfold setByte
  by_cases hi : i = a / pageSize
  · rw [hi, Function.update_self, Option.isSome_map]
  · rw [Function.update_of_ne hi]

theorem storeBytes_isSome (i : Nat) : ∀ (bs : List Byte) (s : Space) (a : Nat),
    (storeBytes s a bs i).isSome = (s i).isSome := by
  intro bs
  induction bs with
  | nil =>
    intro s a
    rfl
  | cons b bs ih =>
    intro s a
    exact (ih _ _).trans (setByte_isSome i)

/-! ## What the calls and the stores leave of the bytes -/

theorem setByte_prot (i : Nat) : (setByte s a b i).map Page.prot = (s i).map Page.prot := by
  unfold setByte
  by_cases hi : i = a / pageSize
  · rw [hi, Function.update_self, Option.map_map]
    rfl
  · rw [Function.update_of_ne hi]

theorem storeBytes_prot (i : Nat) : ∀ (bs : List Byte) (s : Space) (a : Nat),
    (storeBytes s a bs i).map Page.prot = (s i).map Page.prot := by
  intro bs
  induction bs with
  | nil =>
    intro s a
    rfl
  | cons b bs ih =>
    intro s a
    exact (ih _ _).trans (setByte_prot i)

theorem getByte_setByte_self (h : (s (a / pageSize)).isSome) :
    getByte (setByte s a b) a = some b := by
  obtain ⟨pg, hpg⟩ := Option.isSome_iff_exists.mp h
  simp [getByte, setByte, hpg]

theorem getByte_setByte_ne {a x : Nat} (h : x ≠ a) : getByte (setByte s a b) x = getByte s x := by
  unfold getByte setByte
  by_cases hp : x / pageSize = a / pageSize
  · have hoff : x % pageSize ≠ a % pageSize := by
      intro ho
      apply h
      rw [← Nat.div_add_mod x pageSize, hp, ho, Nat.div_add_mod]
    rw [hp, Function.update_self, Option.map_map]
    congr 1
    funext pg
    exact Function.update_of_ne hoff _ _
  · rw [Function.update_of_ne hp]

theorem storeBytes_of_not_mem : ∀ {bs : List Byte} {s : Space} {a : Nat},
    (∀ x, a ≤ x → x < a + bs.length → x / pageSize ≠ i) → storeBytes s a bs i = s i := by
  intro bs
  induction bs with
  | nil =>
    intro s a _
    rfl
  | cons b bs ih =>
    intro s a h
    rw [List.length_cons] at h
    have hfirst : i ≠ a / pageSize := Ne.symm (h a (Nat.le_refl a) (by omega))
    have hrest : storeBytes (setByte s a b) (a + 1) bs i = setByte s a b i :=
      ih fun x hlow hhigh => h x (by omega) (by omega)
    exact hrest.trans (Function.update_of_ne hfirst _ _)

theorem getByte_storeBytes_of_not_mem {x : Nat} : ∀ {bs : List Byte} {s : Space} {a : Nat},
    (a ≤ x → a + bs.length ≤ x) → getByte (storeBytes s a bs) x = getByte s x := by
  intro bs
  induction bs with
  | nil =>
    intro s a _
    rfl
  | cons b bs ih =>
    intro s a h
    rw [List.length_cons] at h
    have hne : x ≠ a := by
      intro hx
      have := h (Nat.le_of_eq hx.symm)
      omega
    exact (ih fun ha => by omega).trans (getByte_setByte_ne hne)

theorem getByte_protect (x : Nat) : getByte (protect s first count p) x = getByte s x := by
  unfold getByte
  by_cases hi : InRange first count (x / pageSize)
  · rw [protect_of_inRange hi, Option.map_map]
    rfl
  · rw [protect_of_not_inRange hi]

theorem getByte_mprotect (x : Nat) : getByte (mprotect s first count p).2 x = getByte s x := by
  have h := congrArg (Option.map fun content => content (x % pageSize))
    (@mprotect_content first count p (x / pageSize) s)
  rwa [Option.map_map, Option.map_map] at h

/-- The bytes from `a` on are these. -/
def Holds (s : Space) (a : Nat) : List Byte → Prop
  | [] => True
  | b :: bs => getByte s a = some b ∧ Holds s (a + 1) bs

theorem Holds.congr {s s' : Space} : ∀ {bs : List Byte} {a : Nat}, Holds s a bs →
    (∀ x, a ≤ x → x < a + bs.length → getByte s' x = getByte s x) → Holds s' a bs := by
  intro bs
  induction bs with
  | nil =>
    intro a _ _
    trivial
  | cons b bs ih =>
    intro a h heq
    rw [List.length_cons] at heq
    constructor
    · rw [heq a (Nat.le_refl a) (by omega)]
      exact h.1
    · exact ih h.2 fun x hx hlt => heq x (by omega) (by omega)

theorem setByte_of_getByte (h : getByte s a = some b) : setByte s a b = s := by
  obtain ⟨pg, hpg, hb⟩ := Option.map_eq_some_iff.mp h
  have hsame : Function.update pg.content (a % pageSize) b = pg.content := by
    rw [← hb, Function.update_eq_self]
  unfold setByte
  rw [hpg, Option.map_some, hsame, ← hpg, Function.update_eq_self]

/-- Storing what is there already changes nothing. -/
theorem storeBytes_of_holds : ∀ {bs : List Byte} {a : Nat}, Holds s a bs →
    storeBytes s a bs = s := by
  intro bs
  induction bs with
  | nil =>
    intro a _
    rfl
  | cons b bs ih =>
    intro a h
    unfold storeBytes
    rw [setByte_of_getByte h.1]
    exact ih h.2

theorem holds_storeBytes : ∀ {bs : List Byte} {s : Space} {a : Nat},
    (∀ x, a ≤ x → x < a + bs.length → (s (x / pageSize)).isSome) →
      Holds (storeBytes s a bs) a bs := by
  intro bs
  induction bs with
  | nil =>
    intro s a _
    trivial
  | cons b bs ih =>
    intro s a h
    rw [List.length_cons] at h
    constructor
    · have hkeep : getByte (storeBytes (setByte s a b) (a + 1) bs) a = getByte (setByte s a b) a :=
        getByte_storeBytes_of_not_mem fun ha => by omega
      exact hkeep.trans (getByte_setByte_self (h a (Nat.le_refl a) (by omega)))
    · apply ih
      intro x hx hlt
      rw [setByte_isSome]
      exact h x (by omega) (by omega)

/-! ## Protection by page -/

def protAt (s : Space) (i : Nat) : Option Prot := (s i).map Page.prot

theorem protAt_storeBytes (s : Space) (a : Nat) (bs : List Byte) (i : Nat) :
    protAt (storeBytes s a bs) i = protAt s i :=
  storeBytes_prot i bs s a

theorem protAt_protect_of_inRange (h : InRange first count i) (hmapped : (s i).isSome) :
    protAt (protect s first count p) i = some p := by
  obtain ⟨pg, hpg⟩ := Option.isSome_iff_exists.mp hmapped
  unfold protAt
  rw [protect_of_inRange h, hpg]
  rfl

theorem protAt_protect_of_not_inRange (h : ¬ InRange first count i) :
    protAt (protect s first count p) i = protAt s i :=
  congrArg (Option.map Page.prot) (protect_of_not_inRange h)

theorem mprotect_of_not_inRange (h : ¬ InRange first count i) :
    ∀ s : Space, (mprotect s first count p).2 i = s i := by
  induction count generalizing first with
  | zero =>
    intro s
    rfl
  | succ count ih =>
    intro s
    have hout : i ≠ first ∧ ¬ InRange (first + 1) count i := not_or.mp (mt inRange_succ.mpr h)
    unfold mprotect
    cases hs : s first with
    | none => rfl
    | some pg => exact (ih hout.2 _).trans (Function.update_of_ne hout.1 _ _)

theorem protAt_mprotect_of_not_inRange (h : ¬ InRange first count i) (s : Space) :
    protAt (mprotect s first count p).2 i = protAt s i :=
  congrArg (Option.map Page.prot) (mprotect_of_not_inRange h s)

theorem protAt_mprotect_of_mapped (h : InRange first count i) :
    ∀ {s : Space}, (∀ j, first ≤ j → j ≤ i → (s j).isSome) →
      protAt (mprotect s first count p).2 i = some p := by
  induction count generalizing first with
  | zero =>
    intro s _
    unfold InRange at h
    omega
  | succ count ih =>
    intro s hmapped
    have hlow := h.1
    obtain ⟨pg, hpg⟩ := Option.isSome_iff_exists.mp (hmapped first (Nat.le_refl _) hlow)
    unfold mprotect
    rw [hpg]
    by_cases hi : i = first
    · have hout : ¬ InRange (first + 1) count i := by
        unfold InRange
        omega
      refine (protAt_mprotect_of_not_inRange hout _).trans ?_
      unfold protAt
      rw [hi, Function.update_self]
      rfl
    · apply ih ((inRange_succ.mp h).resolve_left hi)
      intro j hj hji
      rw [Function.update_of_ne (by omega)]
      exact hmapped j (by omega) hji

/-- The pages of the range, as far as they go without a hole, have the protection already. -/
def Unaffected (s : Space) (first count : Nat) (prot : Prot) : Prop :=
  ∀ i, InRange first count i → Mapped s first (i + 1 - first) → protAt s i = some prot

theorem mprotect_snd_eq_iff {prot : Prot} : ∀ {s : Space},
    (mprotect s first count prot).2 = s ↔ Unaffected s first count prot := by
  induction count generalizing first with
  | zero =>
    intro s
    refine iff_of_true rfl fun i hi => ?_
    unfold InRange at hi
    omega
  | succ count ih =>
    intro s
    unfold mprotect
    cases hs : s first with
    | none =>
      refine iff_of_true rfl fun i hi hmapped => ?_
      have hfirst := hmapped first ⟨Nat.le_refl _, by unfold InRange at hi; omega⟩
      rw [hs] at hfirst
      cases hfirst
    | some pg =>
      dsimp only
      by_cases hprot : pg.prot = prot
      · have hsame : Function.update s first (some { pg with prot := prot }) = s := by
          rw [← hprot, ← hs]
          exact Function.update_eq_self first s
        rw [hsame, ih]
        constructor
        · intro hrest i hi hmapped
          rcases inRange_succ.mp hi with rfl | hi
          · rw [protAt, hs, Option.map_some, hprot]
          · refine hrest i hi fun j hj => hmapped j ?_
            unfold InRange at *
            omega
        · intro hall i hi hmapped
          refine hall i (inRange_succ.mpr (.inr hi)) fun j hj => ?_
          by_cases hjf : j = first
          · rw [hjf, hs]
            rfl
          · apply hmapped
            unfold InRange at *
            omega
      · refine iff_of_false ?_ ?_
        · intro hsame
          have hout : ¬ InRange (first + 1) count first := by
            unfold InRange
            omega
          have hkeep := protAt_mprotect_of_not_inRange (p := prot) hout
            (Function.update s first (some { pg with prot := prot }))
          rw [hsame, protAt, protAt, hs, Function.update_self] at hkeep
          exact hprot (Option.some.inj hkeep)
        · intro hall
          have hfirst := hall first (inRange_succ.mpr (.inl rfl)) fun j hj => by
            have hj' : j = first := by
              unfold InRange at hj
              omega
            rw [hj', hs]
            rfl
          rw [protAt, hs] at hfirst
          exact hprot (Option.some.inj hfirst)

/-! ## The pages of a span of bytes -/

/-- Page `i` holds one of the `n` bytes at `a`. -/
def Touches (a n i : Nat) : Prop := a / pageSize ≤ i ∧ i * pageSize < a + n

instance (a n i : Nat) : Decidable (Touches a n i) := inferInstanceAs (Decidable (_ ∧ _))

theorem Touches.mono {a n a' n' i : Nat} (h : Touches a n i) (hle : a' ≤ a)
    (hend : a + n ≤ a' + n') : Touches a' n' i :=
  ⟨(Nat.div_le_div_right hle).trans h.1, h.2.trans_le hend⟩

theorem inRange_span {a n i : Nat} :
    InRange (roundDown a pageSize / pageSize)
      ((roundUp (a + n) pageSize - roundDown a pageSize) / pageSize) i ↔ Touches a n i := by
  unfold InRange roundDown roundUp Touches pageSize
  omega

theorem mapped_congr {s s' : Space} (h : ∀ i, (s' i).isSome = (s i).isSome) :
    Mapped s' first count ↔ Mapped s first count :=
  forall_congr' fun i => imp_congr_right fun _ => by rw [h i]

end WinCompat.Lib.Paging
