import Mathlib.Data.BitVec

/-!
# NUL-terminated strings in memory

Memory is what a pointer shows: the unit at each distance from it. It `Holds` a list of units when
these stand there with a NUL behind them, and memory with a NUL in it holds exactly one list, its
`string`. A function that writes a string makes `Edit`s: some units from a place on, and a NUL.
-/

namespace WinCompat.Lib.CString

variable {α : Type} [Zero α]

/-! ## What is held -/

/-- The units `s` and a NUL behind them, with no NUL among them. -/
structure Holds (m : Nat → α) (s : List α) : Prop where
  clean : (0 : α) ∉ s
  units : ∀ i, i < s.length → s[i]? = some (m i)
  nul : m s.length = 0

/-- Memory with a NUL in it. -/
structure Terminated (α : Type) [Zero α] where
  unit : Nat → α
  terminated : ∃ n, unit n = 0

variable {s : List α}

variable {m : Nat → α} {i : Nat}

theorem Holds.ne_zero (h : Holds m s) (hi : i < s.length) : m i ≠ 0 := by
  intro hzero
  exact h.clean (hzero ▸ List.mem_of_getElem? (h.units i hi))

theorem Holds.length_eq (h : Holds m s) {n : Nat} (hn : m n = 0) (hbefore : ∀ i, i < n → m i ≠ 0) :
    s.length = n := by
  obtain hlt | heq | hgt := Nat.lt_trichotomy s.length n
  · exact absurd h.nul (hbefore _ hlt)
  · exact heq
  · exact absurd hn (h.ne_zero hgt)

theorem Holds.unique {s t : List α} (hs : Holds m s) (ht : Holds m t) : s = t := by
  have hlen : s.length = t.length := hs.length_eq ht.nul fun i hi => ht.ne_zero hi
  apply List.ext_getElem? fun i => ?_
  by_cases hi : i < s.length
  · rw [hs.units i hi, ht.units i (hlen ▸ hi)]
  · simp [Nat.not_lt.mp hi, hlen ▸ Nat.not_lt.mp hi]

namespace Terminated

variable [DecidableEq α]

/-- The number of units before the NUL. -/
def length (b : Terminated α) : Nat := Nat.find b.terminated

def string (b : Terminated α) : List α := (List.range b.length).map b.unit

@[simp] theorem length_string (b : Terminated α) : b.string.length = b.length := by simp [string]

theorem holds_string (b : Terminated α) : Holds b.unit b.string where
  clean hmem := by
    obtain ⟨i, hi, hzero⟩ := List.mem_map.mp hmem
    exact Nat.find_min b.terminated (List.mem_range.mp hi) hzero
  units i hi := by
    rw [length_string] at hi
    simp [string, hi]
  nul := by
    rw [length_string]
    exact Nat.find_spec b.terminated

variable {b : Terminated α}

theorem string_eq (h : Holds b.unit s) : b.string = s :=
  b.holds_string.unique h

theorem length_of_string (h : b.string = s) : b.length = s.length := by
  rw [← length_string, h]

theorem getElem?_string (b : Terminated α) (hi : i < b.length) : b.string[i]? = some (b.unit i) :=
  b.holds_string.units i (b.length_string ▸ hi)

theorem getElem_string (b : Terminated α) (hi : i < b.string.length) : b.string[i] = b.unit i := by
  simp [string]

theorem unit_length (b : Terminated α) : b.unit b.length = 0 := Nat.find_spec b.terminated

theorem unit_ne_zero (b : Terminated α) (hi : i < b.length) : b.unit i ≠ 0 :=
  Nat.find_min b.terminated hi

theorem length_eq {n : Nat} (hn : b.unit n = 0) (hbefore : ∀ i, i < n → b.unit i ≠ 0) :
    b.length = n :=
  (Nat.find_eq_iff b.terminated).mpr ⟨hn, fun i hi => hbefore i hi⟩

/-- A string on its own. -/
def ofList (s : List α) : Terminated α where
  unit i := s.getD i 0
  terminated := ⟨s.length, by simp⟩

theorem string_ofList (h : (0 : α) ∉ s) : (ofList s).string = s :=
  string_eq
    { clean := h
      units := fun i hi => by simp [ofList, hi]
      nul := by simp [ofList] }

end Terminated

/-! ## What is written -/

/-- Units are stored from `start` on, and a NUL behind them. -/
structure Edit (α : Type) where
  start : Nat
  units : List α
  deriving DecidableEq

namespace Edit

/-- The places that are written. -/
def indices (e : Edit α) : List Nat := List.range' e.start (e.units.length + 1)

def store (m : Nat → α) (e : Edit α) : Terminated α where
  unit i := if e.start ≤ i then (e.units ++ [0]).getD (i - e.start) (m i) else m i
  terminated := ⟨e.start + e.units.length, by simp⟩

/-- Memory after edits, the first one first. -/
def after (m : Nat → α) (edits : List (Edit α)) : Nat → α :=
  edits.foldl (fun m e => (store m e).unit) m

@[simp] theorem after_nil (m : Nat → α) : after m [] = m := rfl

@[simp] theorem after_cons (m : Nat → α) (e : Edit α) (edits : List (Edit α)) :
    after m (e :: edits) = after (store m e).unit edits := rfl

omit [Zero α] in
theorem mem_indices {e : Edit α} : i ∈ e.indices ↔ e.start ≤ i ∧ i ≤ e.start + e.units.length := by
  rw [indices, List.mem_range'_1]
  omega

theorem holds_store (h : Holds m s) {e : Edit α} (hstart : e.start ≤ s.length)
    (hclean : (0 : α) ∉ e.units) : Holds (store m e).unit (s.take e.start ++ e.units) := by
  have htake : (s.take e.start).length = e.start := List.length_take_of_le hstart
  refine ⟨?_, fun i hi => ?_, ?_⟩
  · rw [List.mem_append]
    rintro (hmem | hmem)
    · exact h.clean (List.mem_of_mem_take hmem)
    · exact hclean hmem
  · rw [List.length_append, htake] at hi
    by_cases hle : e.start ≤ i
    · have hlt : i - e.start < e.units.length := by omega
      rw [List.getElem?_append_right (by omega), htake]
      simp [store, hle, List.getElem?_append_left hlt, hlt]
    · rw [List.getElem?_append_left (by omega), List.getElem?_take_of_lt (by omega),
        h.units i (by omega)]
      simp [store, hle]
  · rw [List.length_append, htake]
    simp [store]

theorem holds_store_zero (m : Nat → α) {units : List α} (hclean : (0 : α) ∉ units) :
    Holds (store m ⟨0, units⟩).unit units where
  clean := hclean
  units i hi := by simp [store, List.getElem?_append_left hi, hi]
  nul := by simp [store]

end Edit

end WinCompat.Lib.CString
