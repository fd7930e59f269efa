import Mathlib.Algebra.Order.Group.Nat
import WinCompat.Lib.CommandLine
import WinCompat.Lib.Utf8Pieces

/-!
# The command line

`build_command_line` of `win32-kernel32/src/process.rs`: the arguments of the host with a blank
between them, each with quotation marks around it if it has a blank itself. A program splits it
again by the rules of its run time, and finds what the host was given if no argument has anything
that is more than a blank to these rules (`command_line_iff`).
-/

namespace WinCompat.Process

open Lib Lib.CommandLine

/-- `std::env::args`, which panics if an argument is not text. -/
def hostArgs (argv : List (List UInt8)) : Option (List Text) :=
  argv.mapM fun a => (Utf8.decode? a).map String.toList

/-- Quoted if it contains spaces. -/
def part (a : Text) : Text := if ' ' ∈ a ∨ '\t' ∈ a then '"' :: a ++ ['"'] else a

/-- `build_command_line` -/
def buildCommandLine (argv : List (List UInt8)) : Option Text := do
  let args ← hostArgs argv
  if args = [] then return []
  return List.intercalate [' '] (args.map part)

/-- A line with the arguments `args` on it. -/
def joined (args : List Text) : Text := List.intercalate [' '] (args.map part)

/-- No quotation mark, and no backslash before the one that is put after it. -/
structure Quotable (a : Text) : Prop where
  quote : '"' ∉ a
  slash : (' ' ∈ a ∨ '\t' ∈ a) → a.getLast? ≠ some '\\'

/-- An argument that the run time finds again. -/
structure Carried (a : Text) : Prop extends Quotable a where
  nonempty : a ≠ []

/-! ## Reading what was joined -/

variable {a : Text} {args done : List Text}

theorem part_of_blank (h : ' ' ∈ a ∨ '\t' ∈ a) : part a = '"' :: a ++ ['"'] := if_pos h

theorem part_of_no_blank (h : ¬ (' ' ∈ a ∨ '\t' ∈ a)) : part a = a := if_neg h

theorem joined_cons (a b : Text) (args : List Text) :
    joined (a :: b :: args) = part a ++ ' ' :: joined (b :: args) := by
  simp [joined, List.intercalate_cons_cons]

theorem readAll_part (h : Quotable a) :
    ((Reader.between done).readAll (part a)).quoted = false ∧
      ((Reader.between done).readAll (part a)).args = done ++ if a = [] then [] else [a] := by
  by_cases hblank : ' ' ∈ a ∨ '\t' ∈ a
  · have hne : a ≠ [] := by
      rintro rfl
      simp at hblank
    rw [part_of_blank hblank, Reader.readAll_quoted hne h.quote (h.slash hblank)]
    exact ⟨rfl, by simp [Reader.args, Reader.taken, hne]⟩
  · rw [part_of_no_blank hblank]
    have hliteral : ∀ c ∈ a, (Reader.between done).Literal c := by
      intro c hc
      refine ⟨?_, Or.inr ?_⟩
      · rintro rfl
        exact h.quote hc
      · rintro (rfl | rfl)
        · exact hblank (Or.inl hc)
        · exact hblank (Or.inr hc)
    obtain ⟨hdone, hquoted, htaken⟩ := Reader.readAll_literal hliteral
    refine ⟨hquoted, ?_⟩
    by_cases hne : a = []
    · subst hne
      simp [Reader.args, Reader.between, Reader.taken]
    · rw [Reader.args, hdone, htaken hne]
      simp [Reader.between, Reader.taken, hne]

theorem readAll_joined (h : ∀ a ∈ args, Quotable a) :
    ((Reader.between done).readAll (joined args)).args = done ++ args.filter (· ≠ []) := by
  induction args generalizing done with
  | nil => simp [joined, Reader.args, Reader.between, Reader.taken]
  | cons a args ih =>
    rw [List.forall_mem_cons] at h
    obtain ⟨hquoted, hargs⟩ := @readAll_part a done h.1
    cases args with
    | nil =>
      rw [joined, List.map_singleton, List.intercalate_singleton, hargs]
      by_cases hne : a = [] <;> simp [hne]
    | cons b args =>
      have hblank := @Reader.read_blank _ ' ' (Or.inl rfl) hquoted
      rw [Reader.args] at hargs
      rw [joined_cons, Reader.readAll_append, Reader.readAll_cons, hblank, hargs, ih h.2]
      by_cases hne : a = [] <;> simp [hne]

/-! ## What a line weighs -/

variable {f : Char → Nat}

theorem weigh_part (f : Char → Nat) (a : Text) :
    weigh (unquoted f) (part a) = weigh (unquoted f) a := by
  unfold part
  split <;> simp [unquoted]

theorem weigh_joined (hne : args ≠ []) :
    weigh (unquoted f) (joined args) + f ' ' = weighAll (unquoted f) (f ' ') args := by
  induction args with
  | nil => exact absurd rfl hne
  | cons a args ih =>
    cases args with
    | nil => simp [joined, weigh_part, weighAll]
    | cons b args =>
      have hrest := ih (List.cons_ne_nil _ _)
      have hblank : unquoted f ' ' = f ' ' := if_neg (by decide)
      rw [joined_cons, weigh_append, weigh_cons, weigh_part, hblank]
      simp only [weighAll, List.map_cons, List.sum_cons] at hrest ⊢
      omega

theorem part_mem_joined (h : a ∈ args) :
    ∃ front rest, joined args = front ++ part a ++ rest := by
  induction args with
  | nil => exact absurd h List.not_mem_nil
  | cons b args ih =>
    cases args with
    | nil =>
      rw [List.mem_singleton.mp h]
      exact ⟨[], [], by simp [joined]⟩
    | cons c args =>
      rcases List.mem_cons.mp h with rfl | hrest
      · exact ⟨[], _, joined_cons a c args⟩
      · obtain ⟨front, rest, heq⟩ := ih hrest
        exact ⟨part b ++ ' ' :: front, rest, by rw [joined_cons, heq]; simp⟩

theorem unquoted_le (f : Char → Nat) (a : Text) : weigh (unquoted f) a ≤ weigh f a := by
  induction a with
  | nil => exact Nat.le_refl 0
  | cons c a ih =>
    have hc : unquoted f c ≤ f c := by
      unfold unquoted
      split
      · exact Nat.zero_le _
      · exact Nat.le_refl _
    rw [weigh_cons, weigh_cons]
    exact Nat.add_le_add hc ih

theorem unquoted_lt (hf : 0 < f '"') (h : '"' ∈ a) : weigh (unquoted f) a < weigh f a := by
  obtain ⟨front, rest, rfl⟩ := List.append_of_mem h
  have hfront := unquoted_le f front
  have hrest := unquoted_le f rest
  have hquote : unquoted f '"' = 0 := rfl
  rw [weigh_append, weigh_append, weigh_cons, weigh_cons, hquote]
  omega

/-! ## What is found again -/

theorem quote_not_mem (h : split (joined args) = args) (ha : a ∈ args) : '"' ∉ a := by
  intro hquote
  have hne : args ≠ [] := List.ne_nil_of_mem ha
  have hle := @weight_split_le (fun _ => 1) 1 (fun _ _ => Nat.le_refl 1) (Nat.le_refl 1)
    (joined args)
  have hline := @weigh_joined _ (fun _ => 1) hne
  have hlt : weighAll (unquoted fun _ => 1) 1 args < weighAll (fun _ => 1) 1 args := by
    apply List.sum_lt_sum
    · intro b _
      exact Nat.add_le_add_right (unquoted_le _ b) 1
    · exact ⟨a, ha, Nat.add_lt_add_right (unquoted_lt Nat.one_pos hquote) 1⟩
  rw [h] at hle
  omega

def slashWeight (c : Char) : Nat := if c = '\\' then 1 else 0

theorem slash_not_last (h : split (joined args) = args) (ha : a ∈ args)
    (hblank : ' ' ∈ a ∨ '\t' ∈ a) : a.getLast? ≠ some '\\' := by
  intro hlast
  obtain ⟨init, rfl⟩ := List.getLast?_eq_some_iff.mp hlast
  obtain ⟨front, rest, hjoined⟩ := part_mem_joined ha
  have hline : joined args = (front ++ '"' :: init) ++ '\\' :: '"' :: rest := by
    rw [hjoined, part_of_blank hblank]
    simp
  have hzero : ∀ c, Blank c → 0 ≤ slashWeight c := fun c _ => Nat.zero_le _
  have hlt := @weight_split_lt slashWeight 0 hzero rfl (front ++ '"' :: init) rest
  have hweigh := @weigh_joined _ slashWeight (List.ne_nil_of_mem ha)
  have hall : weighAll (unquoted slashWeight) 0 args = weighAll slashWeight 0 args := by
    have hsame : unquoted slashWeight = slashWeight := by
      funext c
      by_cases hc : c = '"'
      · rw [hc]
        rfl
      · exact if_neg hc
    rw [hsame]
  have hslash : unquoted slashWeight '\\' = 1 := rfl
  have hquote : unquoted slashWeight '"' = 0 := rfl
  have hsep : slashWeight ' ' = 0 := rfl
  rw [← hline, h] at hlt
  rw [hline, weigh_append, weigh_cons, weigh_cons, hslash, hquote, hsep, hall] at hweigh
  omega

theorem split_joined_iff (args : List Text) :
    split (joined args) = args ↔ ∀ a ∈ args, Carried a := by
  have hquotable (h : ∀ a ∈ args, Quotable a) : split (joined args) = args.filter (· ≠ []) :=
    @readAll_joined args [] h
  constructor
  · intro h
    have hall : ∀ a ∈ args, Quotable a := fun a ha =>
      ⟨quote_not_mem h ha, slash_not_last h ha⟩
    have hfilter := (hquotable hall).symm.trans h
    intro a ha
    refine ⟨hall a ha, ?_⟩
    simpa using List.filter_eq_self.mp hfilter a ha
  · intro h
    rw [hquotable fun a ha => (h a ha).toQuotable]
    apply List.filter_eq_self.mpr
    intro a ha
    simpa using (h a ha).nonempty

/-! ## The arguments of the host -/

theorem hostArgs_eq_some {argv : List (List UInt8)} :
    hostArgs argv = some args ↔ argv = args.map Utf8.encode :=
  Utf8.mapM_eq_some fun _ _ => Utf8.decode?_eq_some

theorem buildCommandLine_eq {argv : List (List UInt8)} :
    buildCommandLine argv = (hostArgs argv).map joined := by
  unfold buildCommandLine
  cases hostArgs argv with
  | none => rfl
  | some args => cases args <;> rfl

/-- **A program finds the arguments of the host on its command line exactly if** they are text, none
    is empty or has a quotation mark, and none with a blank ends in a backslash. -/
theorem command_line_iff (argv : List (List UInt8)) :
    (∃ line, buildCommandLine argv = some line ∧ (split line).map Utf8.encode = argv) ↔
      ∃ args : List Text, argv = args.map Utf8.encode ∧ ∀ a ∈ args, Carried a := by
  have hinj : Function.Injective (List.map Utf8.encode) := by
    apply List.map_injective_iff.mpr
    intro t t' h
    rw [← Utf8.decodeLossy_encode t, h, Utf8.decodeLossy_encode]
  rw [buildCommandLine_eq]
  constructor
  · rintro ⟨line, hline, hsplit⟩
    obtain ⟨args, hargs, rfl⟩ := Option.map_eq_some_iff.mp hline
    have hargv := hostArgs_eq_some.mp hargs
    rw [hargv] at hsplit
    exact ⟨args, hargv, (split_joined_iff args).mp (hinj hsplit)⟩
  · rintro ⟨args, hargv, hcarried⟩
    refine ⟨joined args, ?_, ?_⟩
    · rw [hostArgs_eq_some.mpr hargv, Option.map_some]
    · rw [(split_joined_iff args).mpr hcarried, hargv]

/-- The second argument is empty: nothing is between the two blanks. -/
theorem empty_argument_lost :
    ∃ line, buildCommandLine [[0x61], [], [0x62]] = some line ∧
      split line = [['a'], ['b']] := by
  have hargs : hostArgs [[0x61], [], [0x62]] = some [['a'], [], ['b']] := hostArgs_eq_some.mpr rfl
  refine ⟨['a', ' ', ' ', 'b'], ?_, by decide⟩
  rw [buildCommandLine_eq, hargs]
  rfl

end WinCompat.Process
