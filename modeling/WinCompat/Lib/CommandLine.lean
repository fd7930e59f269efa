import Mathlib.Algebra.Order.BigOperators.Group.List
import Mathlib.Data.BitVec

/-!
# Splitting a command line

The rules of the Microsoft C run time: blanks separate arguments unless they are quoted, `2n`
backslashes before a quotation mark stand for `n` and the mark begins or ends a quotation, `2n + 1`
stand for `n` and the mark is literal. Backslashes before anything else are what they are.

Reading never makes more of a line than it has: what is split off weighs at most what the line
weighs without its quotation marks (`weight_split_le`), and less where backslashes come before one
(`weight_split_lt`).
-/

namespace WinCompat.Lib.CommandLine

abbrev Text := List Char

def Blank (c : Char) : Prop := c = ' ' ∨ c = '\t'

instance (c : Char) : Decidable (Blank c) := inferInstanceAs (Decidable (_ ∨ _))

/-- A line that has been read up to some character. -/
structure Reader where
  /-- The arguments that have ended. -/
  done : List Text
  /-- The one that is being read, without the backslashes that were read last. -/
  arg : Option Text
  slashes : Nat
  quoted : Bool
  deriving DecidableEq

namespace Reader

/-- Between arguments. -/
def between (done : List Text) : Reader := ⟨done, none, 0, false⟩

/-- The argument that is being read, if no quotation mark is next. -/
def taken (r : Reader) : Option Text :=
  if r.slashes = 0 then r.arg else some (r.arg.getD [] ++ List.replicate r.slashes '\\')

def read (r : Reader) (c : Char) : Reader :=
  if c = '\\' then { r with slashes := r.slashes + 1 }
  else if c = '"' then
    let halved := r.arg.getD [] ++ List.replicate (r.slashes / 2) '\\'
    if r.slashes % 2 = 0 then { r with arg := some halved, slashes := 0, quoted := !r.quoted }
    else { r with arg := some (halved ++ ['"']), slashes := 0 }
  else if Blank c ∧ r.quoted = false then between (r.done ++ r.taken.toList)
  else { r with arg := some (r.taken.getD [] ++ [c]), slashes := 0 }

def readAll (r : Reader) (line : Text) : Reader := line.foldl read r

def args (r : Reader) : List Text := r.done ++ r.taken.toList

end Reader

def split (line : Text) : List Text := ((Reader.between []).readAll line).args

namespace Reader

variable {r : Reader} {c : Char} {t line : Text} {done : List Text}

theorem readAll_append (r : Reader) (line line' : Text) :
    r.readAll (line ++ line') = (r.readAll line).readAll line' := List.foldl_append

@[simp] theorem readAll_nil (r : Reader) : r.readAll [] = r := rfl

@[simp] theorem readAll_cons (r : Reader) (c : Char) (line : Text) :
    r.readAll (c :: line) = (r.read c).readAll line := rfl

/-! ## Text without quotation marks -/

/-- A character that is taken as it is. -/
def Literal (r : Reader) (c : Char) : Prop := c ≠ '"' ∧ (r.quoted = true ∨ ¬ Blank c)

theorem read_literal (h : r.Literal c) :
    (r.read c).done = r.done ∧ (r.read c).quoted = r.quoted ∧
      (r.read c).taken = some (r.taken.getD [] ++ [c]) := by
  by_cases hslash : c = '\\'
  · subst hslash
    refine ⟨rfl, rfl, ?_⟩
    unfold taken read
    by_cases hzero : r.slashes = 0
    · simp [hzero]
    · simp [hzero, List.replicate_succ']
  · have hblank : ¬ (Blank c ∧ r.quoted = false) := by
      rintro ⟨hblank, hquoted⟩
      rcases h.2 with h | h
      · rw [hquoted] at h
        exact absurd h (by decide)
      · exact h hblank
    unfold read
    rw [if_neg hslash, if_neg h.1, if_neg hblank]
    exact ⟨rfl, rfl, rfl⟩

theorem readAll_literal (h : ∀ c ∈ t, r.Literal c) :
    (r.readAll t).done = r.done ∧ (r.readAll t).quoted = r.quoted ∧
      (t ≠ [] → (r.readAll t).taken = some (r.taken.getD [] ++ t)) := by
  induction t generalizing r with
  | nil => exact ⟨rfl, rfl, fun h => absurd rfl h⟩
  | cons c t ih =>
    rw [List.forall_mem_cons] at h
    obtain ⟨hdone, hquoted, htaken⟩ := read_literal h.1
    have hrest : ∀ c' ∈ t, (r.read c).Literal c' := by
      intro c' hc'
      rw [Literal, hquoted]
      exact h.2 c' hc'
    obtain ⟨hdone', hquoted', htaken'⟩ := ih hrest
    refine ⟨hdone'.trans hdone, hquoted'.trans hquoted, ?_⟩
    intro _
    cases t with
    | nil => exact htaken
    | cons c' t =>
      rw [readAll_cons, htaken' (List.cons_ne_nil _ _), htaken]
      simp

/-- No backslash is pending after another character. -/
theorem slashes_read (h : c ≠ '\\') : (r.read c).slashes = 0 := by
  unfold read
  rw [if_neg h]
  dsimp only
  repeat' split
  all_goals rfl

theorem slashes_readAll (h : t.getLast? ≠ some '\\') (hr : r.slashes = 0) :
    (r.readAll t).slashes = 0 := by
  rcases List.eq_nil_or_concat t with rfl | ⟨front, c, rfl⟩
  · exact hr
  · rw [List.concat_eq_append] at h ⊢
    rw [readAll_append]
    apply slashes_read
    intro hc
    exact h (by simp [hc])

/-- A blank that is not quoted ends an argument. -/
theorem read_blank (hc : Blank c) (hquoted : r.quoted = false) :
    r.read c = between (r.done ++ r.taken.toList) := by
  have hne : c ≠ '\\' ∧ c ≠ '"' := by
    rcases hc with rfl | rfl <;> decide
  unfold read
  rw [if_neg hne.1, if_neg hne.2, if_pos ⟨hc, hquoted⟩]

theorem readAll_quoted (hne : t ≠ []) (hquote : '"' ∉ t) (hslash : t.getLast? ≠ some '\\') :
    (between done).readAll ('"' :: t ++ ['"']) = ⟨done, some t, 0, false⟩ := by
  have hopen : (between done).read '"' = ⟨done, some [], 0, true⟩ := by simp [read, between]
  have hliteral : ∀ c ∈ t, Literal ⟨done, some [], 0, true⟩ c := by
    intro c hc
    refine ⟨?_, Or.inl rfl⟩
    rintro rfl
    exact hquote hc
  obtain ⟨hdone, hquoted, htaken⟩ := readAll_literal hliteral
  have hslashes : (readAll ⟨done, some [], 0, true⟩ t).slashes = 0 := slashes_readAll hslash rfl
  have harg := htaken hne
  rw [taken, if_pos hslashes] at harg
  rw [List.cons_append, readAll_cons, hopen, readAll_append]
  generalize readAll ⟨done, some [], 0, true⟩ t = r at hdone hquoted hslashes harg
  obtain ⟨done', arg, slashes, quoted⟩ := r
  dsimp only at hdone hquoted hslashes harg
  subst hdone hquoted hslashes harg
  simp [read, taken]

end Reader

/-! ## Weights -/

def weigh (f : Char → Nat) (t : Text) : Nat := (t.map f).sum

/-- What a character weighs that is not a quotation mark. -/
def unquoted (f : Char → Nat) (c : Char) : Nat := if c = '"' then 0 else f c

variable {f : Char → Nat} {s : Nat}

@[simp] theorem weigh_nil : weigh f [] = 0 := rfl

@[simp] theorem weigh_cons (c : Char) (t : Text) : weigh f (c :: t) = f c + weigh f t := by
  simp [weigh]

@[simp] theorem weigh_append (t t' : Text) : weigh f (t ++ t') = weigh f t + weigh f t' := by
  simp [weigh]

@[simp] theorem weigh_replicate (n : Nat) (c : Char) :
    weigh f (List.replicate n c) = n * f c := by
  simp [weigh]

/-- With `s` for each argument that has ended. -/
def weighAll (f : Char → Nat) (s : Nat) (ts : List Text) : Nat :=
  (ts.map fun t => weigh f t + s).sum

@[simp] theorem weighAll_append (ts ts' : List Text) :
    weighAll f s (ts ++ ts') = weighAll f s ts + weighAll f s ts' := by
  simp [weighAll]

theorem weighAll_toList_le (t : Option Text) : weighAll f s t.toList ≤ weigh f (t.getD []) + s := by
  cases t <;> simp [weighAll]

namespace Reader

variable {r : Reader} {c : Char}

def weight (f : Char → Nat) (s : Nat) (r : Reader) : Nat :=
  weighAll f s r.done + weigh f (r.taken.getD [])

theorem weigh_taken (f : Char → Nat) (r : Reader) :
    weigh f (r.taken.getD []) = weigh f (r.arg.getD []) + r.slashes * f '\\' := by
  unfold taken
  by_cases h : r.slashes = 0 <;> simp [h]

/-- A quotation mark takes half of the backslashes before it, and becomes part of the argument only
    if that is one more than half. -/
theorem weight_quote (r : Reader) : (r.read '"').weight f s =
    weighAll f s r.done + weigh f (r.arg.getD []) + r.slashes / 2 * f '\\' +
      r.slashes % 2 * f '"' := by
  unfold weight
  rw [weigh_taken]
  rcases Nat.mod_two_eq_zero_or_one r.slashes with h | h <;>
    simp [read, h, Nat.add_assoc]

theorem weight_read (hblank : ∀ c, Blank c → s ≤ f c) (hquote : f '"' ≤ f '\\') (r : Reader)
    (c : Char) : (r.read c).weight f s ≤ r.weight f s + unquoted f c := by
  by_cases hc : c = '"'
  · subst hc
    have hhalf : r.slashes / 2 * f '\\' + r.slashes % 2 * f '"' ≤ r.slashes * f '\\' := by
      have hodd : r.slashes % 2 * f '"' ≤ r.slashes % 2 * f '\\' := Nat.mul_le_mul_left _ hquote
      have hle : r.slashes / 2 + r.slashes % 2 ≤ r.slashes := by omega
      have := Nat.mul_le_mul_right (f '\\') hle
      rw [Nat.add_mul] at this
      omega
    rw [weight_quote, weight, weigh_taken, unquoted, if_pos rfl]
    omega
  · rw [unquoted, if_neg hc]
    by_cases hblankc : Blank c ∧ r.quoted = false
    · have htaken := @weighAll_toList_le f s r.taken
      have hs := hblank c hblankc.1
      rw [read_blank hblankc.1 hblankc.2]
      simp only [weight, between, weighAll_append, taken, if_true, Option.getD_none, weigh_nil]
        at htaken ⊢
      omega
    · have hliteral : r.Literal c := by
        refine ⟨hc, ?_⟩
        by_cases hb : Blank c
        · left
          cases hq : r.quoted with
          | true => rfl
          | false => exact absurd ⟨hb, hq⟩ hblankc
        · exact Or.inr hb
      obtain ⟨hdone, -, htaken⟩ := read_literal hliteral
      simp only [weight, hdone, htaken, Option.getD_some, weigh_append, weigh_cons, weigh_nil]
      omega

theorem weight_readAll (hblank : ∀ c, Blank c → s ≤ f c) (hquote : f '"' ≤ f '\\') (r : Reader)
    (line : Text) : (r.readAll line).weight f s ≤ r.weight f s + weigh (unquoted f) line := by
  induction line generalizing r with
  | nil => simp
  | cons c line ih =>
    have hone := weight_read hblank hquote r c
    have hrest := ih (r.read c)
    rw [readAll_cons, weigh_cons]
    omega

theorem weight_escape (hquote : f '"' = 0) (r : Reader) :
    ((r.read '\\').read '"').weight f s ≤ r.weight f s := by
  have hle : (r.slashes + 1) / 2 * f '\\' ≤ r.slashes * f '\\' :=
    Nat.mul_le_mul_right _ (by omega)
  rw [weight_quote, weight, weigh_taken, hquote]
  show weighAll f s r.done + weigh f (r.arg.getD []) + (r.slashes + 1) / 2 * f '\\' + _ * 0 ≤ _
  omega

theorem weighAll_args_le (r : Reader) : weighAll f s r.args ≤ r.weight f s + s := by
  have htaken := @weighAll_toList_le f s r.taken
  rw [args, weighAll_append, weight]
  omega

end Reader

theorem weight_split_le (hblank : ∀ c, Blank c → s ≤ f c) (hquote : f '"' ≤ f '\\') (line : Text) :
    weighAll f s (split line) ≤ weigh (unquoted f) line + s := by
  have hread := Reader.weight_readAll hblank hquote (Reader.between []) line
  have hzero : (Reader.between []).weight f s = 0 := rfl
  have hargs := @Reader.weighAll_args_le f s ((Reader.between []).readAll line)
  unfold split
  omega

theorem weight_split_lt (hblank : ∀ c, Blank c → s ≤ f c) (hquote : f '"' = 0)
    (front rest : Text) :
    weighAll f s (split (front ++ '\\' :: '"' :: rest)) ≤
      weigh (unquoted f) front + weigh (unquoted f) rest + s := by
  have hle : f '"' ≤ f '\\' := by omega
  have hfront := Reader.weight_readAll hblank hle (Reader.between []) front
  have hzero : (Reader.between []).weight f s = 0 := rfl
  rw [split, Reader.readAll_append]
  generalize (Reader.between []).readAll front = r at hfront
  have hescape : ((r.read '\\').read '"').weight f s ≤ r.weight f s :=
    Reader.weight_escape hquote r
  have hrest := Reader.weight_readAll hblank hle ((r.read '\\').read '"') rest
  have hargs := @Reader.weighAll_args_le f s (((r.read '\\').read '"').readAll rest)
  rw [Reader.readAll_cons, Reader.readAll_cons]
  omega

end WinCompat.Lib.CommandLine
