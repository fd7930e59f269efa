import WinCompat.Lib.Spirv

/-!
# Structured control flow

What SPIR-V asks of the blocks of a function: distinct labels, one terminator a block and that at its
end, branches to blocks there are, the variables at the front of the entry block, and a merge
instruction only immediately before a terminator.

`Building` is the part of it that a function under construction keeps at every builder call; it holds
against the labels that are promised and not yet begun. `Merges` is the rest: the merge instructions
are either all in place or one of them is misplaced for good.
-/

namespace WinCompat.Lib.Spirv

/-! ## Well-formed blocks -/

/-- One terminator, and it is last. -/
def Block.Terminated (b : Block) : Prop :=
  ∃ is t, b.body = is ++ [t] ∧ t.isTerminator = true ∧ ∀ i ∈ is, i.isTerminator = false

/-- Nothing but a terminator. -/
def IsTerminator : List Inst → Prop
  | [t] => t.isTerminator = true
  | _ => False

/-- A merge instruction is followed by the terminator and by nothing else. -/
def MergesLast : List Inst → Prop
  | [] => True
  | i :: is => (i.isMerge = true → IsTerminator is) ∧ MergesLast is

instance : DecidablePred IsTerminator
  | [] => isFalse id
  | [t] => inferInstanceAs (Decidable (t.isTerminator = true))
  | _ :: _ :: _ => isFalse id

instance decidableMergesLast : DecidablePred MergesLast
  | [] => isTrue trivial
  | i :: is =>
      haveI := decidableMergesLast is
      inferInstanceAs (Decidable ((i.isMerge = true → IsTerminator is) ∧ MergesLast is))

/-- Variables stand in the entry block, before every other instruction. -/
def VariablesFirst : List Block → Prop
  | [] => True
  | entry :: rest =>
      (∃ vs is, entry.body = vs ++ is ∧ (∀ i ∈ vs, i.isVariable = true) ∧
        ∀ i ∈ is, i.isVariable = false) ∧
      ∀ b ∈ rest, ∀ i ∈ b.body, i.isVariable = false

structure Structured (bs : List Block) : Prop where
  labels : (bs.map Block.label).Nodup
  terminated : ∀ b ∈ bs, b.Terminated
  targets : ∀ b ∈ bs, ∀ i ∈ b.body, ∀ l ∈ i.targets, l ∈ bs.map Block.label
  variablesFirst : VariablesFirst bs
  merges : ∀ b ∈ bs, MergesLast b.body

namespace Inst

variable {i : Inst}

/-! An instruction is of one kind. -/

theorem isPlain_only (h : i.isPlain = true) :
    i.isTerminator = false ∧ i.isMerge = false ∧ i.isVariable = false ∧ i.targets = [] := by
  cases i <;> first | exact ⟨rfl, rfl, rfl, rfl⟩ | cases h

theorem isMerge_only (h : i.isMerge = true) : i.isTerminator = false ∧ i.isVariable = false := by
  cases i <;> first | exact ⟨rfl, rfl⟩ | cases h

theorem isTerminator_only (h : i.isTerminator = true) :
    i.isMerge = false ∧ i.isVariable = false := by
  cases i <;> first | exact ⟨rfl, rfl⟩ | cases h

theorem isVariable_only (h : i.isVariable = true) :
    i.isTerminator = false ∧ i.isMerge = false ∧ i.targets = [] := by
  cases i <;> first | exact ⟨rfl, rfl, rfl⟩ | cases h

end Inst

/-! ## Variables -/

namespace VariablesFirst

variable {bs : List Block}

theorem snoc (h : VariablesFirst bs) (l : Id) : VariablesFirst (bs ++ [⟨l, []⟩]) := by
  cases bs with
  | nil => exact ⟨⟨[], [], rfl, nofun, nofun⟩, nofun⟩
  | cons entry rest =>
    refine ⟨h.1, ?_⟩
    intro b hb i hi
    rcases List.mem_append.mp hb with hb | hb
    · exact h.2 b hb i hi
    · obtain rfl := List.mem_singleton.mp hb
      cases hi

theorem append {b : Block} (h : VariablesFirst (bs ++ [b])) {is : List Inst}
    (his : ∀ i ∈ is, i.isVariable = false) :
    VariablesFirst (bs ++ [{ b with body := b.body ++ is }]) := by
  cases bs with
  | nil =>
    obtain ⟨⟨vs, js, hbody, hvs, hjs⟩, -⟩ := h
    refine ⟨⟨vs, js ++ is, ?_, hvs, ?_⟩, nofun⟩
    · show b.body ++ is = _
      rw [hbody, List.append_assoc]
    · intro i hi
      rcases List.mem_append.mp hi with hi | hi
      · exact hjs i hi
      · exact his i hi
  | cons entry rest =>
    refine ⟨h.1, ?_⟩
    intro c hc i hi
    rcases List.mem_append.mp hc with hc | hc
    · exact h.2 c (List.mem_append_left _ hc) i hi
    · obtain rfl := List.mem_singleton.mp hc
      rcases List.mem_append.mp hi with hi | hi
      · exact h.2 b (List.mem_append_right _ (List.mem_singleton.mpr rfl)) i hi
      · exact his i hi

theorem cons {b : Block} (h : VariablesFirst (b :: bs)) {i : Inst} (hi : i.isVariable = true) :
    VariablesFirst ({ b with body := i :: b.body } :: bs) := by
  obtain ⟨⟨vs, is, hbody, hvs, his⟩, hrest⟩ := h
  refine ⟨⟨i :: vs, is, ?_, ?_, his⟩, hrest⟩
  · show i :: b.body = _
    rw [hbody]
    rfl
  · intro j hj
    rcases List.mem_cons.mp hj with rfl | hj
    · exact hi
    · exact hvs j hj

end VariablesFirst

/-! ## Merge instructions -/

namespace MergesLast

variable {is js : List Inst} {m t : Inst}

theorem append (h : ∀ i ∈ is, i.isMerge = false) (hj : MergesLast js) : MergesLast (is ++ js) := by
  induction is with
  | nil => exact hj
  | cons i is ih =>
    refine ⟨fun hm => ?_, ih fun j hj => h j (List.mem_cons_of_mem _ hj)⟩
    rw [h i List.mem_cons_self] at hm
    cases hm

theorem terminator (ht : t.isTerminator = true) : MergesLast [t] := by
  refine ⟨fun hm => ?_, trivial⟩
  rw [(Inst.isTerminator_only ht).1] at hm
  cases hm

theorem merge (ht : t.isTerminator = true) : MergesLast [m, t] := ⟨fun _ => ht, terminator ht⟩

theorem rest_length (h : MergesLast (is ++ m :: js)) (hm : m.isMerge = true) : js.length = 1 := by
  induction is with
  | nil =>
    have hj : IsTerminator js := h.1 hm
    match js, hj with
    | [t], _ => rfl
  | cons i is ih => exact ih h.2

end MergesLast

/-! ## What the builder calls do to a function -/

namespace Function

/-- All instructions. -/
def insts (f : Function) : List Inst := f.blocks.flatMap Block.body

theorem labels_appendAll (f : Function) (is : List Inst) : (f.appendAll is).labels = f.labels := by
  obtain ⟨id, finished, selected⟩ := f
  cases selected with
  | none => rfl
  | some b => simp [labels, blocks, appendAll]

theorem mem_insts_appendAll {f : Function} {is : List Inst} {i : Inst}
    (h : i ∈ (f.appendAll is).insts) : i ∈ f.insts ∨ i ∈ is := by
  obtain ⟨id, finished, selected⟩ := f
  cases selected with
  | none => exact Or.inl h
  | some b =>
    simp only [insts, blocks, appendAll, Option.map_some, Option.toList_some, List.flatMap_append,
      List.flatMap_singleton, List.mem_append] at h ⊢
    rcases h with h | h | h
    · exact Or.inl (Or.inl h)
    · exact Or.inl (Or.inr h)
    · exact Or.inr h

theorem terminate_eq_some {f f' : Function} {t : Inst} (h : f.terminate t = some f') :
    ∃ b, f.selected = some b ∧
      f' = { f with finished := f.finished ++ [{ b with body := b.body ++ [t] }], selected := none } := by
  unfold terminate at h
  cases hb : f.selected with
  | none =>
    rw [hb] at h
    cases h
  | some b =>
    rw [hb] at h
    cases h
    exact ⟨b, rfl, rfl⟩

/-- The blocks of a terminated function are those of one that has had the terminator appended. -/
theorem blocks_terminate {f f' : Function} {t : Inst} (h : f.terminate t = some f') :
    f'.blocks = (f.appendAll [t]).blocks := by
  obtain ⟨b, hb, rfl⟩ := terminate_eq_some h
  simp [blocks, appendAll, hb]

theorem begin_eq_some {f f' : Function} {l : Id} (h : f.begin_ l = some f') :
    f.selected = none ∧ f' = { f with selected := some ⟨l, []⟩ } := by
  unfold begin_ at h
  cases hb : f.selected with
  | none =>
    rw [hb] at h
    cases h
    exact ⟨rfl, rfl⟩
  | some b =>
    rw [hb] at h
    cases h

theorem blocks_begin {f f' : Function} {l : Id} (h : f.begin_ l = some f') :
    f'.blocks = f.blocks ++ [⟨l, []⟩] := by
  obtain ⟨hb, rfl⟩ := begin_eq_some h
  simp [blocks, hb]

theorem insertFront_eq_some {f f' : Function} {i : Inst} (h : f.insertFront i = some f') :
    (∃ b bs, f.finished = b :: bs ∧
      f' = { f with finished := { b with body := i :: b.body } :: bs }) ∨
    (∃ b, f.finished = [] ∧ f.selected = some b ∧
      f' = { f with selected := some { b with body := i :: b.body } }) := by
  unfold insertFront at h
  cases hfin : f.finished with
  | cons b bs =>
    rw [hfin] at h
    cases h
    exact Or.inl ⟨b, bs, rfl, rfl⟩
  | nil =>
    rw [hfin] at h
    cases hsel : f.selected with
    | none =>
      rw [hsel] at h
      cases h
    | some b =>
      rw [hsel] at h
      cases h
      exact Or.inr ⟨b, rfl, rfl, by simp⟩

theorem blocks_insertFront {f f' : Function} {i : Inst} (h : f.insertFront i = some f') :
    ∃ b bs, f.blocks = b :: bs ∧ f'.blocks = { b with body := i :: b.body } :: bs := by
  rcases insertFront_eq_some h with ⟨b, bs, hfin, rfl⟩ | ⟨b, hfin, hsel, rfl⟩
  · refine ⟨b, bs ++ f.selected.toList, ?_, rfl⟩
    rw [blocks, hfin]
    rfl
  · refine ⟨b, [], ?_, ?_⟩
    · simp [blocks, hfin, hsel]
    · simp [blocks, hfin]

/-! ## A function under construction -/

/-- What holds at every builder call: `next` bounds the ids so far, and `pending` are the labels of
    the blocks that are still to begin. -/
structure Building (f : Function) (next : Id) (pending : List Id) : Prop where
  labels : (f.labels ++ pending).Nodup
  fresh : ∀ l ∈ f.labels ++ pending, l < next
  targets : ∀ i ∈ f.insts, ∀ l ∈ i.targets, l ∈ f.labels ++ pending
  finished : ∀ b ∈ f.finished, b.Terminated
  selected : ∀ b, f.selected = some b → ∀ i ∈ b.body, i.isTerminator = false
  variablesFirst : VariablesFirst f.blocks

namespace Building

variable {f f' : Function} {next next' : Id} {P P' : List Id}

theorem mono (h : f.Building next P) (hn : next ≤ next') : f.Building next' P where
  labels := h.labels
  fresh l hl := Nat.lt_of_lt_of_le (h.fresh l hl) hn
  targets := h.targets
  finished := h.finished
  selected := h.selected
  variablesFirst := h.variablesFirst

theorem perm (h : f.Building next P) (hp : P.Perm P') : f.Building next P' where
  labels := (List.Perm.nodup_iff (hp.append_left _)).mp h.labels
  fresh l hl := h.fresh l ((hp.append_left _).mem_iff.mpr hl)
  targets i hi l hl := (hp.append_left _).mem_iff.mp (h.targets i hi l hl)
  finished := h.finished
  selected := h.selected
  variablesFirst := h.variablesFirst

/-- A fresh id may be promised as a label. -/
theorem reserve (h : f.Building next P) : f.Building (next + 1) (next :: P) := by
  have hperm : (f.labels ++ next :: P).Perm (next :: (f.labels ++ P)) := List.perm_middle
  refine ⟨?_, ?_, ?_, h.finished, h.selected, h.variablesFirst⟩
  · apply hperm.nodup_iff.mpr
    apply List.nodup_cons.mpr
    exact ⟨fun hm => Nat.lt_irrefl _ (h.fresh next hm), h.labels⟩
  · intro l hl
    rcases List.mem_cons.mp (hperm.mem_iff.mp hl) with rfl | hl
    · exact Nat.lt_succ_self l
    · exact Nat.lt_succ_of_lt (h.fresh l hl)
  · intro i hi l hl
    exact hperm.mem_iff.mpr (List.mem_cons_of_mem _ (h.targets i hi l hl))

theorem targets_appendAll (h : f.Building next P) {is : List Inst}
    (his : ∀ i ∈ is, ∀ l ∈ i.targets, l ∈ f.labels ++ P) :
    ∀ i ∈ (f.appendAll is).insts, ∀ l ∈ i.targets, l ∈ (f.appendAll is).labels ++ P := by
  intro i hi l hl
  rw [labels_appendAll]
  rcases mem_insts_appendAll hi with hi | hi
  · exact h.targets i hi l hl
  · exact his i hi l hl

theorem variables_appendAll (h : f.Building next P) {is : List Inst}
    (his : ∀ i ∈ is, i.isVariable = false) : VariablesFirst (f.appendAll is).blocks := by
  have hv := h.variablesFirst
  obtain ⟨id, finished, selected⟩ := f
  cases selected with
  | none => exact hv
  | some b => exact hv.append his

theorem appendAll (h : f.Building next P) {is : List Inst}
    (hterm : ∀ i ∈ is, i.isTerminator = false) (hvar : ∀ i ∈ is, i.isVariable = false)
    (htargets : ∀ i ∈ is, ∀ l ∈ i.targets, l ∈ f.labels ++ P) :
    (f.appendAll is).Building next P where
  labels := by
    rw [labels_appendAll]
    exact h.labels
  fresh := by
    rw [labels_appendAll]
    exact h.fresh
  targets := h.targets_appendAll htargets
  finished := h.finished
  selected b hb i hi := by
    obtain ⟨b', hb', rfl⟩ := Option.map_eq_some_iff.mp hb
    rcases List.mem_append.mp hi with hi | hi
    · exact h.selected b' hb' i hi
    · exact hterm i hi
  variablesFirst := h.variables_appendAll hvar

theorem plain (h : f.Building next P) {is : List Inst} (his : ∀ i ∈ is, i.isPlain = true) :
    (f.appendAll is).Building next P := by
  refine h.appendAll (fun i hi => (Inst.isPlain_only (his i hi)).1)
    (fun i hi => (Inst.isPlain_only (his i hi)).2.2.1) ?_
  intro i hi l hl
  rw [(Inst.isPlain_only (his i hi)).2.2.2] at hl
  cases hl

theorem terminate (h : f.Building next P) {t : Inst} (ht : t.isTerminator = true)
    (htargets : ∀ l ∈ t.targets, l ∈ f.labels ++ P) (hf : f.terminate t = some f') :
    f'.Building next P := by
  have hblocks := blocks_terminate hf
  have hlabels : f'.labels = f.labels := by
    rw [Function.labels, hblocks]
    exact labels_appendAll f [t]
  have htargets' : ∀ i ∈ (f.appendAll [t]).insts, ∀ l ∈ i.targets, l ∈ (f.appendAll [t]).labels ++ P :=
    h.targets_appendAll (by simpa using htargets)
  have hvars : VariablesFirst (f.appendAll [t]).blocks :=
    h.variables_appendAll (by simpa using (Inst.isTerminator_only ht).2)
  refine ⟨?_, ?_, ?_, ?_, ?_, hblocks ▸ hvars⟩
  · rw [hlabels]
    exact h.labels
  · rw [hlabels]
    exact h.fresh
  · rw [insts, hblocks, hlabels]
    rw [labels_appendAll] at htargets'
    exact htargets'
  · obtain ⟨b, hb, rfl⟩ := terminate_eq_some hf
    intro c hc
    rcases List.mem_append.mp hc with hc | hc
    · exact h.finished c hc
    · obtain rfl := List.mem_singleton.mp hc
      exact ⟨b.body, t, rfl, ht, h.selected b hb⟩
  · obtain ⟨b, hb, rfl⟩ := terminate_eq_some hf
    nofun

theorem begin_ {l : Id} (h : f.Building next (l :: P)) (hf : f.begin_ l = some f') :
    f'.Building next P := by
  have hlabels : f'.labels ++ P = f.labels ++ l :: P := by
    rw [Function.labels, blocks_begin hf]
    simp [Function.labels]
  have hinsts : f'.insts = f.insts := by
    rw [insts, blocks_begin hf]
    simp [insts]
  refine ⟨hlabels ▸ h.labels, hlabels ▸ h.fresh, ?_, ?_, ?_, ?_⟩
  · rw [hinsts, hlabels]
    exact h.targets
  · obtain ⟨-, rfl⟩ := begin_eq_some hf
    exact h.finished
  · obtain ⟨-, rfl⟩ := begin_eq_some hf
    intro b hb i hi
    cases hb
    cases hi
  · rw [blocks_begin hf]
    exact h.variablesFirst.snoc l

theorem insertFront (h : f.Building next P) {i : Inst} (hi : i.isVariable = true)
    (hf : f.insertFront i = some f') : f'.Building next P := by
  obtain ⟨b, bs, hb, hb'⟩ := blocks_insertFront hf
  have hlabels : f'.labels = f.labels := by
    rw [Function.labels, Function.labels, hb, hb']
    rfl
  have hinsts : f'.insts = i :: f.insts := by
    rw [insts, insts, hb, hb']
    rfl
  refine ⟨?_, ?_, ?_, ?_, ?_, ?_⟩
  · rw [hlabels]
    exact h.labels
  · rw [hlabels]
    exact h.fresh
  · rw [hinsts, hlabels]
    intro j hj l hl
    rcases List.mem_cons.mp hj with rfl | hj
    · rw [(Inst.isVariable_only hi).2.2] at hl
      cases hl
    · exact h.targets j hj l hl
  · rcases insertFront_eq_some hf with ⟨c, cs, hfin, rfl⟩ | ⟨c, hfin, hsel, rfl⟩
    · intro d hd
      rcases List.mem_cons.mp hd with rfl | hd
      · obtain ⟨is, t, hbody, ht, his⟩ := h.finished c (hfin ▸ List.mem_cons_self)
        refine ⟨i :: is, t, congrArg (i :: ·) hbody, ht, ?_⟩
        intro j hj
        rcases List.mem_cons.mp hj with rfl | hj
        · exact (Inst.isVariable_only hi).1
        · exact his j hj
      · exact h.finished d (hfin ▸ List.mem_cons_of_mem _ hd)
    · exact h.finished
  · rcases insertFront_eq_some hf with ⟨c, cs, hfin, rfl⟩ | ⟨c, hfin, hsel, rfl⟩
    · exact h.selected
    · intro d hd j hj
      cases hd
      rcases List.mem_cons.mp hj with rfl | hj
      · exact (Inst.isVariable_only hi).1
      · exact h.selected c hsel j hj
  · have hv := h.variablesFirst
    rw [hb] at hv
    rw [hb']
    exact hv.cons hi

end Building

/-! ## Where the merge instructions are -/

def MergesSound (f : Function) : Prop :=
  (∀ b ∈ f.finished, MergesLast b.body) ∧
    ∀ b, f.selected = some b → ∀ i ∈ b.body, i.isMerge = false

def MergeMisplaced (f : Function) : Prop := ∃ b ∈ f.finished, ¬ MergesLast b.body

/-- All merge instructions are in place, or one never will be. -/
def Merges (f : Function) : Bool → Prop
  | true => f.MergesSound
  | false => f.MergeMisplaced

namespace Merges

variable {f f' : Function} {q : Bool}

theorem plain (h : f.Merges q) {is : List Inst} (his : ∀ i ∈ is, i.isPlain = true) :
    (f.appendAll is).Merges q := by
  cases q with
  | false => exact h
  | true =>
    refine ⟨h.1, ?_⟩
    intro b hb i hi
    obtain ⟨b', hb', rfl⟩ := Option.map_eq_some_iff.mp hb
    rcases List.mem_append.mp hi with hi | hi
    · exact h.2 b' hb' i hi
    · exact (Inst.isPlain_only (his i hi)).2.1

theorem terminate (h : f.Merges q) {t : Inst} (ht : t.isTerminator = true)
    (hf : f.terminate t = some f') : f'.Merges q := by
  obtain ⟨b, hb, rfl⟩ := terminate_eq_some hf
  cases q with
  | false =>
    obtain ⟨c, hc, hbad⟩ := h
    exact ⟨c, List.mem_append_left _ hc, hbad⟩
  | true =>
    refine ⟨?_, nofun⟩
    intro c hc
    rcases List.mem_append.mp hc with hc | hc
    · exact h.1 c hc
    · obtain rfl := List.mem_singleton.mp hc
      exact .append (h.2 b hb) (.terminator ht)

/-- A merge instruction, code and a terminator: it is in place exactly when there is no code. -/
theorem terminateMerge (h : f.Merges q) {m t : Inst} {is : List Inst} (hm : m.isMerge = true)
    (ht : t.isTerminator = true) (hf : (f.appendAll (m :: is)).terminate t = some f') :
    f'.Merges (q && is.isEmpty) := by
  obtain ⟨b, hb, rfl⟩ := terminate_eq_some hf
  obtain ⟨b', hb', rfl⟩ := Option.map_eq_some_iff.mp hb
  cases q with
  | false =>
    obtain ⟨c, hc, hbad⟩ := h
    exact ⟨c, List.mem_append_left _ hc, hbad⟩
  | true =>
    cases is with
    | nil =>
      refine ⟨?_, nofun⟩
      intro c hc
      rcases List.mem_append.mp hc with hc | hc
      · exact h.1 c hc
      · obtain rfl := List.mem_singleton.mp hc
        show MergesLast (b'.body ++ [m] ++ [t])
        rw [List.append_assoc]
        exact .append (h.2 b' hb') (.merge ht)
    | cons i is =>
      refine ⟨_, List.mem_append_right _ (List.mem_singleton.mpr rfl), fun hlast => ?_⟩
      have hlast : MergesLast (b'.body ++ m :: i :: is ++ [t]) := hlast
      rw [List.append_assoc] at hlast
      have := hlast.rest_length hm
      simp at this

theorem begin_ (h : f.Merges q) {l : Id} (hf : f.begin_ l = some f') : f'.Merges q := by
  obtain ⟨-, rfl⟩ := begin_eq_some hf
  cases q with
  | false => exact h
  | true =>
    refine ⟨h.1, ?_⟩
    intro b hb i hi
    cases hb
    cases hi

theorem insertFront (h : f.Merges q) {i : Inst} (hi : i.isVariable = true)
    (hf : f.insertFront i = some f') : f'.Merges q := by
  have hcons : ∀ is, MergesLast (i :: is) ↔ MergesLast is := by
    intro is
    refine ⟨fun h => h.2, fun h => ⟨fun hm => ?_, h⟩⟩
    rw [(Inst.isVariable_only hi).2.1] at hm
    cases hm
  rcases insertFront_eq_some hf with ⟨b, bs, hfin, rfl⟩ | ⟨b, hfin, hsel, rfl⟩
  · cases q with
    | false =>
      obtain ⟨c, hc, hbad⟩ := h
      rw [hfin] at hc
      rcases List.mem_cons.mp hc with rfl | hc
      · exact ⟨_, List.mem_cons_self, fun hl => hbad ((hcons _).mp hl)⟩
      · exact ⟨c, List.mem_cons_of_mem _ hc, hbad⟩
    | true =>
      refine ⟨?_, h.2⟩
      intro c hc
      rcases List.mem_cons.mp hc with rfl | hc
      · exact (hcons _).mpr (h.1 b (hfin ▸ List.mem_cons_self))
      · exact h.1 c (hfin ▸ List.mem_cons_of_mem _ hc)
  · cases q with
    | false => exact h
    | true =>
      refine ⟨h.1, ?_⟩
      intro c hc j hj
      cases hc
      rcases List.mem_cons.mp hj with rfl | hj
      · exact (Inst.isVariable_only hi).2.1
      · exact h.2 b hsel j hj

end Merges

/-- A function that is built is well structured exactly when its merge instructions are in place. -/
theorem Building.structured_iff {f : Function} {next : Id} {q : Bool} (h : f.Building next [])
    (hm : f.Merges q) (hsel : f.selected = none) : Structured f.blocks ↔ q = true := by
  have hblocks : f.blocks = f.finished := by simp [blocks, hsel]
  have hlabels : f.labels ++ [] = f.blocks.map Block.label := List.append_nil _
  constructor
  · intro hs
    cases q with
    | true => rfl
    | false =>
      obtain ⟨b, hb, hbad⟩ := hm
      exact absurd (hs.merges b (hblocks ▸ hb)) hbad
  · rintro rfl
    refine ⟨hlabels ▸ h.labels, ?_, ?_, h.variablesFirst, ?_⟩
    · rw [hblocks]
      exact h.finished
    · intro b hb i hi l hl
      exact hlabels ▸ h.targets i (List.mem_flatMap.mpr ⟨b, hb, hi⟩) l hl
    · rw [hblocks]
      exact hm.1

end Function

end WinCompat.Lib.Spirv
