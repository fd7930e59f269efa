import Mathlib.Order.WellFounded
import WinCompat.File.Paths
import WinCompat.Lib.HostOpen

/-!
# Copying a file

`copy_file_w` of `win32-kernel32/src/extras2.rs`, one `read(2)` or `write(2)` after the other, as
the host answers them. What was read and is not written yet is held in `Loop`, and the destination
has what was written.

The destination is cut off before the source is read, whatever it is by then, and a write that takes
nothing is tried again. So the call is as it should be unless the destination is the source, or was
made by another process after the check, or the host takes nothing for ever (`copy_intact_iff`).
-/

namespace WinCompat.File.Paths

open Lib Lib.HostTree

/-! ## The call -/

/-- What the call has opened: where it reads, the file that it writes, and the tree from then on. -/
structure Opening where
  source : Tree.Opened
  dest : Nat
  tree : Tree

/-- The loop: how much has been read, the part of the buffer that is to be written, and what has
    been written. -/
structure Loop where
  pos : Nat
  pending : List UInt8
  written : List UInt8

inductive Stage
  | copying (c : Opening) (l : Loop)
  | done (ok : Bool) (tree : Tree)

namespace Opening

/-- The tree when these bytes have been written. -/
def treeAt (c : Opening) (written : List UInt8) : Tree := c.tree.setContents c.dest written

/-- What there is still to read; a directory cannot be read. -/
def unread (c : Opening) (l : Loop) : List UInt8 :=
  match c.source with
  | .dir _ => []
  | .file k => ((c.treeAt l.written).contents k).drop l.pos

/-- A call of `read` or `write`, with its result, and what follows up to the next one. -/
def next (c : Opening) (l : Loop) (answer : Option Nat) : Stage :=
  match answer with
  | none => .done false (c.treeAt l.written)
  | some n =>
      if l.pending = [] then
        if n = 0 then .done true (c.treeAt l.written)
        else .copying c { l with pos := l.pos + n, pending := (c.unread l).take n }
      else
        .copying c { l with pending := l.pending.drop n, written := l.written ++ l.pending.take n }

/-- What the host may answer. `read` gives nothing only at the end of a file; and it fails on a
    directory. -/
def Possible (c : Opening) (l : Loop) (answer : Option Nat) : Prop :=
  ∀ n ∈ answer,
    if l.pending = [] then
      (∃ k, c.source = .file k) ∧ n ≤ 8192 ∧ n ≤ (c.unread l).length ∧ (n = 0 → c.unread l = [])
    else n ≤ l.pending.length

end Opening

/-- `copy_file_w` up to its loop. `later` is the tree in which it opens the files. -/
def openCopy (tree later : Tree) (src dst : WStr) (failIfExists : BitVec 32) : Option Opening :=
  match pathToCstring src, pathToCstring dst with
  | some srcC, some dstC =>
      if failIfExists ≠ 0 ∧ tree.exists_ dstC then none
      else
        match later.open_ srcC Tree.reading with
        | .error _ => none
        | .ok (source, opened) =>
            match opened.open_ dstC Tree.rewriting with
            | .ok (.file n, tree) => some ⟨source, n, tree⟩
            | _ => none
  | _, _ => none

/-- The file that a name leads to. -/
def fileAt (t : Tree) (name : WStr) : Option Nat := (pathToCstring name).bind t.fileAt

/-- A call with all that it meets: the tree at the check and at the opening, and the results of
    `read` and `write`. -/
structure Copy where
  tree : Tree
  later : Tree
  src : WStr
  dst : WStr
  failIfExists : BitVec 32
  answers : Nat → Option Nat

namespace Copy

def opening (o : Copy) : Option Opening := openCopy o.tree o.later o.src o.dst o.failIfExists

/-- After so many results. -/
def stage (o : Copy) : Nat → Stage
  | 0 =>
      match o.opening with
      | none => .done false o.later
      | some c => .copying c ⟨0, [], []⟩
  | i + 1 =>
      match o.stage i with
      | .copying c l => c.next l (o.answers i)
      | .done ok tree => .done ok tree

end Copy

def Stage.tree : Stage → Tree
  | copying c l => c.treeAt l.written
  | done _ tree => tree

/-- The results are ones that the host may give. What other processes do between the check and the
    opening leaves the source as it is, and files have numbers of their own. -/
structure Course extends Copy where
  possible : ∀ i c l, toCopy.stage i = .copying c l → c.Possible l (answers i)
  source_kept : ∀ k, fileAt later src = some k → later.contents k = tree.contents k
  numbered : ∀ k, fileAt later src = some k → k < later.next

/-! ## What is asked of it, and when -/

/-- What a copy owes: it ends, and then the destination has what the source had, which is
    untouched. -/
structure Copy.Intact (o : Copy) : Prop where
  ends : ∃ i ok t, o.stage i = .done ok t
  copied : ∀ i t, o.stage i = .done true t → ∃ k n, fileAt o.later o.src = some k ∧
    fileAt t o.dst = some n ∧ t.contents n = o.tree.contents k
  source : ∀ k, fileAt o.later o.src = some k →
    ∀ i, (o.stage i).tree.contents k = o.tree.contents k
  existing : o.failIfExists ≠ 0 → ∀ n, fileAt o.later o.dst = some n →
    ∀ i, (o.stage i).tree.contents n = o.later.contents n

/-- No write takes a byte. -/
def Copy.Untaken (o : Copy) : Prop :=
  ∀ i c l, o.stage i = .copying c l → l.pending ≠ [] → ∀ n ∈ o.answers i, n = 0

/-- From some write on, none takes a byte, nor fails. -/
def Copy.Stalls (o : Copy) : Prop :=
  ∃ i c l, o.stage i = .copying c l ∧ l.pending ≠ [] ∧ ∀ j, i ≤ j → o.answers j = some 0

/-- When it does. All but the last is settled once both files are open. -/
structure Copy.Safe (o : Copy) : Prop where
  /-- The two names lead to different files when they are opened, or to one that is empty. -/
  apart : o.opening ≠ none → ∀ k, fileAt o.later o.src = some k → fileAt o.later o.dst = some k →
    o.tree.contents k = []
  /-- When the destination must not exist, there is none when it is opened, or an empty one in which
      nothing is written. -/
  absent : o.failIfExists ≠ 0 → o.opening ≠ none → ∀ n, fileAt o.later o.dst = some n →
    o.later.contents n = [] ∧ o.Untaken
  moving : ¬ o.Stalls

/-! ## The opening -/

variable {c : Opening} {l l' : Loop} {o : Copy} {i j : Nat} {ok : Bool} {t : Tree}

namespace Copy

/-- What is known of the two files from the opening on. -/
structure Opened (o : Copy) (c : Opening) : Prop where
  source : ∀ k, c.source = .file k ↔ fileAt o.later o.src = some k
  before : fileAt o.later o.dst = some c.dest ∨
    fileAt o.later o.dst = none ∧ c.dest = o.later.next
  dest : fileAt c.tree o.dst = some c.dest
  empty : c.tree.contents c.dest = []
  others : ∀ m, m ≠ c.dest → c.tree.contents m = o.later.contents m

theorem openCopy_some {tree later : Tree} {src dst : WStr} {failIfExists : BitVec 32}
    (h : openCopy tree later src dst failIfExists = some c) : ∃ srcC dstC between,
      pathToCstring src = some srcC ∧ pathToCstring dst = some dstC ∧
      ¬ (failIfExists ≠ 0 ∧ tree.exists_ dstC) ∧
      later.open_ srcC Tree.reading = .ok (c.source, between) ∧
      between.open_ dstC Tree.rewriting = .ok (.file c.dest, c.tree) := by
  unfold openCopy at h
  cases hsrc : pathToCstring src with
  | none => simp [hsrc] at h
  | some srcC =>
    cases hdst : pathToCstring dst with
    | none => simp [hsrc, hdst] at h
    | some dstC =>
      by_cases hcheck : failIfExists ≠ 0 ∧ tree.exists_ dstC
      · simp only [hsrc, hdst, if_pos hcheck] at h
        cases h
      · simp only [hsrc, hdst, if_neg hcheck] at h
        cases hsource : later.open_ srcC Tree.reading with
        | error e => simp [hsource] at h
        | ok r =>
          obtain ⟨source, between⟩ := r
          simp only [hsource] at h
          cases hdest : between.open_ dstC Tree.rewriting with
          | error e => simp [hdest] at h
          | ok r =>
            obtain ⟨dest, after⟩ := r
            cases dest with
            | dir n => simp [hdest] at h
            | file n =>
              simp only [hdest, Option.some.injEq] at h
              subst h
              exact ⟨srcC, dstC, between, rfl, rfl, hcheck, hsource, hdest⟩

theorem opened (h : o.opening = some c) : o.Opened c := by
  obtain ⟨srcC, dstC, between, hsrc, hdst, -, hsource, hdest⟩ := openCopy_some h
  obtain ⟨rfl, hfile⟩ := Tree.open_reading hsource
  obtain ⟨n, hn, hbefore, hafter, hempty, hothers⟩ := Tree.open_rewriting hdest
  obtain rfl := Tree.Opened.file.inj hn
  have hsrcAt : fileAt o.later o.src = o.later.fileAt srcC := by
    rw [fileAt, hsrc, Option.bind_some]
  have hdstAt (t : Tree) : fileAt t o.dst = t.fileAt dstC := by
    rw [fileAt, hdst, Option.bind_some]
  exact
    { source := by rwa [hsrcAt]
      before := by rwa [hdstAt]
      dest := by rwa [hdstAt]
      empty := hempty
      others := hothers }

theorem stage_copying : ∀ {i : Nat} {l : Loop}, o.stage i = .copying c l → o.opening = some c := by
  intro i
  induction i with
  | zero =>
    intro l h
    unfold stage at h
    split at h
    · cases h
    · next c' hc =>
      cases h
      exact hc
  | succ i ih =>
    intro l h
    unfold stage at h
    split at h
    · next c' l' hstage =>
      have hsame : c = c' := by
        unfold Opening.next at h
        split at h
        · cases h
        · split at h
          · split at h <;> cases h
            rfl
          · cases h
            rfl
      subst hsame
      exact ih hstage
    · cases h

theorem same_opening {c' : Opening} (h : o.opening = some c) (hstage : o.stage i = .copying c' l) :
    c' = c := Option.some.inj ((stage_copying hstage).symm.trans h)

theorem stage_stays (h : o.stage i = .done ok t) (hij : i ≤ j) : o.stage j = .done ok t := by
  induction hij with
  | refl => exact h
  | step _ ih => rw [stage, ih]

end Copy

/-! ## The loop -/

namespace Opening

/-- What there is to copy. -/
def bytes (c : Opening) : List UInt8 :=
  match c.source with
  | .dir _ => []
  | .file k => c.tree.contents k

/-- What has been read is written or pending. -/
structure Sound (c : Opening) (l : Loop) : Prop where
  read : l.written ++ l.pending = c.bytes.take l.pos
  pos_le : l.pos ≤ c.bytes.length

theorem Sound.written_starts (h : c.Sound l) : l.written <+: c.bytes :=
  (List.prefix_append _ _).trans (h.read ▸ List.take_prefix _ _)

theorem unread_eq (hempty : c.tree.contents c.dest = []) (h : c.Sound l) :
    c.unread l = c.bytes.drop l.pos := by
  have hprefix := h.written_starts
  unfold unread bytes at *
  cases hsource : c.source with
  | dir n => simp
  | file k =>
    simp only [hsource] at hprefix ⊢
    by_cases hk : k = c.dest
    · subst hk
      rw [hempty] at hprefix ⊢
      rw [List.prefix_nil.mp hprefix, treeAt, Tree.contents_setContents_self]
    · rw [treeAt, Tree.contents_setContents_ne hk]

/-- How much is left to do. -/
def left (c : Opening) (l : Loop) : Nat := 2 * (c.bytes.length - l.pos) + l.pending.length

theorem next_copying {answer : Option Nat} (hempty : c.tree.contents c.dest = [])
    (hsound : c.Sound l) (hposs : c.Possible l answer) (h : c.next l answer = .copying c l') :
    c.Sound l' ∧
      (c.left l' < c.left l ∨ l' = l ∧ l.pending ≠ [] ∧ answer = some 0) := by
  cases answer with
  | none => cases h
  | some n =>
    have hposs := hposs n rfl
    rw [unread_eq hempty hsound, List.length_drop] at hposs
    simp only [next] at h
    obtain ⟨hread, hpos⟩ := hsound
    by_cases hpending : l.pending = []
    · rw [if_pos hpending] at h hposs
      obtain ⟨-, -, hn, -⟩ := hposs
      split at h
      · cases h
      · next hzero =>
        cases h
        have hlen : ((c.unread l).take n).length = n := by
          rw [unread_eq hempty ⟨hread, hpos⟩, List.length_take, List.length_drop]
          omega
        refine ⟨⟨?_, ?_⟩, Or.inl ?_⟩
        · rw [hpending, List.append_nil] at hread
          rw [unread_eq hempty ⟨by rw [hpending, List.append_nil, hread], hpos⟩, hread,
            List.take_add]
        · dsimp only
          omega
        · simp only [left, hlen, hpending, List.length_nil]
          omega
    · rw [if_neg hpending] at h hposs
      cases h
      refine ⟨⟨?_, hpos⟩, ?_⟩
      · rw [List.append_assoc, List.take_append_drop, hread]
      · rcases Nat.eq_zero_or_pos n with rfl | hn
        · exact Or.inr ⟨by simp, hpending, rfl⟩
        · have hlen := List.length_pos_of_ne_nil hpending
          refine Or.inl ?_
          simp only [left, List.length_drop]
          omega

theorem next_done {answer : Option Nat} (hempty : c.tree.contents c.dest = [])
    (hsound : c.Sound l) (hposs : c.Possible l answer) (h : c.next l answer = .done ok t) :
    t = c.treeAt l.written ∧
      (ok = true → ∃ k, c.source = .file k ∧ l.written = c.tree.contents k) := by
  cases answer with
  | none =>
    cases h
    exact ⟨rfl, fun h => absurd h (by simp)⟩
  | some n =>
    have hposs := hposs n rfl
    rw [unread_eq hempty hsound] at hposs
    simp only [next] at h
    obtain ⟨hread, hpos⟩ := hsound
    split at h
    · next hpending =>
      rw [if_pos hpending] at hposs
      obtain ⟨⟨k, hk⟩, -, -, hend⟩ := hposs
      split at h
      · next hzero =>
        cases h
        refine ⟨rfl, fun _ => ⟨k, hk, ?_⟩⟩
        have hall : c.bytes.length ≤ l.pos := List.drop_eq_nil_iff.mp (hend hzero)
        rw [hpending, List.append_nil, List.take_of_length_le hall] at hread
        rw [hread, bytes, hk]
      · cases h
    · cases h

end Opening

/-! ## The whole call -/

namespace Course

variable {o : Course}

theorem stage_none (h : o.opening = none) (i : Nat) : o.stage i = .done false o.later := by
  have hstart : o.stage 0 = .done false o.later := by rw [Copy.stage, h]
  exact Copy.stage_stays hstart (Nat.zero_le i)

theorem stage_zero (h : o.opening = some c) : o.stage 0 = .copying c ⟨0, [], []⟩ := by
  rw [Copy.stage, h]

theorem stage_succ (h : o.stage i = .copying c l) : o.stage (i + 1) = c.next l (o.answers i) := by
  rw [Copy.stage, h]

theorem sound_stage : ∀ {i : Nat} {l : Loop}, o.stage i = .copying c l → c.Sound l := by
  intro i
  induction i with
  | zero =>
    intro l h
    have hc := Copy.stage_copying h
    rw [stage_zero hc] at h
    cases h
    exact ⟨rfl, Nat.zero_le _⟩
  | succ i ih =>
    intro l h
    have hempty := (Copy.opened (Copy.stage_copying h)).empty
    cases hstage : o.stage i with
    | done ok tree =>
      rw [Copy.stage_stays hstage (Nat.le_succ i)] at h
      cases h
    | copying c' l' =>
      obtain rfl := Copy.same_opening (Copy.stage_copying h) hstage
      rw [stage_succ hstage] at h
      exact (Opening.next_copying hempty (ih hstage) (o.possible i c' l' hstage) h).1

theorem tree_stage (h : o.opening = some c) :
    ∀ i, ∃ w, (o.stage i).tree = c.treeAt w ∧ w <+: c.bytes := by
  have hempty := (Copy.opened h).empty
  intro i
  induction i with
  | zero => exact ⟨[], by rw [stage_zero h]; rfl, List.nil_prefix⟩
  | succ i ih =>
    cases hstage : o.stage i with
    | done ok tree =>
      rw [Copy.stage_stays hstage (Nat.le_succ i), ← hstage]
      exact ih
    | copying c' l =>
      obtain rfl := Copy.same_opening h hstage
      have hsound := sound_stage hstage
      have hposs := o.possible i c' l hstage
      rw [stage_succ hstage]
      cases hnext : c'.next l (o.answers i) with
      | done ok tree =>
        obtain ⟨rfl, -⟩ := Opening.next_done hempty hsound hposs hnext
        exact ⟨l.written, rfl, hsound.written_starts⟩
      | copying c'' l' =>
        have hstage' : o.stage (i + 1) = .copying c'' l' := (stage_succ hstage).trans hnext
        obtain rfl := Copy.same_opening h hstage'
        exact ⟨l'.written, rfl, (sound_stage hstage').written_starts⟩

theorem done_true : ∀ {i : Nat}, o.stage i = .done true t → ∃ c k, o.opening = some c ∧
    c.source = .file k ∧ t = c.treeAt (c.tree.contents k) := by
  intro i
  induction i with
  | zero =>
    intro h
    cases hc : o.opening with
    | none =>
      rw [stage_none hc] at h
      cases h
    | some c =>
      rw [stage_zero hc] at h
      cases h
  | succ i ih =>
    intro h
    cases hstage : o.stage i with
    | done ok tree =>
      rw [Copy.stage_stays hstage (Nat.le_succ i)] at h
      exact ih (hstage.trans h)
    | copying c l =>
      have hc := Copy.stage_copying hstage
      rw [stage_succ hstage] at h
      obtain ⟨rfl, hall⟩ := Opening.next_done (Copy.opened hc).empty (sound_stage hstage)
        (o.possible i c l hstage) h
      obtain ⟨k, hk, hwritten⟩ := hall rfl
      exact ⟨c, k, hc, hk, by rw [hwritten]⟩

/-! ## Whether it ends -/

def left (o : Course) (i : Nat) : Nat :=
  match o.stage i with
  | .copying c l => c.left l
  | .done _ _ => 0

theorem ends_or_stalls (o : Course) : (∃ i ok t, o.stage i = .done ok t) ∨ o.Stalls := by
  by_contra hneither
  obtain ⟨hends, hstalls⟩ := not_or.mp hneither
  have hcopying (i : Nat) : ∃ c l, o.stage i = .copying c l := by
    cases hstage : o.stage i with
    | copying c l => exact ⟨c, l, rfl⟩
    | done ok t => exact absurd ⟨i, ok, t, hstage⟩ hends
  have hstep (i : Nat) : o.left (i + 1) < o.left i ∨
      o.left (i + 1) = o.left i ∧ (∃ c l, o.stage i = .copying c l ∧ l.pending ≠ []) ∧
        o.answers i = some 0 := by
    obtain ⟨c, l, hstage⟩ := hcopying i
    obtain ⟨c', l', hstage'⟩ := hcopying (i + 1)
    obtain rfl := Copy.same_opening (Copy.stage_copying hstage) hstage'
    have hnext := (stage_succ hstage).symm.trans hstage'
    have hempty := (Copy.opened (Copy.stage_copying hstage)).empty
    unfold left
    rw [hstage, hstage']
    rcases (Opening.next_copying hempty (sound_stage hstage) (o.possible i c' l hstage)
      hnext).2 with hless | ⟨rfl, hpending, hanswer⟩
    · exact Or.inl hless
    · exact Or.inr ⟨rfl, ⟨c', l', rfl, hpending⟩, hanswer⟩
  -- where the least is left, it stays so
  obtain ⟨i, hi⟩ : ∃ i, ∀ j, o.left i ≤ o.left j :=
    ⟨Function.argmin o.left, fun j => Function.argmin_le o.left j⟩
  have hstays (j : Nat) (hij : i ≤ j) : o.left j = o.left i := by
    induction hij with
    | refl => rfl
    | step _ ih =>
      refine Nat.le_antisymm ?_ (hi _)
      rw [← ih]
      rcases hstep _ with hless | ⟨heq, -⟩
      · exact Nat.le_of_lt hless
      · exact Nat.le_of_eq heq
  have hidle (j : Nat) (hij : i ≤ j) := (hstep j).resolve_left (by
    rw [hstays j hij, hstays (j + 1) (Nat.le_succ_of_le hij)]
    exact Nat.lt_irrefl _)
  obtain ⟨-, ⟨c, l, hstage, hpending⟩, -⟩ := hidle i (Nat.le_refl i)
  exact hstalls ⟨i, c, l, hstage, hpending, fun j hij => (hidle j hij).2.2⟩

theorem stalls_stays (h : o.Stalls) : ¬ ∃ i ok t, o.stage i = .done ok t := by
  obtain ⟨i, c, l, hstage, hpending, hidle⟩ := h
  have hstays (j : Nat) (hij : i ≤ j) : o.stage j = .copying c l := by
    induction hij with
    | refl => exact hstage
    | @step j hij ih =>
      rw [stage_succ ih, hidle j hij]
      simp [Opening.next, hpending]
  rintro ⟨j, ok, t, hdone⟩
  have hlast := Copy.stage_stays hdone (Nat.le_max_left j i)
  rw [hstays _ (Nat.le_max_right j i)] at hlast
  cases hlast

/-! ## Together -/

theorem contents_dest (c : Opening) (w : List UInt8) : (c.treeAt w).contents c.dest = w :=
  Tree.contents_setContents_self _ _ _

theorem contents_other (h : o.Opened c) {m : Nat} (hm : m ≠ c.dest) (w : List UInt8) :
    (c.treeAt w).contents m = o.later.contents m := by
  rw [Opening.treeAt, Tree.contents_setContents_ne hm, h.others m hm]

theorem same_iff (h : o.Opened c) {k : Nat} (hk : fileAt o.later o.src = some k) :
    k = c.dest ↔ fileAt o.later o.dst = some k := by
  have hlt := o.numbered k hk
  rcases h.before with hbefore | ⟨hbefore, hnew⟩
  · rw [hbefore, Option.some_inj, eq_comm]
  · rw [hbefore, hnew]
    exact iff_of_false (Nat.ne_of_lt hlt) (by simp)

theorem source_iff (h : o.opening = some c) {k : Nat} (hk : fileAt o.later o.src = some k) :
    (∀ i, (o.stage i).tree.contents k = o.tree.contents k) ↔
      (fileAt o.later o.dst = some k → o.tree.contents k = []) := by
  have hopened := Copy.opened h
  rw [← same_iff hopened hk]
  constructor
  · rintro hkept rfl
    rw [← hkept 0, stage_zero h]
    exact contents_dest c []
  · intro hapart i
    obtain ⟨w, htree, hprefix⟩ := tree_stage h i
    rw [htree]
    by_cases hsame : k = c.dest
    · have hsource : c.source = .file k := (hopened.source k).mpr hk
      have hbytes : c.bytes = [] := by
        rw [Opening.bytes, hsource, hsame]
        exact hopened.empty
      rw [hbytes] at hprefix
      rw [hapart hsame, hsame, List.prefix_nil.mp hprefix]
      exact contents_dest c []
    · rw [contents_other hopened hsame, o.source_kept k hk]

theorem untaken_iff (h : o.opening = some c) :
    (∀ i, (o.stage i).tree.contents c.dest = []) ↔ o.Untaken := by
  have hempty := (Copy.opened h).empty
  constructor
  · intro hkept i c' l hstage hpending n hn
    obtain rfl := Copy.same_opening h hstage
    have hafter := hkept (i + 1)
    rw [stage_succ hstage, Option.mem_def.mp hn] at hafter
    simp only [Opening.next, if_neg hpending, Stage.tree, contents_dest] at hafter
    have htaken := (List.append_eq_nil_iff.mp hafter).2
    simpa [hpending] using htaken
  · intro huntaken
    have hwritten : ∀ i, (o.stage i).tree = c.treeAt [] := by
      intro i
      induction i with
      | zero => rw [stage_zero h]; rfl
      | succ i ih =>
        cases hstage : o.stage i with
        | done ok tree =>
          rw [Copy.stage_stays hstage (Nat.le_succ i), ← hstage]
          exact ih
        | copying c' l =>
          obtain rfl := Copy.same_opening h hstage
          have hnil : l.written = [] := by
            have hcontents := congrArg (fun t => t.contents c'.dest) ih
            rw [hstage] at hcontents
            simpa only [Stage.tree, contents_dest] using hcontents
          rw [stage_succ hstage]
          cases hanswer : o.answers i with
          | none => simp only [Opening.next, Stage.tree, hnil]
          | some n =>
            by_cases hpending : l.pending = []
            · by_cases hn : n = 0
              · simp only [Opening.next, hpending, hn, if_true, Stage.tree, hnil]
              · simp only [Opening.next, hpending, hn, if_true, if_false, Stage.tree, hnil]
            · have hn := huntaken i c' l hstage hpending n hanswer
              simp [Opening.next, hpending, hn, Stage.tree, hnil]
    intro i
    rw [hwritten i]
    exact contents_dest c []

theorem existing_iff (h : o.opening = some c) {n : Nat} (hn : fileAt o.later o.dst = some n) :
    (∀ i, (o.stage i).tree.contents n = o.later.contents n) ↔
      o.later.contents n = [] ∧ o.Untaken := by
  have hdest : n = c.dest := by
    rcases (Copy.opened h).before with hbefore | ⟨hbefore, -⟩
    · exact Option.some.inj (hn.symm.trans hbefore)
    · exact absurd (hn.symm.trans hbefore) (by simp)
  rw [hdest, ← untaken_iff h]
  constructor
  · intro hkept
    have hnil : o.later.contents c.dest = [] := by
      rw [← hkept 0, stage_zero h]
      exact contents_dest c []
    rw [hnil] at hkept
    exact ⟨hnil, hkept⟩
  · rintro ⟨hnil, hkept⟩
    rw [hnil]
    exact hkept

theorem copied (hapart : o.opening ≠ none → ∀ k, fileAt o.later o.src = some k →
      fileAt o.later o.dst = some k → o.tree.contents k = [])
    (h : o.stage i = .done true t) : ∃ k n, fileAt o.later o.src = some k ∧
      fileAt t o.dst = some n ∧ t.contents n = o.tree.contents k := by
  obtain ⟨c, k, hc, hsource, rfl⟩ := done_true h
  have hopened := Copy.opened hc
  have hk := (hopened.source k).mp hsource
  have hdest : fileAt (c.treeAt (c.tree.contents k)) o.dst = some c.dest := by
    rw [← hopened.dest]
    exact congrArg _ (funext fun _ => Tree.fileAt_setContents _)
  refine ⟨k, c.dest, hk, hdest, ?_⟩
  rw [contents_dest]
  by_cases hsame : k = c.dest
  · rw [hapart (by simp [hc]) k hk ((same_iff hopened hk).mp hsame), hsame, hopened.empty]
  · rw [hopened.others k hsame, o.source_kept k hk]

end Course

/-- `copy_file_w` copies or leaves things alone exactly if the files are apart when they are opened,
    none is there that must not be, and the writes get on. -/
theorem copy_intact_iff (o : Course) : o.Intact ↔ o.Safe := by
  constructor
  · intro h
    refine ⟨fun hopen k hk => ?_, fun hflag hopen n hn => ?_, fun hstalls => ?_⟩
    · obtain ⟨c, hc⟩ := Option.ne_none_iff_exists'.mp hopen
      exact (Course.source_iff hc hk).mp (h.source k hk)
    · obtain ⟨c, hc⟩ := Option.ne_none_iff_exists'.mp hopen
      exact (Course.existing_iff hc hn).mp (h.existing hflag n hn)
    · exact Course.stalls_stays hstalls h.ends
  · intro h
    refine ⟨o.ends_or_stalls.resolve_right h.moving, fun i t => Course.copied h.apart,
      fun k hk => ?_, fun hflag n hn => ?_⟩
    · cases hc : o.opening with
      | none =>
        intro i
        rw [Course.stage_none hc]
        exact o.source_kept k hk
      | some c => exact (Course.source_iff hc hk).mpr (h.apart (by simp [hc]) k hk)
    · cases hc : o.opening with
      | none =>
        intro i
        rw [Course.stage_none hc]
        rfl
      | some c => exact (Course.existing_iff hc hn).mpr (h.absent hflag (by simp [hc]) n hn)

/-! ## Calls that go wrong -/

/-- The file `a` with one byte, and nothing else. -/
def oneFile : Tree where
  entries := [((0, [97]), .file 1)]
  parent := fun _ => 0
  cwd := 0
  contents := fun _ => [42]
  next := 2
  oneName := by
    intro k k' n h
    simp at h
  below := by
    intro k n h
    simp at h

/-- Every `read` and `write` fails. -/
def failing (later : Tree) (dst : List Utf16.CodeUnit) (failIfExists : BitVec 32)
    (hkept : ∀ k, fileAt later (some [0x61]) = some k → later.contents k = [42])
    (hnumbered : ∀ k, fileAt later (some [0x61]) = some k → k < later.next) : Course where
  tree := oneFile
  later := later
  src := some [0x61]
  dst := some dst
  failIfExists := failIfExists
  answers := fun _ => none
  possible := fun _ _ _ _ _ hn => absurd hn (by simp)
  source_kept := hkept
  numbered := hnumbered

/-- `a` is copied to `./a`. -/
def toItself : Course :=
  failing oneFile [0x2E, 0x2F, 0x61] 0 (fun _ _ => rfl) fun k hk => by
    obtain rfl : 1 = k := Option.some.inj ((show fileAt oneFile (some [0x61]) = some 1 by
      decide).symm.trans hk)
    decide

/-- `a` is copied to `b`, which must not exist, and is made before it is opened. -/
def created : Course :=
  failing (oneFile.addFile 0 [98] |>.setContents 2 [7]) [0x62] 1
    (fun k hk => by
      obtain rfl : 1 = k := Option.some.inj ((show fileAt _ (some [0x61]) = some 1 by
        decide).symm.trans hk)
      rfl)
    fun k hk => by
      obtain rfl : 1 = k := Option.some.inj ((show fileAt _ (some [0x61]) = some 1 by
        decide).symm.trans hk)
      decide

/-- The one loses its source, the other the file that must not be touched. -/
theorem toItself_created : ¬ toItself.Intact ∧ ¬ created.Intact := by
  constructor
  · intro h
    have hcut : (toItself.stage 0).tree.contents 1 = [] := by decide
    have hkept := h.source 1 (by decide) 0
    rw [hcut] at hkept
    exact absurd hkept (by decide)
  · intro h
    have hcut : (created.stage 0).tree.contents 2 = [] := by decide
    have hkept := h.existing (by decide) 2 (by decide) 0
    rw [hcut] at hkept
    exact absurd hkept (by decide)

/-! ## Calls in one step -/

theorem copyFileW_of_done {o : Course} {s : State} (htree : o.tree = s.tree)
    (hlater : o.later = s.tree) (h : o.stage i = .done true t) :
    s.copyFileW o.src o.dst o.failIfExists = (true, s.setTree t) := by
  obtain ⟨c, k, hc, hsource, rfl⟩ := Course.done_true h
  obtain ⟨srcC, dstC, between, hsrc, hdst, hcheck, hopen, hdest⟩ := Copy.openCopy_some hc
  rw [htree] at hcheck
  rw [hlater] at hopen
  simp only [Tree.reading, Tree.rewriting] at hopen hdest
  simp only [State.copyFileW, hsrc, hdst, if_neg hcheck, hopen, hdest, hsource]
  rfl

/-- `a` has five bytes and is copied to `b`. The first `read` gives three of them, and the `write` of
    these takes two and then one. -/
def fiveCopy : Copy where
  tree := oneFile.setContents 1 [1, 2, 3, 4, 5]
  later := oneFile.setContents 1 [1, 2, 3, 4, 5]
  src := some [0x61]
  dst := some [0x62]
  failIfExists := 0
  answers i := [3, 2, 1, 2, 2, 0][i]?

theorem fiveCopy_ends : ∃ t, fiveCopy.stage 6 = .done true t ∧ t.contents 2 = [1, 2, 3, 4, 5] :=
  ⟨_, rfl, rfl⟩

theorem fiveCopy_possible (i : Nat) (c : Opening) (l : Loop)
    (h : fiveCopy.stage i = .copying c l) : c.Possible l (fiveCopy.answers i) := by
  by_cases hi : 6 ≤ i
  · obtain ⟨t, ht, -⟩ := fiveCopy_ends
    cases h.symm.trans (Copy.stage_stays ht hi)
  · match i, hi with
    -- a `read`
    | 0, _ | 3, _ | 5, _ =>
      obtain ⟨rfl, rfl⟩ := Stage.copying.inj (h.symm.trans rfl)
      rintro n ⟨⟩
      exact ⟨⟨1, rfl⟩, by decide, by decide, by decide⟩
    -- a `write`
    | 1, _ | 2, _ | 4, _ =>
      obtain ⟨rfl, rfl⟩ := Stage.copying.inj (h.symm.trans rfl)
      rintro n ⟨⟩
      exact Nat.le_of_ble_eq_true rfl
    | i + 6, hi => exact absurd (Nat.le_add_left 6 i) hi

theorem fiveCopy_numbered (k : Nat) (hk : fileAt fiveCopy.later fiveCopy.src = some k) :
    k < fiveCopy.later.next := by
  obtain rfl : 1 = k := Option.some.inj ((show fileAt _ (some [0x61]) = some 1 by
    decide).symm.trans hk)
  decide

def fiveCourse : Course := ⟨fiveCopy, fiveCopy_possible, fun _ _ => rfl, fiveCopy_numbered⟩

/-- The process that makes this call. -/
def fiveState : State := ⟨fiveCopy.tree, fun _ => none, 0x100, 0⟩

theorem copyFileW_of_done_fiveCourse : ∃ t, fiveCourse.stage 6 = .done true t ∧
    t.contents 2 = [1, 2, 3, 4, 5] ∧
    fiveState.copyFileW (some [0x61]) (some [0x62]) 0 = (true, fiveState.setTree t) := by
  obtain ⟨t, ht, hcopied⟩ := fiveCopy_ends
  exact ⟨t, ht, hcopied, copyFileW_of_done (o := fiveCourse) (s := fiveState) rfl rfl ht⟩

end WinCompat.File.Paths
