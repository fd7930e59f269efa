import WinCompat.Loader.Arena

/-!
# Handed-out code stays where it is

The invariant behind `Stable`. A span is in a retired block or below the cursor of the live one; the
live block is apart from the retired ones and from every block of every other arena, because the
kernel maps only what was not mapped. So neither code emitted later nor a new block touches it.
-/

namespace WinCompat.Loader

open Lib Lib.Paging
open Lib.Bytes (Word)

/-! ## Blocks -/

/-- No page in common. -/
def Block.Apart (b b' : Block) : Prop := b.page + b.count ≤ b'.page ∨ b'.page + b'.count ≤ b.page

namespace Block

variable {b b' : Block}

theorem Apart.symm (h : b.Apart b') : b'.Apart b := Or.symm h

theorem Apart.not_hasPage (h : b.Apart b') {i : Nat} (hi : b.HasPage i) : ¬ b'.HasPage i := by
  intro hi'
  unfold HasPage InRange at hi hi'
  unfold Apart at h
  omega

theorem hasPage_div {x : Nat} (hlow : b.base ≤ x) (hhigh : x < b.base + b.len) :
    b.HasPage (x / pageSize) := by
  have hpos : 0 < pageSize := by decide
  constructor
  · exact (Nat.le_div_iff_mul_le hpos).mpr hlow
  · rw [Nat.div_lt_iff_lt_mul hpos, Nat.add_mul]
    exact hhigh

theorem Contains.hasPage {sp : Span} (h : b.Contains sp) {x : Nat} (hlow : sp.addr ≤ x)
    (hhigh : x < sp.addr + sp.code.length) : b.HasPage (x / pageSize) :=
  hasPage_div (Nat.le_trans h.1 hlow) (Nat.lt_of_lt_of_le hhigh h.2)

theorem Apart.base_le (h : b.Apart b') :
    b.base + b.len ≤ b'.base ∨ b'.base + b'.len ≤ b.base := by
  unfold base len
  rw [← Nat.add_mul, ← Nat.add_mul]
  exact h.imp (Nat.mul_le_mul_right _) (Nat.mul_le_mul_right _)

theorem Apart.spans (h : b.Apart b') {sp sp' : Span} (hsp : b.Contains sp)
    (hsp' : b'.Contains sp') : sp.Apart sp' := by
  unfold Contains at hsp hsp'
  rcases h.base_le with hle | hle
  · exact Or.inl (by omega)
  · exact Or.inr (by omega)

theorem apart_of_unmapped {space : Space} (hmapped : ∀ i, b.HasPage i → (space i).isSome)
    (hfree : Unmapped space b'.page b'.count) (hpos : 0 < b.count) (hpos' : 0 < b'.count) :
    b.Apart b' := by
  by_contra hnot
  unfold Apart at hnot
  have hin : b.HasPage (max b.page b'.page) := by
    unfold HasPage InRange
    omega
  have hin' : b'.HasPage (max b.page b'.page) := by
    unfold HasPage InRange
    omega
  have hsome := hmapped _ hin
  rw [hfree _ hin'] at hsome
  exact Bool.noConfusion hsome

end Block

theorem roundUp_mod (n page : Nat) : roundUp n page % page = 0 := Nat.mul_mod_left _ _

theorem le_roundUp (n : Nat) {page : Nat} (hpage : 0 < page) : n ≤ roundUp n page := by
  have hdiv := Nat.div_add_mod (n + page - 1) page
  have hmod := Nat.mod_lt (n + page - 1) hpage
  unfold roundUp
  rw [Nat.mul_comm]
  omega

theorem Arena.mem_blocks {a : Arena} {b : Block} :
    b ∈ a.blocks ↔ b ∈ a.retired ∨ b = a.block := by
  simp [Arena.blocks]

/-! ## The invariant -/

/-- The protection an arena's blocks have. -/
def Holder.prot (h : Holder) : Prot := if h.atSeal.isSome then .readExec else .readWrite

/-- One arena. -/
structure Holder.Ok (space : Space) (h : Holder) : Prop where
  pos : ∀ b ∈ h.arena.blocks, 0 < b.count
  prot : ∀ b ∈ h.arena.blocks, ∀ i, b.HasPage i → (space i).map Page.prot = some h.prot
  fits : h.arena.cursor ≤ h.arena.block.len
  retired : ∀ b ∈ h.arena.retired, b.Apart h.arena.block
  placed : ∀ sp ∈ h.spans, (∃ b ∈ h.arena.retired, b.Contains sp) ∨
    h.arena.block.base ≤ sp.addr ∧
      sp.addr + sp.code.length ≤ h.arena.block.base + h.arena.cursor
  disjoint : h.spans.Pairwise Span.Apart
  intact : ∀ sp ∈ h.spans, Holds space sp.addr sp.code
  sealed_eq : h.arena.sealed = h.atSeal.isSome
  closed : ∀ l, h.atSeal = some l → h.spans = l

structure ArenaInv (s : ArenaState) : Prop where
  holder : ∀ k h, s.arenas k = some h → h.Ok s.space
  apart : ∀ k k' h h', k ≠ k' → s.arenas k = some h → s.arenas k' = some h' →
    ∀ b ∈ h.arena.blocks, ∀ b' ∈ h'.arena.blocks, b.Apart b'

namespace Holder

variable {space space' : Space} {h : Holder}

theorem Ok.mapped (hok : h.Ok space) {b : Block} (hb : b ∈ h.arena.blocks) {i : Nat}
    (hi : b.HasPage i) : (space i).isSome := by
  have hprot := hok.prot b hb i hi
  obtain ⟨pg, hpg, -⟩ := Option.map_eq_some_iff.mp hprot
  rw [hpg]
  rfl

theorem Ok.contained (hok : h.Ok space) {sp : Span} (hsp : sp ∈ h.spans) :
    ∃ b ∈ h.arena.blocks, b.Contains sp := by
  rcases hok.placed sp hsp with ⟨b, hb, hin⟩ | ⟨hlow, hhigh⟩
  · exact ⟨b, Arena.mem_blocks.mpr (Or.inl hb), hin⟩
  · have hfits := hok.fits
    exact ⟨_, Arena.mem_blocks.mpr (Or.inr rfl), hlow, by omega⟩

/-- Only the arena's own pages matter to it. -/
theorem Ok.congr (hok : h.Ok space)
    (heq : ∀ b ∈ h.arena.blocks, ∀ i, b.HasPage i → space' i = space i) : h.Ok space' where
  pos := hok.pos
  prot b hb i hi := by
    rw [heq b hb i hi]
    exact hok.prot b hb i hi
  fits := hok.fits
  retired := hok.retired
  placed := hok.placed
  disjoint := hok.disjoint
  intact sp hsp := by
    obtain ⟨b, hb, hin⟩ := hok.contained hsp
    apply (hok.intact sp hsp).congr
    intro x hlow hhigh
    unfold getByte
    rw [heq b hb _ (hin.hasPage hlow hhigh)]
  sealed_eq := hok.sealed_eq
  closed := hok.closed

/-! ## What the calls do to one arena -/

/-- A fresh block of its own. -/
def grown (h : Holder) (b : Block) : Holder :=
  { h with arena := ⟨b, 0, false, h.arena.retired ++ [h.arena.block]⟩ }

theorem Ok.grow (hok : h.Ok space) (hopen : h.atSeal = none) {b : Block} (hpos : 0 < b.count)
    (hfree : Unmapped space b.page b.count) :
    (h.grown b).Ok (mapZero space b.page b.count .readWrite) := by
  have hapart : ∀ b' ∈ h.arena.blocks, b'.Apart b := fun b' hb' =>
    Block.apart_of_unmapped (fun i hi => hok.mapped hb' hi) hfree (hok.pos b' hb') hpos
  have hkeep : h.Ok (mapZero space b.page b.count .readWrite) := by
    apply hok.congr
    intro b' hb' i hi
    exact mapZero_of_not_inRange ((hapart b' hb').not_hasPage hi)
  have hblocks : ∀ b', b' ∈ (h.grown b).arena.blocks ↔ b' ∈ h.arena.blocks ∨ b' = b := by
    intro b'
    rw [Arena.mem_blocks]
    rfl
  constructor
  · intro b' hb'
    rcases (hblocks b').mp hb' with hold | rfl
    · exact hok.pos b' hold
    · exact hpos
  · intro b' hb' i hi
    rcases (hblocks b').mp hb' with hold | rfl
    · exact hkeep.prot b' hold i hi
    · rw [mapZero_of_inRange hi]
      simp [Holder.prot, grown, hopen]
  · exact Nat.zero_le _
  · exact hapart
  · intro sp hsp
    exact Or.inl (hok.contained hsp)
  · exact hok.disjoint
  · exact hkeep.intact
  · simp [grown, hopen]
  · exact hok.closed

/-- Code is put at an offset not below the cursor. -/
def placedAt (h : Holder) (off : Nat) (code : List Byte) : Holder :=
  { h with
    arena := { h.arena with cursor := off + code.length }
    spans := ⟨h.arena.block.base + off, code⟩ :: h.spans }

theorem Ok.place (hok : h.Ok space) (hopen : h.atSeal = none) {off : Nat} {code : List Byte}
    (hoff : h.arena.cursor ≤ off) (hfits : off + code.length ≤ h.arena.block.len) :
    (h.placedAt off code).Ok (storeBytes space (h.arena.block.base + off) code) := by
  have hlive : h.arena.block ∈ h.arena.blocks := Arena.mem_blocks.mpr (Or.inr rfl)
  have hnew : h.arena.block.Contains ⟨h.arena.block.base + off, code⟩ := by
    constructor
    · exact Nat.le_add_right _ _
    · simp only [Nat.add_assoc]
      exact Nat.add_le_add_left hfits _
  have hapart : ∀ sp ∈ h.spans, Span.Apart ⟨h.arena.block.base + off, code⟩ sp := by
    intro sp hsp
    rcases hok.placed sp hsp with ⟨b, hb, hin⟩ | ⟨-, hhigh⟩
    · exact (hok.retired b hb).symm.spans hnew hin
    · right
      simp only
      omega
  constructor
  · exact hok.pos
  · intro b hb i hi
    rw [storeBytes_prot]
    exact hok.prot b hb i hi
  · exact hfits
  · exact hok.retired
  · intro sp hsp
    simp only [placedAt] at hsp ⊢
    rcases List.mem_cons.mp hsp with rfl | hold
    · right
      simp only
      omega
    · rcases hok.placed sp hold with hret | ⟨hlow, hhigh⟩
      · exact Or.inl hret
      · exact Or.inr ⟨hlow, by omega⟩
  · exact List.pairwise_cons.mpr ⟨hapart, hok.disjoint⟩
  · intro sp hsp
    rcases List.mem_cons.mp hsp with rfl | hold
    · apply holds_storeBytes
      intro x hlow hhigh
      exact hok.mapped hlive (hnew.hasPage hlow hhigh)
    · apply (hok.intact sp hold).congr
      intro x hlow hhigh
      apply getByte_storeBytes_of_not_mem
      have := hapart sp hold
      unfold Span.Apart at this
      simp only at this
      omega
  · exact hok.sealed_eq
  · intro l hl
    simp [placedAt, hopen] at hl

theorem ok_new {b : Block} (hpos : 0 < b.count) :
    Holder.Ok (mapZero space b.page b.count .readWrite) ⟨⟨b, 0, false, []⟩, [], none⟩ := by
  constructor
  · intro b' hb'
    cases List.mem_singleton.mp hb'
    exact hpos
  · intro b' hb' i hi
    cases List.mem_singleton.mp hb'
    rw [mapZero_of_inRange hi]
    rfl
  · exact Nat.zero_le _
  · simp
  · simp
  · exact List.Pairwise.nil
  · simp
  · rfl
  · simp

end Holder

/-! ## `finalize` -/

theorem sealBlocks_of_mapped : ∀ {bs : List Block} {space : Space},
    (∀ b ∈ bs, ∀ i, b.HasPage i → (space i).isSome) →
      (sealBlocks space bs).1 = .ok () ∧
      (∀ i, (∃ b ∈ bs, b.HasPage i) →
        ((sealBlocks space bs).2 i).map Page.prot = some .readExec) ∧
      (∀ i, ¬ (∃ b ∈ bs, b.HasPage i) → (sealBlocks space bs).2 i = space i) ∧
      ∀ x, getByte (sealBlocks space bs).2 x = getByte space x := by
  intro bs
  induction bs with
  | nil =>
    intro space _
    simp [sealBlocks]
  | cons b bs ih =>
    intro space hmapped
    have hb : Mapped space b.page b.count := hmapped b List.mem_cons_self
    have hrest : ∀ b' ∈ bs, ∀ i, b'.HasPage i →
        (protect space b.page b.count .readExec i).isSome := by
      intro b' hb' i hi
      rw [protect_isSome]
      exact hmapped b' (List.mem_cons_of_mem _ hb') i hi
    obtain ⟨hok, hsealed, hkept, hbytes⟩ := ih hrest
    have heq : sealBlocks space (b :: bs) =
        sealBlocks (protect space b.page b.count .readExec) bs := by
      simp [sealBlocks, mprotect_of_mapped hb]
    rw [heq]
    refine ⟨hok, ?_, ?_, ?_⟩
    · intro i hi
      by_cases hlater : ∃ b' ∈ bs, b'.HasPage i
      · exact hsealed i hlater
      · -- A page of the first block that no later one has.
        have hin : b.HasPage i := by
          obtain ⟨b', hb', hi'⟩ := hi
          rcases List.mem_cons.mp hb' with rfl | hb'
          · exact hi'
          · exact absurd ⟨b', hb', hi'⟩ hlater
        obtain ⟨pg, hpg⟩ := Option.isSome_iff_exists.mp (hb i hin)
        rw [hkept i hlater, protect_of_inRange hin, hpg]
        rfl
    · intro i hi
      rw [hkept i fun ⟨b', hb', hi'⟩ => hi ⟨b', List.mem_cons_of_mem _ hb', hi'⟩]
      exact protect_of_not_inRange fun hin => hi ⟨b, List.mem_cons_self, hin⟩
    · intro x
      rw [hbytes, getByte_protect]

namespace Holder

variable {space space' : Space} {h : Holder}

theorem Ok.seal (hok : h.Ok space) (hopen : h.atSeal = none) :
    (h.seal { h.arena with sealed := true }).Ok (sealBlocks space h.arena.blocks).2 := by
  obtain ⟨-, hsealed, -, hbytes⟩ := sealBlocks_of_mapped fun b hb i hi => hok.mapped hb hi
  constructor
  · exact hok.pos
  · intro b hb i hi
    rw [hsealed i ⟨b, hb, hi⟩]
    rfl
  · exact hok.fits
  · exact hok.retired
  · exact hok.placed
  · exact hok.disjoint
  · intro sp hsp
    exact (hok.intact sp hsp).congr fun x _ _ => hbytes x
  · rfl
  · intro l hl
    simpa [Holder.seal, hopen] using hl

theorem Ok.seal_again (hok : h.Ok space) (hsealed : h.arena.sealed = true) :
    h.seal h.arena = h := by
  rw [hok.sealed_eq] at hsealed
  obtain ⟨l, hl⟩ := Option.isSome_iff_exists.mp hsealed
  unfold Holder.seal
  rw [hl, Option.getD_some, ← hl]

end Holder

/-! ## One step -/

variable {s s' : ArenaState} {k : Nat}

theorem ArenaInv.setHolder (hinv : ArenaInv s) {space : Space} {h : Holder} (hok : h.Ok space)
    (hkept : ∀ i, (∀ b ∈ h.arena.blocks, ¬ b.HasPage i) → space i = s.space i)
    (hapart : ∀ k' h', k ≠ k' → s.arenas k' = some h' →
      ∀ b ∈ h.arena.blocks, ∀ b' ∈ h'.arena.blocks, b.Apart b') :
    ArenaInv (s.setHolder k space h) := by
  have hother : ∀ k', k' ≠ k → (s.setHolder k space h).arenas k' = s.arenas k' := fun k' hk' =>
    Function.update_of_ne hk' _ _
  have hself : (s.setHolder k space h).arenas k = some h := Function.update_self _ _ _
  constructor
  · intro k₁ h₁ hk₁
    by_cases hk : k₁ = k
    · subst hk
      cases hself.symm.trans hk₁
      exact hok
    · rw [hother k₁ hk] at hk₁
      apply (hinv.holder k₁ h₁ hk₁).congr
      intro b₁ hb₁ i hi
      apply hkept
      intro b hb
      exact (hapart k₁ h₁ (Ne.symm hk) hk₁ b hb b₁ hb₁).symm.not_hasPage hi
  · intro k₁ k₂ h₁ h₂ hne hk₁ hk₂ b₁ hb₁ b₂ hb₂
    by_cases hk : k₁ = k
    · subst hk
      cases hself.symm.trans hk₁
      rw [hother k₂ (Ne.symm hne)] at hk₂
      exact hapart k₂ h₂ hne hk₂ b₁ hb₁ b₂ hb₂
    · rw [hother k₁ hk] at hk₁
      by_cases hk' : k₂ = k
      · subst hk'
        cases hself.symm.trans hk₂
        exact (hapart k₁ h₁ (Ne.symm hk) hk₁ b₂ hb₂ b₁ hb₁).symm
      · rw [hother k₂ hk'] at hk₂
        exact hinv.apart k₁ k₂ h₁ h₂ hne hk₁ hk₂ b₁ hb₁ b₂ hb₂

/-- A fresh block is apart from all there are. -/
theorem ArenaInv.apart_fresh (hinv : ArenaInv s) {b : Block} (hpos : 0 < b.count)
    (hfree : Unmapped s.space b.page b.count) {h : Holder} (hk : s.arenas k = some h) :
    ∀ b' ∈ h.arena.blocks, b.Apart b' := by
  intro b' hb'
  have hok := hinv.holder k h hk
  exact (Block.apart_of_unmapped (fun i hi => hok.mapped hb' hi) hfree (hok.pos b' hb') hpos).symm

variable {os : MmapAnswer}

variable {code : List Byte}

/-- What is emitted goes into the live block, or into a fresh one. -/
theorem Arena.emit_cases {a a' : Arena} {space space' : Space} {addr : Nat}
    (hemit : a.emit space code os = .ok (addr, a', space')) :
    a.sealed = false ∧
      ((roundUp a.cursor 16 + code.length ≤ a.block.len ∧
          addr = a.block.base + roundUp a.cursor 16 ∧
          a' = { a with cursor := roundUp a.cursor 16 + code.length } ∧
          space' = storeBytes space addr code) ∨
        ∃ page, os = .ok page ∧
          let len := a.growLen (roundUp a.cursor 16 + code.length)
          let b : Block := ⟨page, len / pageSize⟩
          addr = b.base + 0 ∧ a' = ⟨b, 0 + code.length, false, a.retired ++ [a.block]⟩ ∧
            space' = storeBytes (mapZero space page (len / pageSize) .readWrite) addr code) := by
  unfold Arena.emit Arena.alloc at hemit
  by_cases hsealed : a.sealed = true
  · simp [hsealed, bind, Except.bind] at hemit
  have hopen : a.sealed = false := by simpa using hsealed
  refine ⟨hopen, ?_⟩
  by_cases hgrow : a.block.len < roundUp a.cursor 16 + code.length
  · cases os with
    | error msg =>
      simp [hopen, hgrow, Arena.grow, mmapBlock, bind, Except.bind] at hemit
    | ok page =>
      have hzero : roundUp 0 16 = 0 := rfl
      simp only [hopen, hgrow, Arena.grow, mmapBlock, bind, Except.bind, pure, Except.pure,
        if_true, Bool.false_eq_true, if_false, hzero, Except.ok.injEq, Prod.mk.injEq] at hemit
      obtain ⟨rfl, rfl, rfl⟩ := hemit
      exact Or.inr ⟨page, rfl, rfl, rfl, rfl⟩
  · simp only [hopen, hgrow, bind, Except.bind, pure, Except.pure, Bool.false_eq_true, if_false,
      Except.ok.injEq, Prod.mk.injEq] at hemit
    obtain ⟨rfl, rfl, rfl⟩ := hemit
    exact Or.inl ⟨Nat.le_of_not_lt hgrow, rfl, by simp [hopen], rfl⟩

theorem Arena.growLen_pos (a : Arena) {n : Nat} (hlen : 0 < a.block.count) :
    0 < a.growLen n / pageSize ∧ n ≤ a.growLen n / pageSize * pageSize := by
  have hpage : 0 < pageSize := by decide
  have hle := le_roundUp (max n (a.block.len * 2)) hpage
  have hmul : a.growLen n / pageSize * pageSize = a.growLen n :=
    Nat.div_mul_cancel (Nat.dvd_of_mod_eq_zero (roundUp_mod _ _))
  have hpos : 0 < a.block.len := Nat.mul_pos hlen hpage
  constructor
  · apply Nat.pos_of_ne_zero
    intro hzero
    rw [hzero, Nat.zero_mul] at hmul
    unfold growLen at hmul
    omega
  · rw [hmul]
    exact Nat.le_trans (Nat.le_max_left _ _) hle

theorem ArenaInv.emit (hinv : ArenaInv s) {h : Holder} (hk : s.arenas k = some h) {addr : Nat}
    {a' : Arena} {space' : Space}
    (hfresh : FreshAnswer s.space (h.arena.growLen (roundUp h.arena.cursor 16 + code.length)) os)
    (hemit : h.arena.emit s.space code os = .ok (addr, a', space')) :
    ArenaInv (s.setHolder k space' { h with arena := a', spans := ⟨addr, code⟩ :: h.spans }) := by
  have hok := hinv.holder k h hk
  have hstored : ∀ {space : Space} {b : Block} {sp : Span}, b.Contains sp → ∀ i, ¬ b.HasPage i →
      storeBytes space sp.addr sp.code i = space i := by
    intro space b sp hin i hi
    exact storeBytes_of_not_mem fun x hlow hhigh heq => hi (heq ▸ hin.hasPage hlow hhigh)
  obtain ⟨hopen, hcases⟩ := Arena.emit_cases hemit
  have hnone : h.atSeal = none := by
    rw [hok.sealed_eq] at hopen
    simpa using hopen
  have hcursor : h.arena.cursor ≤ roundUp h.arena.cursor 16 := le_roundUp _ (by decide)
  rcases hcases with ⟨hfits, rfl, rfl, rfl⟩ | ⟨page, rfl, hgrow⟩
  · have hplaced := hok.place hnone hcursor hfits
    apply hinv.setHolder hplaced
    · intro i hi
      obtain ⟨b, hb, hin⟩ := hplaced.contained List.mem_cons_self
      exact hstored hin i (hi b hb)
    · intro k' h' hne hk'
      exact hinv.apart k k' h h' hne hk hk'
  · obtain ⟨rfl, rfl, rfl⟩ := hgrow
    have hcount := h.arena.growLen_pos (n := roundUp h.arena.cursor 16 + code.length)
      (hok.pos _ (Arena.mem_blocks.mpr (Or.inr rfl)))
    have hgrown := hok.grow hnone (b := ⟨page, _⟩) hcount.1 hfresh.2
    have hroom : 0 + code.length ≤
        h.arena.growLen (roundUp h.arena.cursor 16 + code.length) / pageSize * pageSize := by
      rw [Nat.zero_add]
      exact Nat.le_trans (Nat.le_add_left _ _) hcount.2
    have hplaced := hgrown.place hnone (Nat.le_refl 0) hroom
    apply hinv.setHolder hplaced
    · intro i hi
      obtain ⟨b, hb, hin⟩ := hplaced.contained List.mem_cons_self
      have hlive := hi _ (Arena.mem_blocks.mpr (Or.inr rfl))
      exact (hstored hin i (hi b hb)).trans (mapZero_of_not_inRange hlive)
    · intro k' h' hne hk' b hb b' hb'
      rcases Arena.mem_blocks.mp hb with hret | rfl
      · exact hinv.apart k k' h h' hne hk hk' b hret b' hb'
      · exact hinv.apart_fresh hcount.1 hfresh.2 hk' b' hb'

theorem ArenaInv.handOut (hinv : ArenaInv s) {h : Holder} (hk : s.arenas k = some h)
    {res : Except ThunkError (Nat × Arena × Space)}
    (hfresh : FreshAnswer s.space (h.arena.growLen (roundUp h.arena.cursor 16 + code.length)) os)
    (hres : (∃ e, res = .error e) ∨ res = h.arena.emit s.space code os) :
    ArenaInv (s.handOut k h code res) := by
  rcases res with e | ⟨addr, a', space'⟩
  · exact hinv
  · rcases hres with ⟨e, he⟩ | hemit
    · cases he
    · exact hinv.emit hk hfresh hemit.symm

theorem ArenaInv.withCapacity (hinv : ArenaInv s) {capacity : Nat} {a : Arena} {space : Space}
    (hfresh : FreshAnswer s.space (capacityLen capacity) os)
    (hnew : withCapacity s.space capacity os = .ok (a, space)) :
    ArenaInv (s.setHolder k space ⟨a, [], none⟩) := by
  have hpage : 0 < pageSize := by decide
  have hcount : 0 < capacityLen capacity / pageSize := by
    apply Nat.div_pos _ hpage
    exact Nat.le_trans (Nat.le_max_right _ _) (le_roundUp _ hpage)
  cases os with
  | error msg => simp [Loader.withCapacity, mmapBlock, bind, Except.bind] at hnew
  | ok page =>
    simp only [Loader.withCapacity, mmapBlock, bind, Except.bind, pure, Except.pure,
      Except.ok.injEq, Prod.mk.injEq] at hnew
    obtain ⟨rfl, rfl⟩ := hnew
    have hok := @Holder.ok_new s.space ⟨page, capacityLen capacity / pageSize⟩ hcount
    apply hinv.setHolder hok
    · intro i hi
      exact mapZero_of_not_inRange (hi _ List.mem_cons_self)
    · intro k' h' _ hk' b hb
      cases List.mem_singleton.mp hb
      exact hinv.apart_fresh hcount hfresh.2 hk'

theorem ArenaInv.finalize (hinv : ArenaInv s) {h : Holder} (hk : s.arenas k = some h) :
    ∃ space, h.arena.finalize s.space = (.ok (), { h.arena with sealed := true }, space) ∧
      ArenaInv (s.setHolder k space (h.seal { h.arena with sealed := true })) := by
  have hok := hinv.holder k h hk
  by_cases hsealed : h.arena.sealed = true
  · have hsame : { h.arena with sealed := true } = h.arena := by rw [← hsealed]
    refine ⟨s.space, by rw [Arena.finalize, if_pos hsealed, hsame], ?_⟩
    rw [hsame, hok.seal_again hsealed]
    apply hinv.setHolder hok
    · exact fun i _ => rfl
    · exact fun k' h' hne hk' => hinv.apart k k' h h' hne hk hk'
  · have hopen : h.atSeal = none := by
      rw [hok.sealed_eq] at hsealed
      simpa using hsealed
    obtain ⟨hrun, -, hkept, -⟩ := sealBlocks_of_mapped fun b hb i hi => hok.mapped hb hi
    refine ⟨(sealBlocks s.space h.arena.blocks).2, ?_, ?_⟩
    · rw [Arena.finalize, if_neg hsealed]
      simp only [hrun]
    · apply hinv.setHolder (hok.seal hopen)
      · intro i hi
        exact hkept i fun ⟨b, hb, hin⟩ => hi b hb hin
      · exact fun k' h' hne hk' => hinv.apart k k' h h' hne hk hk'

/-! ## Every run -/

theorem arenaInv_init (h : arenaMachine.init s) : ArenaInv s := by
  constructor
  · intro k h' hk
    rw [h k] at hk
    cases hk
  · intro k k' h₁ h₂ _ hk
    rw [h k] at hk
    cases hk

theorem ArenaInv.step (hinv : ArenaInv s) {c : ArenaCall} (hn : arenaMachine.next s c = some s') :
    ArenaInv s' := by
  cases c with
  | withCapacity k capacity os =>
    simp only [arenaMachine, ArenaCall.next, Option.ite_none_right_eq_some] at hn
    obtain ⟨⟨-, hfresh⟩, hn⟩ := hn
    cases hnew : Loader.withCapacity s.space capacity os with
    | error e =>
      rw [hnew] at hn
      cases hn
      exact hinv
    | ok r =>
      rw [hnew] at hn
      cases hn
      exact hinv.withCapacity hfresh hnew
  | makeThunk k target nArgs os =>
    simp only [arenaMachine, ArenaCall.next, Option.bind_eq_bind, Option.bind_eq_some_iff,
      Option.ite_none_right_eq_some] at hn
    obtain ⟨h, hk, hfresh, hn⟩ := hn
    cases hn
    apply hinv.handOut hk hfresh
    unfold Arena.makeThunk
    by_cases hmany : 32 < nArgs
    · rw [if_pos hmany]
      exact Or.inl ⟨_, rfl⟩
    · rw [if_neg hmany]
      exact Or.inr rfl
  | makeThunkNoreturn k target nArgs os =>
    simp only [arenaMachine, ArenaCall.next, Option.bind_eq_bind, Option.bind_eq_some_iff,
      Option.ite_none_right_eq_some] at hn
    obtain ⟨h, hk, hfresh, hn⟩ := hn
    cases hn
    apply hinv.handOut hk hfresh
    unfold Arena.makeThunkNoreturn
    by_cases hmany : 6 < nArgs
    · rw [if_pos hmany]
      exact Or.inl ⟨_, rfl⟩
    · rw [if_neg hmany]
      exact Or.inr rfl
  | finalize k =>
    simp only [arenaMachine, ArenaCall.next, Option.bind_eq_bind, Option.bind_eq_some_iff] at hn
    obtain ⟨h, hk, hn⟩ := hn
    obtain ⟨space, hrun, hnext⟩ := hinv.finalize hk
    rw [hrun] at hn
    cases hn
    exact hnext

theorem ArenaInv.stable (hinv : ArenaInv s) : Stable s where
  disjoint k h hk := (hinv.holder k h hk).disjoint
  apart k k' h h' hne hk hk' sp hsp sp' hsp' := by
    obtain ⟨b, hb, hin⟩ := (hinv.holder k h hk).contained hsp
    obtain ⟨b', hb', hin'⟩ := (hinv.holder k' h' hk').contained hsp'
    exact (hinv.apart k k' h h' hne hk hk' b hb b' hb').spans hin hin'
  inside k h hk sp hsp := (hinv.holder k h hk).contained hsp
  intact k h hk := (hinv.holder k h hk).intact
  protected_ k h hk b hb a hlow hhigh := by
    have hprot := (hinv.holder k h hk).prot b hb _ (Block.hasPage_div hlow hhigh)
    obtain ⟨pg, hpg, heq⟩ := Option.map_eq_some_iff.mp hprot
    refine ⟨pg, hpg, ?_⟩
    rw [heq]
    unfold Holder.prot
    cases h.atSeal with
    | none => exact ⟨rfl, rfl⟩
    | some l => exact ⟨rfl, rfl⟩
  closed k h hk := (hinv.holder k h hk).closed

def noArena : ArenaState := ⟨fun _ => none, fun _ => none⟩

/-- Nine thunks of 32 arguments, the last of them in a second block, and the seal. -/
def outgrow : List ArenaCall :=
  .withCapacity 0 1 (.ok 16) ::
    (List.replicate 9 (.makeThunk 0 0x401000 32 (.ok 32)) ++ [.finalize 0])

def outgrown : ArenaState := (arenaMachine.exec noArena outgrow).getD noArena

example : (outgrown.arenas 0).map (fun h => (h.arena, h.atSeal.map List.length)) =
    some (⟨⟨32, 2⟩, 475, true, [⟨16, 1⟩]⟩, some 9) := by
  decide +kernel

theorem outgrown_reachable : arenaMachine.Reachable outgrown := by
  have hrun : (arenaMachine.exec noArena outgrow).isSome := by decide +kernel
  obtain ⟨s, hs⟩ := Option.isSome_iff_exists.mp hrun
  have heq : outgrown = s := by
    unfold outgrown
    rw [hs]
    rfl
  rw [heq]
  exact Machine.reachable_of_exec (fun _ => rfl) hs

end WinCompat.Loader
