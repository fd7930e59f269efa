import WinCompat.Loader.Upkeep

/-!
# Modules stay mapped until they are freed

The registry does not count: a load of a path that is registered returns the handle and leaves the
module as it is, an import bound to a module leaves no trace in it, and the first `FreeLibrary` of a
handle takes the module out. What holds in every run, of any number of threads and however their
calls nest, is that nothing else does: `memoryDiscipline` keeps the blocks of the registered modules
mapped and apart from one another and from what every call in progress owns, so that no other call
releases them, and a handle names one module.
-/

namespace WinCompat.Loader

open Lib Lib.Paging

/-- The event is the step of a `FreeLibrary` of this handle that takes the module out: until then
    such a call owns nothing. -/
def Frees (h : Nat) (T : Threads Holdings Sys Call Reply) (ev : Event Call Reply) : Prop :=
  ∃ t f rest, ev = .act t ∧ T.stack t = f :: rest ∧ f.call = .free h ∧ f.own.blocks = []

/-- A registered module stays registered, and its image, its thunks and its stack stay mapped, until
    it is freed; and a `FreeLibrary` answers 1 for the handles that are registered, takes out the
    module of that handle and no other, and answers 0 for all other handles. -/
structure InUse (host : Host) (T : Threads Holdings Sys Call Reply) : Prop where
  kept : ∀ m ∈ T.shared.modules, ∀ T',
    (loaderSystem host).machine.RunIf (fun U ev => ¬ Frees m.hModule U ev) T T' →
      m ∈ T'.shared.modules ∧ ∀ b ∈ m.blocks, Mapped T'.shared.space b.page b.count
  freed : ∀ t f rest h, T.stack t = f :: rest → f.prog = freeLibrary h →
    ∃ T' f', (loaderSystem host).next T (.act t) = some T' ∧ T'.stack t = f' :: rest ∧
      ((∃ m ∈ T.shared.modules, m.hModule = h) → f'.prog.Returns (.ok 1)) ∧
      ((∀ m ∈ T.shared.modules, m.hModule ≠ h) → f'.prog.Returns (.ok 0)) ∧
      ∀ m, m ∈ T'.shared.modules ↔ m ∈ T.shared.modules ∧ m.hModule ≠ h

/-! ## The discipline -/

/-- The memory of the registered modules as it should be. -/
structure MemoryOk (s : Sys) : Prop where
  owned : Owned (s.modules.flatMap LoadedModule.blocks) s.space
  pos : ∀ m ∈ s.modules, 0 < m.image.block.count

/-- The memory of a call in progress as it should be, beside the registry. -/
structure HeldOk (l : Holdings) (s : Sys) : Prop where
  owned : Owned l.blocks s.space
  apart : ∀ b ∈ l.blocks, ∀ m ∈ s.modules, ∀ b' ∈ m.blocks, NoShare b b'
  pos : ∀ b, l.image = some b → 0 < b.count

/-- Two calls own no page in common. -/
def HeldApart (l k : Holdings) : Prop := ∀ b ∈ l.blocks, ∀ b' ∈ k.blocks, NoShare b b'

def memoryDiscipline (host : Host) : Discipline Holdings Sys Call where
  step := Does host
  shared := MemoryOk
  frame := HeldOk
  apart := HeldApart
  permit _ _ _ _ := True
  calls l _ := l.claim.isSome

variable {host : Host} {c : Call} {l l' k : Holdings} {s s' : Sys}

variable {m : LoadedModule}

theorem mem_module_blocks {b : Block} (hm : m ∈ s.modules) (hb : b ∈ m.blocks) :
    b ∈ s.modules.flatMap LoadedModule.blocks := List.mem_flatMap.mpr ⟨m, hm, hb⟩

theorem MemoryOk.mapped (h : MemoryOk s) {b : Block} (hm : m ∈ s.modules) (hb : b ∈ m.blocks) :
    Mapped s.space b.page b.count :=
  h.owned.mapped b (mem_module_blocks hm hb)

/-- What is kept from what a frame gives up. -/
theorem Remap.mapped {blocks blocks' : List Block} {p p' : Space} (h : Remap blocks p blocks' p')
    {b : Block} (hb : Mapped p b.page b.count) (hno : ∀ b' ∈ blocks, NoShare b' b) :
    Mapped p' b.page b.count := by
  intro i hi
  rcases h.kept i (hb i hi) with hkept | ⟨b', hb', hi'⟩
  · exact hkept
  · exact absurd hi (hno b' hb' i hi')

theorem Remap.noShare {blocks blocks' : List Block} {p p' : Space} (h : Remap blocks p blocks' p')
    {b b' : Block} (hb : b ∈ blocks') (hb' : Mapped p b'.page b'.count)
    (hno : ∀ x ∈ blocks, NoShare x b') : NoShare b b' := by
  rcases h.fresh b hb with hold | hnew
  · exact hno b hold
  · exact (noShare_of_unmapped hb' hnew).symm

theorem removed {modules : List LoadedModule} {h : Nat}
    (hfind : modules.find? (fun m => m.hModule = h) = some m) :
    ∃ before after, modules = before ++ m :: after ∧
      modules.eraseP (fun m => m.hModule = h) = before ++ after := by
  obtain ⟨hm, before, after, rfl, hbefore⟩ := List.find?_eq_some_iff_append.mp hfind
  refine ⟨before, after, rfl, ?_⟩
  rw [List.eraseP_append_right, @List.eraseP_cons_of_pos _ m after _ hm]
  intro m' hm'
  have hno := hbefore m' hm'
  simpa using hno

theorem MemoryOk.remove (h : MemoryOk s) {before after : List LoadedModule}
    (heq : s.modules = before ++ m :: after) :
    MemoryOk { s with modules := before ++ after } ∧ Owned m.blocks s.space ∧
      ∀ b ∈ m.blocks, ∀ m' ∈ before ++ after, ∀ b' ∈ m'.blocks, NoShare b b' := by
  have hsub : (before ++ after).Sublist s.modules := by
    rw [heq]
    exact (List.Sublist.refl before).append (List.sublist_cons_self m after)
  have hmem : m ∈ s.modules := by
    rw [heq]
    exact List.mem_append_right before List.mem_cons_self
  have hperm : (s.modules.flatMap LoadedModule.blocks).Perm
      (m.blocks ++ (before ++ after).flatMap LoadedModule.blocks) := by
    rw [heq]
    exact (@List.perm_middle _ m before after).flatMap_right LoadedModule.blocks
  have hpair : (m.blocks ++ (before ++ after).flatMap LoadedModule.blocks).Pairwise NoShare :=
    (List.Perm.pairwise_iff (fun {_ _} hx => NoShare.symm hx) hperm).mp h.owned.pairwise
  obtain ⟨hown, hrest, hcross⟩ := List.pairwise_append.mp hpair
  refine ⟨⟨⟨?_, hrest⟩, ?_⟩, ⟨fun b hb => h.mapped hmem hb, hown⟩, ?_⟩
  · intro b hb
    obtain ⟨m', hm', hb'⟩ := List.mem_flatMap.mp hb
    exact h.mapped (hsub.subset hm') hb'
  · exact fun m' hm' => h.pos m' (hsub.subset hm')
  · exact fun b hb m' hm' b' hb' => hcross b hb b' (List.mem_flatMap.mpr ⟨m', hm', hb'⟩)

theorem Does.ownMemory (hs : MemoryOk s) (hl : HeldOk l s) (h : Does host c (l, s) (l', s')) :
    MemoryOk s' ∧ HeldOk l' s' := by
  cases h with
  | look => exact ⟨hs, hl.owned, hl.apart, hl.pos⟩
  | claim => exact ⟨hs, hl.owned, hl.apart, hl.pos⟩
  | memory hmodules hmem =>
    have hmodule : ∀ m ∈ s.modules, ∀ b ∈ m.blocks, ∀ b' ∈ l.blocks, NoShare b' b :=
      fun m hm b hb b' hb' => hl.apart b' hb' m hm b hb
    constructor
    · refine ⟨⟨?_, hmodules ▸ hs.owned.pairwise⟩, hmodules ▸ hs.pos⟩
      intro b hb
      rw [hmodules] at hb
      obtain ⟨m, hm, hb⟩ := List.mem_flatMap.mp hb
      exact hmem.remap.mapped (hs.mapped hm hb) (hmodule m hm b hb)
    · refine ⟨⟨hmem.remap.held, hmem.remap.pairwise⟩, ?_, ?_⟩
      · intro b hb m hm b' hb'
        rw [hmodules] at hm
        exact hmem.remap.noShare hb (hs.mapped hm hb') (hmodule m hm b' hb')
      · intro b hb
        exact (hmem.image b hb).elim (hl.pos b) id
  | register m hclaim himage hblocks =>
    constructor
    · refine ⟨⟨?_, ?_⟩, ?_⟩
      · intro b hb
        rw [List.flatMap_append, List.mem_append] at hb
        rcases hb with hb | hb
        · exact hs.owned.mapped b hb
        · rw [List.flatMap_singleton, ← hblocks] at hb
          exact hl.owned.mapped b hb
      · rw [List.flatMap_append, List.flatMap_singleton, ← hblocks]
        refine List.pairwise_append.mpr ⟨hs.owned.pairwise, hl.owned.pairwise, ?_⟩
        intro b hb b' hb'
        obtain ⟨m', hm', hb⟩ := List.mem_flatMap.mp hb
        exact (hl.apart b' hb' m' hm' b hb).symm
      · intro m' hm'
        rcases List.mem_append.mp hm' with hm' | hm'
        · exact hs.pos m' hm'
        · cases List.mem_singleton.mp hm'
          exact hl.pos _ himage
    · exact ⟨⟨nofun, .nil⟩, nofun, nofun⟩
  | remove m h hc hclaim hclaim' hchecked hnone hfind himage hblocks =>
    obtain ⟨before, after, heq, herase⟩ := removed hfind
    obtain ⟨hrest, hown, hcross⟩ := hs.remove heq
    rw [herase]
    refine ⟨hrest, hblocks ▸ hown, hblocks ▸ hcross, ?_⟩
    intro b hb
    rw [himage] at hb
    cases hb
    exact hs.pos m (List.mem_of_find?_eq_some hfind)

theorem Does.othersMemory (hk : HeldOk k s) (hapart : HeldApart l k)
    (h : Does host c (l, s) (l', s')) : HeldOk k s' ∧ HeldApart l' k := by
  cases h with
  | look => exact ⟨hk, hapart⟩
  | claim => exact ⟨hk, hapart⟩
  | memory hmodules hmem =>
    constructor
    · refine ⟨⟨?_, hk.owned.pairwise⟩, hmodules ▸ hk.apart, hk.pos⟩
      intro b hb
      exact hmem.remap.mapped (hk.owned.mapped b hb) fun b' hb' => hapart b' hb' b hb
    · intro b hb b' hb'
      exact hmem.remap.noShare hb (hk.owned.mapped b' hb') fun x hx => hapart x hx b' hb'
  | register m hclaim himage hblocks =>
    refine ⟨⟨hk.owned, ?_, hk.pos⟩, nofun⟩
    intro b hb m' hm' b' hb'
    rcases List.mem_append.mp hm' with hm' | hm'
    · exact hk.apart b hb m' hm' b' hb'
    · cases List.mem_singleton.mp hm'
      rw [← hblocks] at hb'
      exact (hapart b' hb' b hb).symm
  | remove m h hc hclaim hclaim' hchecked hnone hfind himage hblocks =>
    refine ⟨⟨hk.owned, ?_, hk.pos⟩, ?_⟩
    · exact fun b hb m' hm' => hk.apart b hb m' (List.mem_of_mem_eraseP hm')
    · intro b hb b' hb'
      rw [hblocks] at hb
      exact (hk.apart b' hb' m (List.mem_of_find?_eq_some hfind) b hb).symm

theorem memoryDiscipline_lawful (host : Host) :
    (memoryDiscipline host).Lawful (loaderSystem host) where
  start s hs := by
    have hnone : s.modules = [] := hs
    refine ⟨⟨?_, ?_⟩, ?_⟩ <;> simp [hnone]
  body c p hp := by
    have hmeets := @meets_body host c p hp
    apply Meets.weaken (D := upkeep host fun _ => True)
    · exact fun _ _ => trivial
    · exact fun _ _ h => h.owned
    · exact fun _ _ _ _ h => h
    · exact fun _ _ h => h.1
    · exact hmeets
  fresh s _ := ⟨⟨nofun, .nil⟩, nofun, nofun⟩
  fresh_apart l := nofun
  symm l k h := fun b hb b' hb' => (h b' hb' b hb).symm
  own c l s l' s' hs hl h := Does.ownMemory hs hl h
  others c l s l' s' k _ _ hk hapart _ h := Does.othersMemory hk hapart h

theorem MemoryOk.handles (h : MemoryOk s) :
    s.modules.Pairwise fun m m' => m.hModule ≠ m'.hModule := by
  have hapart := (List.pairwise_flatMap.mp h.owned.pairwise).2
  refine hapart.imp_of_mem ?_
  intro m m' hm hm' hno heq
  have hbase : m.image.basePage = m'.image.basePage :=
    Nat.eq_of_mul_eq_mul_right (by decide) heq
  have himage : ∀ x : LoadedModule, x.image.block ∈ x.blocks := fun x =>
    List.mem_append_left _ (List.mem_append_left _ List.mem_cons_self)
  refine hno _ (himage m) _ (himage m') m.image.basePage ?_ ?_
  · exact ⟨Nat.le_refl _, Nat.lt_add_of_pos_right (h.pos m hm)⟩
  · rw [hbase]
    exact ⟨Nat.le_refl _, Nat.lt_add_of_pos_right (h.pos m' hm')⟩

/-! ## Every run -/

variable {T T' : Threads Holdings Sys Call Reply}

theorem registered_next (hT : (memoryDiscipline host).Disciplined T) {ev : Event Call Reply}
    (hm : m ∈ T.shared.modules) (hev : ¬ Frees m.hModule T ev)
    (hn : (loaderSystem host).next T ev = some T') : m ∈ T'.shared.modules := by
  obtain hsame | ⟨t, f, rest, upd, k, rfl, hstack, hprog, hshared⟩ := System.next_shared _ hn
  · rw [hsame]
    exact hm
  · have hdoes : Does host f.call (f.own, T.shared) (upd (f.own, T.shared)) :=
      hT.act hstack hprog
    rw [hshared]
    generalize upd (f.own, T.shared) = r at hdoes
    obtain ⟨l', s'⟩ := r
    generalize hc : f.call = c at hdoes
    generalize hown : f.own = l at hdoes
    generalize T.shared = s at hdoes hm
    cases hdoes with
    | look => exact hm
    | claim => exact hm
    | memory hmodules _ => exact hmodules ▸ hm
    | register => exact List.mem_append_left _ hm
    | remove m' h hfree _ _ _ hnone hfind =>
      apply (List.mem_eraseP_of_neg ?_).mpr hm
      intro heq
      apply hev
      refine ⟨t, f, rest, rfl, hstack, ?_, hown ▸ hnone⟩
      rw [hc, hfree, of_decide_eq_true heq]

theorem freeLibrary_act (h : Nat) : ∃ upd k, freeLibrary h = .act upd k ∧
    ∀ l s, (upd (l, s)).2.modules = s.modules.eraseP (fun m => m.hModule = h) ∧
      ((∃ m ∈ s.modules, m.hModule = h) → (k (l, s)).Returns (.ok 1)) ∧
      ((∀ m ∈ s.modules, m.hModule ≠ h) → (k (l, s)).Returns (.ok 0)) := by
  refine ⟨_, _, rfl, fun l s => ?_⟩
  cases hfind : s.modules.find? fun m => m.hModule = h with
  | none =>
    have hno : ∀ m ∈ s.modules, m.hModule ≠ h := by simpa using List.find?_eq_none.mp hfind
    refine ⟨?_, ?_, ?_⟩
    · simp only [hfind]
      exact (List.eraseP_of_forall_not (by simpa using hno)).symm
    · rintro ⟨m, hm, heq⟩
      exact absurd heq (hno m hm)
    · intro _
      simp only [hfind]
      exact rfl
  | some m =>
    have hm := List.find?_some hfind
    refine ⟨?_, ?_, ?_⟩
    · simp only [hfind]
    · intro _
      simp only [hfind]
      exact fun _ _ _ => rfl
    · intro hno
      exact absurd (of_decide_eq_true hm) (hno m (List.mem_of_find?_eq_some hfind))

theorem mem_eraseP_handle {modules : List LoadedModule} (x : Nat) (m : LoadedModule) :
    modules.Pairwise (fun m m' => m.hModule ≠ m'.hModule) →
      (m ∈ modules.eraseP (fun m => m.hModule = x) ↔ m ∈ modules ∧ m.hModule ≠ x) := by
  induction modules with
  | nil => simp
  | cons a rest ih =>
    intro hpair
    obtain ⟨hhead, hrest⟩ := List.pairwise_cons.mp hpair
    by_cases hx : a.hModule = x
    · rw [@List.eraseP_cons_of_pos _ a rest _ (decide_eq_true hx), List.mem_cons]
      constructor
      · exact fun hm => ⟨.inr hm, fun heq => hhead m hm (hx.trans heq.symm)⟩
      · rintro ⟨rfl | hm, hne⟩
        · exact absurd hx hne
        · exact hm
    · rw [@List.eraseP_cons_of_neg _ a rest _ (by simpa using hx), List.mem_cons, List.mem_cons,
        ih hrest]
      constructor
      · rintro (rfl | ⟨hm, hne⟩)
        · exact ⟨.inl rfl, hx⟩
        · exact ⟨.inr hm, hne⟩
      · rintro ⟨rfl | hm, hne⟩
        · exact .inl rfl
        · exact .inr ⟨hm, hne⟩

/-- **A module in use** stays registered and mapped while it has a reference, in every run of any
    number of threads, calls nested in any way; and what `FreeLibrary` does to the count is done at
    once. -/
theorem in_use (h : (loaderSystem host).machine.Reachable T) : InUse host T := by
  have hall : ∀ {T}, (loaderSystem host).machine.Reachable T →
      (memoryDiscipline host).Disciplined T := by
    intro T h
    apply (memoryDiscipline_lawful host).disciplined
    exact h.mono fun _ _ _ _ _ _ _ _ => ⟨fun _ _ => trivial, fun _ _ _ _ => trivial⟩
  constructor
  · intro m hm T' hrun
    obtain ⟨hT', hm'⟩ := hrun.invariant (P := fun U => m ∈ U.shared.modules) h hm
      fun U ev U' hU hm hev hn => registered_next (hall hU) hm hev hn
    have hok : MemoryOk T'.shared := (hall hT').shared
    exact ⟨hm', fun b hb => hok.mapped hm' hb⟩
  · intro t f rest x hstack hprog
    have hok : MemoryOk T.shared := (hall h).shared
    obtain ⟨upd, k, hact, hdoes⟩ := freeLibrary_act x
    obtain ⟨hmodules, hone, hzero⟩ := hdoes f.own T.shared
    refine ⟨_, _, System.next_act _ hstack (hprog.trans hact),
      Discipline.stack_setStack_self _ t _, hone, hzero, fun m => ?_⟩
    show m ∈ (upd (f.own, T.shared)).2.modules ↔ _
    rw [hmodules]
    exact mem_eraseP_handle x m hok.handles

/-! ## A file that is loaded twice -/

/-- A kernel that answers with its `n`-th window of sixteen megabytes, if that is free. -/
def pickPage (n : Nat) (space : Space) (len : Nat) : MmapAnswer :=
  if FreshAnswer space len (.ok (0x10000 + n * 0x1000)) then .ok (0x10000 + n * 0x1000)
  else .error "errno 12"

theorem pickPage_fresh (n : Nat) (space : Space) (len : Nat) :
    FreshAnswer space len (pickPage n space len) := by
  unfold pickPage
  split_ifs with h
  · exact h
  · trivial

/-- One file under every name, and none of the tables filled. -/
def bareHost (bytes : List Byte) (file : PeFile) : Host where
  canonicalize path := .ok ("/games/" ++ path)
  read _ := .ok bytes
  goblin bs := if bs = bytes then .ok file else .error "malformed"
  lowercase name := name
  fromUtf8Lossy _ := ""
  search := ⟨none, none⟩
  pathExists _ := false
  surface := ⟨[], [], [], [], [], [], [], [], 0x1000, 0x2000⟩
  softStubs := false
  bridged := true
  mmap := pickPage
  mmap_fresh := pickPage_fresh

/-- A DLL of one page with headers and nothing else; `directories` is from the sixth on. -/
def bareFile (directories : List Byte) : List Byte :=
  [0x4D, 0x5A] ++ List.replicate 58 0 ++ [0x40, 0, 0, 0] ++
  -- The signature and the COFF header.
  [0x50, 0x45, 0, 0] ++ [0x64, 0x86, 0, 0] ++ List.replicate 12 0 ++ [0xF0, 0, 0x22, 0x20] ++
  -- The optional header: the base is 0x180000000, and no header is to be copied.
  [0x0B, 0x02] ++ List.replicate 22 0 ++ [0, 0, 0, 0x80, 1, 0, 0, 0] ++
  [0, 0x10, 0, 0, 0, 2, 0, 0] ++ List.replicate 16 0 ++ [0, 0x10, 0, 0, 0, 0, 0, 0] ++
  List.replicate 44 0 ++ [16, 0, 0, 0] ++ List.replicate 40 0 ++ directories

/-- The same, parsed. -/
def bareDll (relocs : Option DataDirectory) : PeFile where
  pe := ⟨[]⟩
  characteristics := 0x2022
  optionalHeader := some ⟨0, 0x180000000, 0x1000, 0, relocs⟩
  imports := []

def raceHost : Host := bareHost (bareFile (List.replicate 88 0)) (bareDll none)

/-- Nothing is loaded or being loaded. -/
def atRest : Threads Holdings Sys Call Reply := ⟨⟨fun _ => none, [], 0, fun _ => none⟩, fun _ => []⟩

theorem atRest_init (host : Host) : (loaderSystem host).machine.init atRest :=
  ⟨rfl, fun _ => rfl⟩

/-- Thread 0 has loaded a file and is about to free it. -/
def freeing : Threads Holdings Sys Call Reply :=
  ((loaderSystem raceHost).machine.exec atRest ([.start 0 (.load "a.dll" false)] ++
    List.replicate 14 (.act 0) ++ [.leave 0, .start 0 (.free 0x10000000)])).getD atRest

theorem in_use_freeing : InUse raceHost freeing := by
  apply in_use
  have hsome : ((loaderSystem raceHost).machine.exec atRest
      ([.start 0 (.load "a.dll" false)] ++ List.replicate 14 (.act 0) ++
        [.leave 0, .start 0 (.free 0x10000000)])).isSome := by
    decide +kernel
  obtain ⟨T, hrun⟩ := Option.isSome_iff_exists.mp hsome
  rw [freeing, hrun]
  exact Machine.reachable_of_exec (atRest_init raceHost) hrun

/-- One call after the other, and no guest code. -/
def alone (c : Call) (s : Sys) : Option (Reply × Sys) := perform raceHost (fun _ _ => none) 1 c s

/-- Two loads of a file answer with one handle. The first `FreeLibrary` of it unmaps the image that
    the other load still uses, and the second answers 0. -/
theorem first_free_unmaps : ∃ h s₁ s₂ s₃ s₄, ∃ m ∈ s₂.modules,
    alone (.load "a.dll" true) atRest.shared = some (.ok h, s₁) ∧
    alone (.load "a.dll" true) s₁ = some (.ok h, s₂) ∧ m.hModule = h ∧
    alone (.free h) s₂ = some (.ok 1, s₃) ∧
    ¬ Mapped s₃.space m.image.block.page m.image.block.count ∧
    alone (.free h) s₃ = some (.ok 0, s₄) := by
  have hcalls : ((alone (.load "a.dll" true) atRest.shared).bind fun r₁ =>
      (alone (.load "a.dll" true) r₁.2).bind fun r₂ =>
      (alone (.free 0x10000000) r₂.2).bind fun r₃ =>
      (alone (.free 0x10000000) r₃.2).map fun r₄ =>
        ((r₁.1.toOption, r₂.1.toOption, r₃.1.toOption, r₄.1.toOption),
          r₂.2.modules.map fun m => (m.image.basePage, m.image.size),
          (r₃.2.space 0x10000).isNone)) =
      some ((some 0x10000000, some 0x10000000, some 1, some 0), [(0x10000, 4096)], true) := by
    decide +kernel
  obtain ⟨⟨a₁, s₁⟩, h₁, hcalls⟩ := Option.bind_eq_some_iff.mp hcalls
  obtain ⟨⟨a₂, s₂⟩, h₂, hcalls⟩ := Option.bind_eq_some_iff.mp hcalls
  obtain ⟨⟨a₃, s₃⟩, h₃, hcalls⟩ := Option.bind_eq_some_iff.mp hcalls
  obtain ⟨⟨a₄, s₄⟩, h₄, hcalls⟩ := Option.map_eq_some_iff.mp hcalls
  simp only [Prod.mk.injEq] at hcalls
  obtain ⟨⟨ha₁, ha₂, ha₃, ha₄⟩, hmodules, hpage⟩ := hcalls
  have hok : ∀ {r : Reply} {h : Nat}, r.toOption = some h → r = .ok h := by
    intro r h hr
    cases r with
    | error stop => cases hr
    | ok h' => exact congrArg Except.ok (Option.some.inj hr)
  obtain ⟨m, hm, hfields⟩ : ∃ m ∈ s₂.modules, (m.image.basePage, m.image.size) = (0x10000, 4096) := by
    apply List.mem_map.mp
    rw [hmodules]
    exact List.mem_singleton_self _
  obtain ⟨hpage', hsize⟩ := Prod.mk.inj hfields
  refine ⟨0x10000000, s₁, s₂, s₃, s₄, m, hm, ?_, ?_, ?_, ?_, ?_, ?_⟩
  · rw [h₁, hok ha₁]
  · rw [h₂, hok ha₂]
  · rw [LoadedModule.hModule, MappedImage.base, hpage']
    rfl
  · rw [h₃, hok ha₃]
  · intro hmapped
    have hsome := hmapped 0x10000 ⟨Nat.le_of_eq hpage', ?_⟩
    · rw [Option.isNone_iff_eq_none.mp hpage] at hsome
      cases hsome
    · show 0x10000 < m.image.basePage + m.image.size / pageSize
      rw [hpage', hsize]
      decide
  · rw [h₄, hok ha₄]

end WinCompat.Loader
