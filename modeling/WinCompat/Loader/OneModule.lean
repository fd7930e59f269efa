import WinCompat.Loader.InUse

/-!
# One module per file

A load looks its path up at the start and enters the module in the registry at the end, and does not
look again in between. What holds of all threads therefore rests on no load getting past the lookup
while another load of the same path is under way (`NoOverlap`): not on another thread, and not on
the same one, from an entry point or an import.

`registryDiscipline` says what is kept then. Every path under way is claimed by one frame only, so
that a chain of loads is never longer than there are files; and no two owners share a page, so that
two modules never have one handle.
-/

namespace WinCompat.Loader

open Lib Lib.Paging

/-- A path is a key, a handle is a key, a load of a path that is registered answers with the handle
    registered, and the chain of loads on a thread is bounded by the number of files. -/
structure OneModule (host : Host) (T : Threads Holdings Sys Call Reply) : Prop where
  paths : T.shared.modules.Pairwise fun m m' => m.modulePath ≠ m'.modulePath
  handles : T.shared.modules.Pairwise fun m m' => m.hModule ≠ m'.hModule
  registered : ∀ t f rest path runDllMain canonical, ∀ m ∈ T.shared.modules,
    T.stack t = f :: rest → f.prog = loadDllEx host path runDllMain →
    host.canonicalize path = .ok canonical → m.modulePath = canonical →
    ∃ T' f', (loaderSystem host).next T (.act t) = some T' ∧ T'.stack t = f' :: rest ∧
      f'.prog = .ret (.ok m.hModule)
  chain : ∀ files : Finset String,
    (∀ path canonical, host.canonicalize path = .ok canonical → canonical ∈ files) →
    ∀ t, (T.stack t).length ≤ files.card + 1

/-- A load that is about to look its path up, and will not find it, is the only one of that path.
    Nothing in the code rules another out: the look-up and the registration are not one step. -/
def NoOverlap (host : Host) (T : Threads Holdings Sys Call Reply) (ev : Event Call Reply) : Prop :=
  ∀ t f rest path runDllMain canonical, ev = .act t → T.stack t = f :: rest →
    f.call = .load path runDllMain → f.own.checked = false →
    host.canonicalize path = .ok canonical →
    (∀ m ∈ T.shared.modules, m.modulePath ≠ canonical) →
    (∀ g ∈ rest, g.own.claim ≠ some canonical) ∧
      ∀ u, u ≠ t → ∀ g ∈ T.stack u, g.own.claim ≠ some canonical

/-! ## The discipline -/

/-- The registry as it should be. -/
structure RegistryOk (s : Sys) : Prop where
  paths : s.modules.Pairwise fun m m' => m.modulePath ≠ m'.modulePath
  owned : Owned (s.modules.flatMap LoadedModule.blocks) s.space
  pos : ∀ m ∈ s.modules, 0 < m.image.block.count

/-- A frame as it should be, beside the registry. -/
structure FrameOk (host : Host) (l : Holdings) (s : Sys) : Prop where
  owned : Owned l.blocks s.space
  apart : ∀ b ∈ l.blocks, ∀ m ∈ s.modules, ∀ b' ∈ m.blocks, NoShare b b'
  unregistered : ∀ canonical, l.claim = some canonical →
    ∀ m ∈ s.modules, m.modulePath ≠ canonical
  file : ∀ canonical, l.claim = some canonical → ∃ path, host.canonicalize path = .ok canonical
  pos : ∀ b, l.image = some b → 0 < b.count

/-- Two frames own no page and claim no path in common. -/
structure FramesApart (l k : Holdings) : Prop where
  blocks : ∀ b ∈ l.blocks, ∀ b' ∈ k.blocks, NoShare b b'
  claims : ∀ canonical, l.claim = some canonical → k.claim ≠ some canonical

def registryDiscipline (host : Host) : Discipline Holdings Sys Call where
  step := Does host
  shared := RegistryOk
  frame := FrameOk host
  apart := FramesApart
  permit c l s k := ∀ path runDllMain canonical, c = .load path runDllMain → l.checked = false →
    host.canonicalize path = .ok canonical → (∀ m ∈ s.modules, m.modulePath ≠ canonical) →
    k.claim ≠ some canonical
  calls l _ := l.claim.isSome

variable {host : Host} {c : Call} {l l' k : Holdings} {s s' : Sys}

theorem RegistryOk.memory (h : RegistryOk s) : MemoryOk s := ⟨h.owned, h.pos⟩

theorem FrameOk.held (h : FrameOk host l s) : HeldOk l s := ⟨h.owned, h.apart, h.pos⟩

theorem Does.own (hs : RegistryOk s) (hl : FrameOk host l s) (h : Does host c (l, s) (l', s')) :
    RegistryOk s' ∧ FrameOk host l' s' := by
  obtain ⟨hmemory, hheld⟩ := h.ownMemory hs.memory hl.held
  suffices hrest : (s'.modules.Pairwise fun m m' => m.modulePath ≠ m'.modulePath) ∧
      ∀ canonical, l'.claim = some canonical →
        (∀ m ∈ s'.modules, m.modulePath ≠ canonical) ∧
          ∃ path, host.canonicalize path = .ok canonical by
    exact ⟨⟨hrest.1, hmemory.owned, hmemory.pos⟩, hheld.owned, hheld.apart,
      fun x hx => (hrest.2 x hx).1, fun x hx => (hrest.2 x hx).2, hheld.pos⟩
  cases h with
  | look => exact ⟨hs.paths, fun x hx => ⟨hl.unregistered x hx, hl.file x hx⟩⟩
  | claim path runDllMain canonical hc hchecked hcanon hnew =>
    refine ⟨hs.paths, ?_⟩
    intro x hx
    cases hx
    exact ⟨hnew, path, hcanon⟩
  | memory hmodules hmem =>
    rw [hmem.claim, hmodules]
    exact ⟨hs.paths, fun x hx => ⟨hl.unregistered x hx, hl.file x hx⟩⟩
  | register m hclaim himage hblocks =>
    refine ⟨?_, nofun⟩
    refine List.pairwise_append.mpr ⟨hs.paths, List.pairwise_singleton _ _, ?_⟩
    intro m' hm' x hx
    cases List.mem_singleton.mp hx
    exact hl.unregistered _ hclaim m' hm'
  | remove m h hc hclaim hclaim' hchecked hnone hfind himage hblocks =>
    refine ⟨hs.paths.sublist List.eraseP_sublist, ?_⟩
    intro x hx
    rw [hclaim'] at hx
    cases hx

theorem Does.others (hk : FrameOk host k s) (hapart : FramesApart l k)
    (hpermit : (registryDiscipline host).permit c l s k) (h : Does host c (l, s) (l', s')) :
    FrameOk host k s' ∧ FramesApart l' k := by
  obtain ⟨hheld, hblocks⟩ := h.othersMemory hk.held hapart.blocks
  suffices hrest : (∀ canonical, k.claim = some canonical →
      ∀ m ∈ s'.modules, m.modulePath ≠ canonical) ∧
        ∀ canonical, l'.claim = some canonical → k.claim ≠ some canonical by
    exact ⟨⟨hheld.owned, hheld.apart, hrest.1, hk.file, hheld.pos⟩, hblocks, hrest.2⟩
  cases h with
  | look => exact ⟨hk.unregistered, hapart.claims⟩
  | claim path runDllMain canonical hc hchecked hcanon hnew =>
    refine ⟨hk.unregistered, ?_⟩
    intro x hx
    cases hx
    exact hpermit path runDllMain canonical hc hchecked hcanon hnew
  | memory hmodules hmem =>
    rw [hmem.claim, hmodules]
    exact ⟨hk.unregistered, hapart.claims⟩
  | register m hclaim himage hblocks =>
    refine ⟨?_, nofun⟩
    intro x hx m' hm'
    rcases List.mem_append.mp hm' with hm' | hm'
    · exact hk.unregistered x hx m' hm'
    · cases List.mem_singleton.mp hm'
      intro heq
      exact hapart.claims _ hclaim (heq ▸ hx)
  | remove m h hc hclaim hclaim' hchecked hnone hfind himage hblocks =>
    refine ⟨fun x hx m' hm' => hk.unregistered x hx m' (List.mem_of_mem_eraseP hm'), ?_⟩
    intro x hx
    rw [hclaim'] at hx
    cases hx

theorem registryDiscipline_lawful (host : Host) :
    (registryDiscipline host).Lawful (loaderSystem host) where
  start s hs := by
    have hnone : s.modules = [] := hs
    refine ⟨?_, ⟨?_, ?_⟩, ?_⟩ <;> simp [hnone]
  body c p hp := by
    have hmeets := @meets_body host c p hp
    apply Meets.weaken (D := upkeep host fun _ => True)
    · exact fun _ _ => trivial
    · exact fun _ _ h => h.owned
    · exact fun _ _ _ _ h => h
    · exact fun _ _ h => h.1
    · exact hmeets
  fresh s _ := ⟨⟨nofun, .nil⟩, nofun, nofun, nofun, nofun⟩
  fresh_apart l := ⟨nofun, nofun⟩
  symm l k h := ⟨fun b hb b' hb' => (h.blocks b' hb' b hb).symm,
    fun x hx hk => h.claims x hk hx⟩
  own c l s l' s' hs hl h := Does.own hs hl h
  others c l s l' s' k _ _ hk hapart hpermit h := Does.others hk hapart hpermit h

/-! ## Every run -/

theorem NoOverlap.permits {T : Threads Holdings Sys Call Reply} {ev : Event Call Reply}
    (h : NoOverlap host T ev) : (registryDiscipline host).Permits T ev := by
  intro t f rest hev hstack
  constructor
  · intro g hg path runDllMain canonical hc hchecked hcanon hnew
    exact (h t f rest path runDllMain canonical hev hstack hc hchecked hcanon hnew).1 g hg
  · intro u hu g hg path runDllMain canonical hc hchecked hcanon hnew
    exact (h t f rest path runDllMain canonical hev hstack hc hchecked hcanon hnew).2 u hu g hg

theorem RegistryOk.find (h : RegistryOk s) {m : LoadedModule} (hm : m ∈ s.modules) :
    s.modules.find? (fun m' => m'.modulePath = m.modulePath) = some m := by
  cases hfind : s.modules.find? fun m' => m'.modulePath = m.modulePath with
  | none =>
    have hno := List.find?_eq_none.mp hfind m hm
    simp at hno
  | some m' =>
    have hnodup : (s.modules.map LoadedModule.modulePath).Nodup := List.pairwise_map.mpr h.paths
    have hpath : m'.modulePath = m.modulePath := by simpa using List.find?_some hfind
    have hsame : m' = m :=
      List.inj_on_of_nodup_map hnodup (List.mem_of_find?_eq_some hfind) hm hpath
    rw [hsame]

theorem chain_le {files : Finset String}
    (hfiles : ∀ path canonical, host.canonicalize path = .ok canonical → canonical ∈ files)
    {fs : List (Frame Holdings Sys Call Reply)}
    (hframe : ∀ f ∈ fs, FrameOk host f.own s) (hcalling : ∀ f ∈ fs, f.own.claim.isSome)
    (hapart : fs.Pairwise fun f g => FramesApart f.own g.own) : fs.length ≤ files.card := by
  have hnodup : (fs.map fun f => f.own.claim.getD "").Nodup := by
    rw [List.Nodup, List.pairwise_map]
    refine hapart.imp_of_mem ?_
    intro f g hf hg h
    obtain ⟨x, hx⟩ := Option.isSome_iff_exists.mp (hcalling f hf)
    obtain ⟨y, hy⟩ := Option.isSome_iff_exists.mp (hcalling g hg)
    have hne := h.claims x hx
    rw [hy] at hne
    simpa [hx, hy] using fun heq => hne (congrArg some heq.symm)
  have hsub : (fs.map fun f => f.own.claim.getD "").toFinset ⊆ files := by
    intro x hx
    obtain ⟨f, hf, rfl⟩ := List.mem_map.mp (List.mem_toFinset.mp hx)
    obtain ⟨y, hy⟩ := Option.isSome_iff_exists.mp (hcalling f hf)
    obtain ⟨path, hpath⟩ := (hframe f hf).file y hy
    rw [hy]
    exact hfiles path y hpath
  have hcard := Finset.card_le_card hsub
  rwa [List.toFinset_card_of_nodup hnodup, List.length_map] at hcard

/-- **One module per file**, in every run in which no load of a path gets past the lookup while
    another load of it is under way. -/
theorem one_module {T : Threads Holdings Sys Call Reply}
    (h : (loaderSystem host).machine.ReachableIf (NoOverlap host) T) : OneModule host T := by
  have hall : (registryDiscipline host).Disciplined T := by
    apply (registryDiscipline_lawful host).disciplined
    exact h.mono fun _ _ => NoOverlap.permits
  have hreg : RegistryOk T.shared := hall.shared
  constructor
  · exact hreg.paths
  · exact hreg.memory.handles
  · intro t f rest path runDllMain canonical m hm hstack hprog hcanon hpath
    have hfind := hreg.find hm
    rw [hpath] at hfind
    -- The program begins with the lookup, which is one action.
    have hact : ∃ k, f.prog = .act (fun s => (lookup canonical s).2) k ∧
        k (f.own, T.shared) = .ret (.ok m.hModule) := by
      rw [hprog, loadDllEx, hcanon]
      refine ⟨_, rfl, ?_⟩
      have hlook : (lookup canonical (f.own, T.shared)).1 = .ok (some m.hModule) := by
        unfold lookup
        rw [hfind]
      show Proc.bind (.ret (lookup canonical (f.own, T.shared)).1) _ = _
      rw [hlook]
      rfl
    obtain ⟨k, hfirst, hlast⟩ := hact
    exact ⟨_, _, System.next_act _ hstack hfirst, Discipline.stack_setStack_self _ t _, hlast⟩
  · intro files hfiles t
    have htail : (T.stack t).tail.length ≤ files.card := by
      apply chain_le hfiles
      · exact fun f hf => hall.frame t f (List.mem_of_mem_tail hf)
      · intro f hf
        obtain ⟨_, hclaim⟩ := hall.calling t f hf
        exact hclaim
      · exact (hall.same t).sublist (List.tail_sublist _)
    rw [List.length_tail] at htail
    exact Nat.le_add_of_sub_le htail

/-! ## Two threads -/

/-- A call begins while neither thread is in one, and makes no calls of its own. -/
def OneCall (T : Threads Holdings Sys Call Reply) : Event Call Reply → Prop
  | .start t _ => t ≤ 1 ∧ (T.stack 0).length = 0 ∧ (T.stack 1).length = 0
  | .act _ | .leave _ => True
  | .enter _ | .reply _ _ => False

instance (T : Threads Holdings Sys Call Reply) (ev : Event Call Reply) :
    Decidable (OneCall T ev) :=
  match ev with
  | .start t _ => inferInstanceAs (Decidable (t ≤ 1 ∧ (T.stack 0).length = 0 ∧ _))
  | .act _ | .leave _ => isTrue trivial
  | .enter _ | .reply _ _ => isFalse id

/-- One thread is in a call at most, and in no second one. -/
def Alone (T : Threads Holdings Sys Call Reply) (t : Nat) : Prop :=
  (T.stack t).length ≤ 1 ∧ ∀ u, u ≠ t → T.stack u = []

variable {T T' : Threads Holdings Sys Call Reply} {t : Nat} {ev : Event Call Reply}

theorem Alone.only (h : Alone T t) {u : Nat} {f : Frame Holdings Sys Call Reply}
    {rest : List (Frame Holdings Sys Call Reply)} (hstack : T.stack u = f :: rest) :
    u = t ∧ rest = [] := by
  have hu : u = t := by
    by_contra hne
    rw [h.2 u hne] at hstack
    cases hstack
  subst hu
  have hlen := h.1
  rw [hstack, List.length_cons] at hlen
  exact ⟨rfl, List.length_eq_zero_iff.mp (by omega)⟩

theorem Alone.noOverlap (h : Alone T t) : NoOverlap host T ev := by
  intro u f rest path runDllMain canonical _ hstack _ _ _ _
  obtain ⟨rfl, rfl⟩ := h.only hstack
  refine ⟨nofun, fun v hv g hg => ?_⟩
  rw [h.2 v hv] at hg
  cases hg

theorem Alone.setStack (h : Alone T t) {l : List (Frame Holdings Sys Call Reply)}
    (hlen : l.length ≤ 1) (s : Sys) : Alone (Threads.setStack ⟨s, T.stack⟩ t l) t := by
  constructor
  · rwa [Discipline.stack_setStack_self]
  · intro u hu
    rw [Discipline.stack_setStack_ne _ _ hu]
    exact h.2 u hu

theorem Alone.step (h : Alone T t) (ht : t ≤ 1) (hone : OneCall T ev)
    (hn : (loaderSystem host).next T ev = some T') : ∃ u ≤ 1, Alone T' u := by
  cases System.next_step _ hn with
  | @start u c p hbody hlarge =>
    obtain ⟨hu, h0, h1⟩ := hone
    have hempty : ∀ v, T.stack v = [] := by
      intro v
      by_cases hv : v = t
      · subst hv
        match v, ht with
        | 0, _ => exact List.length_eq_zero_iff.mp h0
        | 1, _ => exact List.length_eq_zero_iff.mp h1
      · exact h.2 v hv
    have halone : Alone T u := ⟨by rw [hempty u]; exact Nat.zero_le 1, fun v _ => hempty v⟩
    exact ⟨u, hu, halone.setStack (by rw [hempty u]; exact Nat.le_refl 1) T.shared⟩
  | @act _ f _ upd k hstack hprog =>
    obtain ⟨rfl, rfl⟩ := h.only hstack
    exact ⟨_, ht, h.setStack (l := [⟨f.call, _, _⟩]) (Nat.le_refl 1) _⟩
  | enter hstack hprog hbody => exact hone.elim
  | leave hstack hprog =>
    obtain ⟨rfl, rfl⟩ := h.only hstack
    exact ⟨_, ht, h.setStack (l := []) (Nat.zero_le 1) T.shared⟩
  | reply hstack hprog hforeign => exact hone.elim

theorem noOverlap_of_oneCall (h : (loaderSystem host).machine.ReachableIf OneCall T) :
    (loaderSystem host).machine.ReachableIf (NoOverlap host) T := by
  have hall : (loaderSystem host).machine.ReachableIf (NoOverlap host) T ∧ ∃ t ≤ 1, Alone T t := by
    refine h.invariant (P := fun T => (loaderSystem host).machine.ReachableIf (NoOverlap host) T ∧
      ∃ t ≤ 1, Alone T t) ?_ ?_
    · intro T hinit
      refine ⟨.start hinit, 0, Nat.zero_le 1, ?_, fun u _ => hinit.2 u⟩
      rw [hinit.2 0]
      exact Nat.zero_le 1
    · rintro T ev T' ⟨hreach, t, ht, halone⟩ hone hn
      exact ⟨.step hreach halone.noOverlap hn, halone.step ht hone hn⟩
  exact hall.1

/-- Thread 0 loads one file and thread 1 another, and thread 0 is about to load the first again. -/
def loadedTwo : List (Event Call Reply) :=
  [.start 0 (.load "a.dll" false)] ++ List.replicate 14 (.act 0) ++
    [.leave 0, .start 1 (.load "b.dll" false)] ++ List.replicate 12 (.act 1) ++
    [.leave 1, .start 0 (.load "a.dll" false)]

theorem one_module_loadedTwo : ∃ T, (loaderSystem raceHost).machine.exec atRest loadedTwo = some T ∧
    T.shared.modules.map LoadedModule.modulePath = ["/games/a.dll", "/games/b.dll"] ∧
    OneModule raceHost T := by
  have hrun : (((loaderSystem raceHost).machine.execIf OneCall atRest loadedTwo).map fun T =>
      T.shared.modules.map LoadedModule.modulePath) = some ["/games/a.dll", "/games/b.dll"] := by
    decide +kernel
  obtain ⟨T, hrun, hpaths⟩ := Option.map_eq_some_iff.mp hrun
  refine ⟨T, ?_, hpaths, one_module ?_⟩
  · exact Machine.exec_of_execIf hrun
  · exact noOverlap_of_oneCall (Machine.reachableIf_of_execIf (.start (atRest_init raceHost)) hrun)

/-- Both threads look the file up before either has loaded it. -/
def bothLoaded : List (Event Call Reply) :=
  [.start 0 (.load "a.dll" false), .start 1 (.load "a.dll" false), .act 0, .act 1] ++
    List.replicate 13 (.act 0) ++ List.replicate 11 (.act 1)

theorem two_loads_two_modules :
    ¬ ∀ host T, (loaderSystem host).machine.Reachable T → OneModule host T := by
  intro h
  have hpaths : (((loaderSystem raceHost).machine.exec atRest bothLoaded).map fun T =>
      T.shared.modules.map LoadedModule.modulePath) = some ["/games/a.dll", "/games/a.dll"] := by
    decide +kernel
  obtain ⟨T, hrun, hT⟩ := Option.map_eq_some_iff.mp hpaths
  have hone := h raceHost T (Machine.reachable_of_exec (atRest_init raceHost) hrun)
  have hnodup : (T.shared.modules.map LoadedModule.modulePath).Nodup :=
    List.pairwise_map.mpr hone.paths
  rw [hT] at hnodup
  simp at hnodup

end WinCompat.Loader
