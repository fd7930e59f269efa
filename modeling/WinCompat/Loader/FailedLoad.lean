import WinCompat.Loader.OneModule

/-!
# What a failed load leaves behind

One call after the other, with any files, any kernel and any `DllMain`. Between the mapping of the
image and `DllMain` a load can fail at six places and releases the image at none of them; what it
does there only ever adds mappings and modules (`Since`). It leaves nothing behind exactly when it
fails before it has mapped anything, or gets `FALSE` from a `DllMain` that had left nothing behind
either (`CleanFailure`).
-/

namespace WinCompat.Loader

open Lib Lib.Paging

abbrev Callee := Call → Sys → Option (Reply × Sys)

def Sys.withSpace (s : Sys) (space : Space) : Sys := { s with space := space }

/-- The same pages are mapped and the same modules registered. -/
def SameSystem (s s' : Sys) : Prop := SamePages s.space s'.space ∧ s'.modules = s.modules

/-- No mapping is made for the image. -/
def MapRefused (host : Host) (f : DllFile) (s : Sys) : Prop :=
  roundUp f.opt.sizeOfImage.toNat pageSize = 0 ∨
    ∃ msg, host.mmap s.asked s.space (roundUp f.opt.sizeOfImage.toNat pageSize) = .error msg

/-- Beside the blocks of the load itself, what is mapped and registered is what was. -/
def Undisturbed (s : Sys) (mapped : MappedImage) (b : Bound) (s' : Sys) : Prop :=
  (∀ i, (∀ x ∈ [mapped.block] ++ [b.stack] ++ b.arena.blocks, ¬ x.HasPage i) →
    (s'.space i).isSome = (s.space i).isSome) ∧ s'.modules = s.modules

/-- The failures that leave nothing behind. -/
inductive CleanFailure (host : Host) (callee : Callee) (path : String) (runDllMain : Bool)
    (s : Sys) : Prop
  | unread (msg : String) (h : host.canonicalize path = .error msg)
  | unopened (canonical : String) (e : Stop) (hcanon : host.canonicalize path = .ok canonical)
      (h : openDll host path canonical = .error e)
  | unmapped (canonical : String) (f : DllFile) (hcanon : host.canonicalize path = .ok canonical)
      (hopen : openDll host path canonical = .ok f) (h : MapRefused host f s)
  /-- Every step up to `DllMain` has succeeded. -/
  | refused (canonical : String) (f : DllFile) (mapped : MappedImage) (b : Bound) (l : Holdings)
      (s₁ s₂ : Sys) (entry result : Nat) (hcanon : host.canonicalize path = .ok canonical)
      (hopen : openDll host path canonical = .ok f)
      (hprepare : Attempt.run callee (prepare host f) (.claiming canonical, s) =
        some (.ok (mapped, b), l, s₁))
      (hrun : runDllMain = true) (hentry : f.opt.addressOfEntryPoint ≠ 0)
      (hptr : mapped.rvaToPtr f.opt.addressOfEntryPoint = some entry)
      (hmain : callee (.dllMain entry mapped.base) s₁ = some (.ok result, s₂))
      (hresult : BitVec.ofNat 32 result = 0) (h : Undisturbed s mapped b s₂)

/-! ## What only adds -/

/-- Mappings and modules have been added. -/
structure Grows (s s' : Sys) : Prop where
  kept : ∀ i, (s.space i).isSome → (s'.space i).isSome
  modules : s.modules <+: s'.modules

/-- Since `s₀` mappings and modules have been added, and what the load owns is among the former. -/
structure Since (s₀ : Sys) (l : Holdings) (s : Sys) : Prop where
  owned : Owned l.blocks s.space
  grows : Grows s₀ s
  fresh : ∀ b ∈ l.blocks, Unmapped s₀.space b.page b.count
  pos : ∀ b, l.image = some b → 0 < b.count

/-- The calls a load makes on the way to `DllMain`. -/
def Quiet (c : Call) : Prop := (∃ path, c = .load path false) ∨ ∃ h name, c = .getProc h name

variable {host : Host} {callee : Callee} {s₀ s s' : Sys} {l l' : Holdings} {c : Call}

theorem Grows.refl (s : Sys) : Grows s s := ⟨fun _ h => h, List.prefix_refl _⟩

theorem Grows.trans {s'' : Sys} (h : Grows s s') (h' : Grows s' s'') : Grows s s'' :=
  ⟨fun i hi => h'.kept i (h.kept i hi), h.modules.trans h'.modules⟩

theorem Since.start (hblocks : l.blocks = []) (himage : l.image = none) : Since s l s := by
  refine ⟨⟨?_, ?_⟩, .refl s, ?_, ?_⟩ <;> simp [hblocks, himage]

/-- The step lemma. -/
theorem Since.step (h : Since s₀ l s) (hc : ∀ x, c ≠ .free x)
    (hdoes : Does host c (l, s) (l', s')) : Since s₀ l' s' := by
  cases hdoes with
  | look => exact ⟨h.owned, h.grows, h.fresh, h.pos⟩
  | claim => exact ⟨h.owned, h.grows, h.fresh, h.pos⟩
  | memory hmodules hmem =>
    refine ⟨⟨hmem.remap.held, hmem.remap.pairwise⟩, ⟨?_, hmodules ▸ h.grows.modules⟩, ?_, ?_⟩
    · intro i hi
      rcases hmem.remap.kept i (h.grows.kept i hi) with hkept | ⟨b, hb, hib⟩
      · exact hkept
      · rw [h.fresh b hb i hib] at hi
        cases hi
    · intro b hb i hi
      rcases hmem.remap.fresh b hb with hold | hnew
      · exact h.fresh b hold i hi
      · by_contra hne
        have hsome := h.grows.kept i (Option.ne_none_iff_isSome.mp hne)
        rw [hnew i hi] at hsome
        cases hsome
    · intro b hb
      exact (hmem.image b hb).elim (h.pos b) id
  | register m hclaim himage hblocks =>
    refine ⟨⟨nofun, .nil⟩, ⟨h.grows.kept, ?_⟩, nofun, nofun⟩
    exact h.grows.modules.trans (List.prefix_append _ _)
  | remove m x hx => exact absurd hx (hc x)

theorem Since.run {α : Type} {post : α → Holdings → Prop} {p : Proc (Holdings × Sys) Call Reply α}
    (h : Since s₀ l s) (hc : ∀ x, c ≠ .free x)
    (hcallee : ∀ d s b s', Quiet d → callee d s = some (b, s') → Grows s s')
    (hp : Meets (upkeep host Quiet) c post p l) {a : α}
    (hrun : Proc.run callee p (l, s) = some (a, l', s')) : post a l' ∧ Since s₀ l' s' := by
  refine Meets.run (D := upkeep host Quiet) (I := Since s₀) ?_ ?_ ?_ p hp h hrun
  · exact fun _ _ hi => ⟨trivial, hi.owned⟩
  · exact fun _ _ _ _ hi hs => hi.step hc hs
  · intro l s d b s' hi hd hcall
    have hgrows := hcallee d s b s' hd.2 hcall
    exact ⟨⟨fun x hx i hin => hgrows.kept i (hi.owned.mapped x hx i hin), hi.owned.pairwise⟩,
      hi.grows.trans hgrows, hi.fresh, hi.pos⟩

theorem perform_grows (guest : Callee) : ∀ (depth : Nat) (c : Call) (s : Sys) (b : Reply) (s' : Sys),
    Quiet c → perform host guest depth c s = some (b, s') → Grows s s' := by
  intro depth
  induction depth with
  | zero => exact fun c s b s' _ h => nomatch h
  | succ depth ih =>
    intro c s b s' hquiet h
    have hload : ∀ path, Quiet (.load path false) := fun path => Or.inl ⟨path, rfl⟩
    have hproc : ∀ x name, Quiet (.getProc x name) := fun x name => Or.inr ⟨x, name, rfl⟩
    obtain ⟨p, hbody, hmeets, hfree⟩ : ∃ p, body host c = some p ∧
        Meets (upkeep host Quiet) c (fun _ _ => True) p .none ∧ ∀ x, c ≠ .free x := by
      rcases hquiet with ⟨path, rfl⟩ | ⟨x, name, rfl⟩
      · exact ⟨_, rfl, meets_loadDllEx path false hload hproc nofun, nofun⟩
      · exact ⟨_, rfl, meets_getProcAddress x name, nofun⟩
    unfold perform at h
    rw [hbody] at h
    obtain ⟨⟨b', l', s₁⟩, hrun, heq⟩ := Option.map_eq_some_iff.mp h
    cases heq
    exact (Since.run (Since.start rfl rfl) hfree ih hmeets hrun).2.grows

/-! ## The way to `DllMain` -/

theorem Since.leaks (h : Since s₀ l s) {b : Block} (himage : l.image = some b) :
    ¬ SamePages s₀.space s.space := by
  intro hsame
  have hb : b ∈ l.blocks := by
    unfold Holdings.blocks
    rw [himage]
    exact List.mem_append_left _ (List.mem_append_left _ List.mem_cons_self)
  have hin : b.HasPage b.page := ⟨Nat.le_refl _, Nat.lt_add_of_pos_right (h.pos b himage)⟩
  have hsome := h.owned.mapped b hb b.page hin
  rw [hsame b.page, h.fresh b hb b.page hin] at hsome
  cases hsome

variable {canonical : String} {f : DllFile}

theorem mapImage_cases (hc : ∀ x, c ≠ .free x)
    (hcallee : ∀ d s b s', Quiet d → callee d s = some (b, s') → Grows s s')
    {r : Except Stop MappedImage}
    (hrun : Attempt.run callee (mapImageAnywhere host f) (.claiming canonical, s) =
      some (r, l', s')) :
    (MapRefused host f s ∧ (∃ e, r = .error e) ∧ SameSystem s s') ∨
      (¬ MapRefused host f s ∧ Since s l' s' ∧ (∃ b, l'.image = some b) ∧
        ∀ mapped, r = .ok mapped →
          l' = (Holdings.claiming canonical).withImage (some mapped.block)) := by
  unfold mapImageAnywhere at hrun
  split_ifs at hrun with hsize
  · cases hrun
    exact Or.inl ⟨Or.inl hsize, ⟨_, rfl⟩, .refl _, rfl⟩
  · cases hos : host.mmap s.asked s.space (roundUp f.opt.sizeOfImage.toNat pageSize) with
    | error msg =>
      have hmap : Attempt.run callee (mapAnywhere host f) (.claiming canonical, s) =
          some (.error (.err (.mmapFailed (roundUp f.opt.sizeOfImage.toNat pageSize) msg)),
            .claiming canonical, { s with asked := s.asked + 1 }) := by
        unfold mapAnywhere withMmap
        rw [Attempt.run_atomically, hos]
      rw [Attempt.run_bind_error _ hmap] at hrun
      cases hrun
      exact Or.inl ⟨Or.inr ⟨msg, hos⟩, ⟨_, rfl⟩, .refl _, rfl⟩
    | ok page =>
      have hnot : ¬ MapRefused host f s := by
        rintro (hzero | ⟨msg, hmsg⟩)
        · exact hsize hzero
        · rw [hos] at hmsg
          cases hmsg
      have hmap : ∃ s₁, Attempt.run callee (mapAnywhere host f) (.claiming canonical, s) =
          some (.ok (f.imageAt page),
            (Holdings.claiming canonical).withImage (some (f.imageAt page).block), s₁) := by
        unfold mapAnywhere withMmap
        rw [Attempt.run_atomically, hos]
        exact ⟨_, rfl⟩
      obtain ⟨s₁, hmap⟩ := hmap
      have hsince := (Since.run (Since.start rfl rfl) hc hcallee
        (meets_mapAnywhere f rfl hsize) hmap).2
      rw [Attempt.run_bind_ok _ hmap] at hrun
      have hmeets : Meets (upkeep host Quiet) c
          (fun (r : Except Stop MappedImage) l'' =>
            l'' = (Holdings.claiming canonical).withImage (some (f.imageAt page).block) ∧
              ∀ mapped, r = .ok mapped → mapped = f.imageAt page)
          (((onSpace fun space => protectSections (f.imageAt page) f.file.pe.sections
            (copyImage f (f.imageAt page) space)) >>= fun _ => pure (f.imageAt page) :
              Load MappedImage))
          ((Holdings.claiming canonical).withImage (some (f.imageAt page).block)) := by
        refine Meets.attempt_bind _ _ (meets_protect f (f.imageAt page)) ?_ ?_
        · rintro _ l₂ rfl
          exact meets_pure ⟨rfl, fun _ h => by cases h; rfl⟩
        · rintro _ l₂ rfl
          exact ⟨rfl, nofun⟩
      obtain ⟨⟨rfl, hvalue⟩, hsince'⟩ := Since.run hsince hc hcallee hmeets hrun
      refine Or.inr ⟨hnot, hsince', ⟨_, rfl⟩, ?_⟩
      intro mapped hr
      rw [hvalue mapped hr]

theorem prepare_cases (hc : ∀ x, c ≠ .free x)
    (hcallee : ∀ d s b s', Quiet d → callee d s = some (b, s') → Grows s s')
    {r : Except Stop (MappedImage × Bound)}
    (hrun : Attempt.run callee (prepare host f) (.claiming canonical, s) = some (r, l', s')) :
    (MapRefused host f s ∧ (∃ e, r = .error e) ∧ SameSystem s s') ∨
      (¬ MapRefused host f s ∧ Since s l' s' ∧ (∃ b, l'.image = some b) ∧
        ∀ mapped b, r = .ok (mapped, b) →
          l' = ⟨true, some canonical, some mapped.block, b.arena.blocks, some b.stack⟩) := by
  unfold prepare at hrun
  rcases Attempt.run_bind_cases hrun with ⟨mapped, ⟨l₁, s₁⟩, hmap, hrest⟩ | ⟨e, hmap, rfl⟩
  · rcases mapImage_cases hc hcallee hmap with ⟨_, ⟨_, he⟩, _⟩ | ⟨hnot, hsince, -, hl⟩
    · cases he
    · obtain rfl := hl mapped rfl
      have hload : ∀ path, Quiet (.load path false) := fun path => Or.inl ⟨path, rfl⟩
      have hproc : ∀ x name, Quiet (.getProc x name) := fun x name => Or.inr ⟨x, name, rfl⟩
      have hmeets : Meets (upkeep host Quiet) c
          (fun (r : Except Stop (MappedImage × Bound)) l'' => (∃ b, l''.image = some b) ∧
            ∀ mapped b, r = .ok (mapped, b) →
              l'' = ⟨true, some canonical, some mapped.block, b.arena.blocks, some b.stack⟩)
          ((bindImage host f mapped >>= fun b => pure (mapped, b) : Load (MappedImage × Bound)))
          ((Holdings.claiming canonical).withImage (some mapped.block)) := by
        refine Meets.attempt_bind _ _ (meets_bindImage f mapped rfl rfl rfl hload hproc) ?_ ?_
        · rintro b l₂ rfl
          refine meets_pure ⟨⟨_, rfl⟩, ?_⟩
          intro mapped' b' h
          cases h
          rfl
        · intro e l₂ himage
          exact ⟨⟨_, himage⟩, nofun⟩
      obtain ⟨hpost, hsince'⟩ := Since.run hsince hc hcallee hmeets hrest
      exact Or.inr ⟨hnot, hsince', hpost⟩
  · rcases mapImage_cases hc hcallee hmap with ⟨hrefused, -, hsame⟩ | ⟨hnot, hsince, himage, -⟩
    · exact Or.inl ⟨hrefused, ⟨e, rfl⟩, hsame⟩
    · exact Or.inr ⟨hnot, hsince, himage, nofun⟩

/-! ## From `DllMain` on -/

theorem run_abandon {α : Type} (b : Bound) (e : Stop) (l : Holdings) (s : Sys) :
    Attempt.run callee (abandon b e : Load α) (l, s) =
      some (.error e, (l.withStack none).withThunks [],
        s.withSpace (unmapBlocks s.space ([b.stack] ++ b.arena.blocks))) := rfl

theorem attach_cases {mapped : MappedImage} {b : Bound} {runDllMain : Bool} {e : LoadError}
    (hrun : Attempt.run callee (attach f canonical mapped b runDllMain) (l, s) =
      some (.error (.err e), l', s')) :
    runDllMain = true ∧ f.opt.addressOfEntryPoint ≠ 0 ∧
      ((mapped.rvaToPtr f.opt.addressOfEntryPoint = none ∧
          Attempt.run callee (abandon b (.err e) : Load Unit) (l, s) =
            some (.error (.err e), l', s')) ∨
        ∃ entry result s₂, mapped.rvaToPtr f.opt.addressOfEntryPoint = some entry ∧
          callee (.dllMain entry mapped.base) s = some (.ok result, s₂) ∧
          BitVec.ofNat 32 result = 0 ∧
          s' = s₂.withSpace (unmapBlocks s₂.space
            ([mapped.block] ++ [b.stack] ++ b.arena.blocks))) := by
  unfold attach at hrun
  dsimp only at hrun
  split_ifs at hrun with hskip
  · cases hrun
  · obtain ⟨hmain, hentry⟩ := not_or.mp hskip
    refine ⟨by simpa using hmain, hentry, ?_⟩
    split at hrun
    · rename_i hptr
      refine Or.inl ⟨hptr, ?_⟩
      rw [run_abandon] at hrun
      cases hrun
      exact run_abandon _ _ _ _
    · rename_i entry hptr
      refine Or.inr ?_
      rcases Attempt.run_bind_cases hrun with ⟨reply, ⟨l₁, s₁⟩, hcall, hrest⟩ | ⟨_, hcall, _⟩
      · rw [Attempt.run_call] at hcall
        obtain ⟨⟨answer, s₂⟩, hanswer, heq⟩ := Option.map_eq_some_iff.mp hcall
        cases heq
        cases answer with
        | error stop => cases hrest
        | ok result =>
          dsimp only at hrest
          split_ifs at hrest with hresult
          · cases hrest
            exact ⟨entry, result, s₂, hptr, hanswer, hresult, rfl⟩
          · cases hrest
      · rw [Attempt.run_call] at hcall
        obtain ⟨_, _, heq⟩ := Option.map_eq_some_iff.mp hcall
        cases heq

theorem Since.released (h : Since s₀ l s) {mapped : MappedImage} {b : Bound} {s₂ : Sys}
    (himage : l.image = some mapped.block) (hthunks : l.thunks = b.arena.blocks)
    (hstack : l.stack = some b.stack) :
    SameSystem s₀ (s₂.withSpace (unmapBlocks s₂.space
      ([mapped.block] ++ [b.stack] ++ b.arena.blocks))) ↔ Undisturbed s₀ mapped b s₂ := by
  have hown : ∀ x ∈ [mapped.block] ++ [b.stack] ++ b.arena.blocks, x ∈ l.blocks := by
    intro x hx
    unfold Holdings.blocks
    rw [himage, hthunks, hstack]
    simp only [List.cons_append, List.nil_append, List.mem_cons, Option.toList_some,
      List.mem_append, List.not_mem_nil, or_false] at hx ⊢
    tauto
  unfold SameSystem Undisturbed SamePages Sys.withSpace
  dsimp only
  refine and_congr_left fun _ => ?_
  constructor
  · intro hsame i hi
    have hpage := hsame i
    rwa [unmapBlocks_kept hi] at hpage
  · intro hsame i
    by_cases hi : ∃ x ∈ [mapped.block] ++ [b.stack] ++ b.arena.blocks, x.HasPage i
    · obtain ⟨x, hx, hix⟩ := hi
      rw [unmapBlocks_none (Or.inr ⟨x, hx, hix⟩), h.fresh x (hown x hx) i hix]
    · rw [unmapBlocks_kept fun x hx hix => hi ⟨x, hx, hix⟩]
      exact hsame i fun x hx hix => hi ⟨x, hx, hix⟩

/-! ## The whole load -/

theorem loadFile_clean_iff (hcallee : ∀ d s b s', Quiet d → callee d s = some (b, s') → Grows s s')
    {path canonical : String} {runDllMain : Bool} {e : LoadError}
    (hcanon : host.canonicalize path = .ok canonical) (hopen : openDll host path canonical = .ok f)
    (hrun : Attempt.run callee (loadFile host f canonical runDllMain) (.claiming canonical, s) =
      some (.error (.err e), l', s')) :
    SameSystem s s' ↔ CleanFailure host callee path runDllMain s := by
  have hfree : ∀ x, Call.load path runDllMain ≠ .free x := nofun
  -- A clean failure is a refusal of one of two kinds: the file is known.
  have hclean : CleanFailure host callee path runDllMain s → MapRefused host f s ∨
      ∃ mapped b l s₁ s₂ entry result,
        Attempt.run callee (prepare host f) (.claiming canonical, s) =
          some (.ok (mapped, b), l, s₁) ∧ runDllMain = true ∧ f.opt.addressOfEntryPoint ≠ 0 ∧
        mapped.rvaToPtr f.opt.addressOfEntryPoint = some entry ∧
        callee (.dllMain entry mapped.base) s₁ = some (.ok result, s₂) ∧
        BitVec.ofNat 32 result = 0 ∧ Undisturbed s mapped b s₂ := by
    intro h
    cases h with
    | unread msg h => rw [hcanon] at h; cases h
    | unopened canonical' e' hcanon' h =>
      rw [hcanon] at hcanon'
      cases hcanon'
      rw [hopen] at h
      cases h
    | unmapped canonical' f' hcanon' hopen' h =>
      rw [hcanon] at hcanon'
      cases hcanon'
      rw [hopen] at hopen'
      cases hopen'
      exact Or.inl h
    | refused canonical' f' mapped b l s₁ s₂ entry result hcanon' hopen' hprepare hmain hentry hptr
        hcall hresult h =>
      rw [hcanon] at hcanon'
      cases hcanon'
      rw [hopen] at hopen'
      cases hopen'
      exact Or.inr ⟨mapped, b, l, s₁, s₂, entry, result, hprepare, hmain, hentry, hptr, hcall,
        hresult, h⟩
  rcases Attempt.run_bind_cases hrun with ⟨⟨mapped, b⟩, ⟨l₁, s₁⟩, hprepare, hrest⟩ | ⟨e', hprepare, he⟩
  · rcases prepare_cases hfree hcallee hprepare with ⟨-, ⟨_, he⟩, -⟩ | ⟨hnot, hsince, -, hl⟩
    · cases he
    obtain rfl := hl mapped b rfl
    rcases Attempt.run_bind_cases hrest with ⟨_, _, _, hregister⟩ | ⟨e', hattach, he⟩
    · cases hregister
    cases he
    obtain ⟨hmain, hentry, hfail⟩ := attach_cases hattach
    rcases hfail with ⟨hptr, habandon⟩ | ⟨entry, result, s₂, hptr, hcall, hresult, rfl⟩
    · -- The entry point is outside the image.
      have hleft : Meets (upkeep host Quiet) (.load path runDllMain)
          (fun (_ : Except Stop Unit) l'' => l''.image = some mapped.block)
          (abandon b (.err e) : Load Unit)
          ⟨true, some canonical, some mapped.block, b.arena.blocks, some b.stack⟩ :=
        meets_abandon rfl rfl rfl
      obtain ⟨himage, hsince'⟩ := Since.run hsince hfree hcallee hleft habandon
      constructor
      · exact fun hsame => absurd hsame.1 (hsince'.leaks himage)
      · intro h
        rcases hclean h with h | ⟨mapped', b', l, s₁', s₂, entry, result, hprepare', _, _, hptr', _⟩
        · exact absurd h hnot
        · rw [hprepare] at hprepare'
          cases hprepare'
          rw [hptr] at hptr'
          cases hptr'
    · -- `DllMain` returned `FALSE`.
      refine (Since.released hsince rfl rfl rfl).trans ?_
      constructor
      · exact fun h => .refused canonical f mapped b _ s₁ s₂ entry result hcanon hopen hprepare hmain
          hentry hptr hcall hresult h
      · intro h
        rcases hclean h with h | ⟨mapped', b', l, s₁', s₂', entry', result', hprepare', _, _, hptr',
          hcall', _, h⟩
        · exact absurd h hnot
        · rw [hprepare] at hprepare'
          cases hprepare'
          rw [hptr] at hptr'
          cases hptr'
          rw [hcall] at hcall'
          cases hcall'
          exact h
  · rcases prepare_cases hfree hcallee hprepare with ⟨hrefused, -, hsame⟩ | ⟨hnot, hsince, himage, -⟩
    · exact ⟨fun _ => .unmapped canonical f hcanon hopen hrefused, fun _ => hsame⟩
    · -- Somewhere between the mapping and `DllMain`.
      obtain ⟨b, himage⟩ := himage
      constructor
      · exact fun hsame => absurd hsame.1 (hsince.leaks himage)
      · intro h
        rcases hclean h with h | ⟨mapped', b', l, s₁', s₂, entry, result, hprepare', _⟩
        · exact absurd h hnot
        · rw [hprepare] at hprepare'
          cases hprepare'

/-- **A failed load leaves nothing behind exactly when** it failed before the image was mapped, or
    its `DllMain` returned `FALSE` and had left nothing behind itself. -/
theorem failed_load_clean_iff (host : Host) (guest : Callee) (depth : Nat) (path : String)
    (runDllMain : Bool) (s s' : Sys) (e : LoadError)
    (h : perform host guest (depth + 1) (.load path runDllMain) s = some (.error (.err e), s')) :
    SameSystem s s' ↔ CleanFailure host (perform host guest depth) path runDllMain s := by
  have hcallee : ∀ d s b s', Quiet d → perform host guest depth d s = some (b, s') → Grows s s' :=
    fun d s b s' => perform_grows guest depth d s b s'
  obtain ⟨⟨r, l', s₁⟩, hrun, heq⟩ := Option.map_eq_some_iff.mp h
  cases heq
  change Attempt.run (perform host guest depth) (loadDllEx host path runDllMain) (.none, s) = _ at hrun
  unfold loadDllEx at hrun
  cases hcanon : host.canonicalize path with
  | error msg =>
    rw [hcanon] at hrun
    cases hrun
    exact ⟨fun _ => .unread msg hcanon, fun _ => ⟨.refl _, rfl⟩⟩
  | ok canonical =>
    rw [hcanon] at hrun
    have hlook : Attempt.run (perform host guest depth) (lookupByPath canonical) (.none, s) =
        some (lookup canonical (.none, s)) := rfl
    cases hfind : s.modules.find? fun m => m.modulePath = canonical with
    | some m =>
      unfold lookup at hlook
      rw [hfind] at hlook
      have hrun' := (Attempt.run_bind_ok _ hlook).symm.trans hrun
      cases hrun'
    | none =>
      unfold lookup at hlook
      rw [hfind] at hlook
      have hrun' := (Attempt.run_bind_ok _ hlook).symm.trans hrun
      cases hopen : openDll host path canonical with
      | error stop =>
        rw [hopen] at hrun'
        cases hrun'
        exact ⟨fun _ => .unopened canonical _ hcanon hopen, fun _ => ⟨.refl _, rfl⟩⟩
      | ok f =>
        rw [hopen] at hrun'
        exact loadFile_clean_iff hcallee hcanon hopen hrun'

/-! ## A relocation directory that is in no section -/

def strayHost : Host :=
  bareHost (bareFile ([0, 0x20, 0, 0, 0x10, 0, 0, 0] ++ List.replicate 80 0))
    (bareDll (some ⟨0x2000, 0x10⟩))

/-- Nothing is mapped. -/
def blank : Sys := ⟨fun _ => none, [], 0, fun _ => none⟩

/-- What the load leaves. -/
def stray : Sys :=
  ((perform strayHost (fun _ _ => none) 2 (.load "a.dll" true) blank).map Prod.snd).getD blank

theorem stray_fails : perform strayHost (fun _ _ => none) (1 + 1) (.load "a.dll" true) blank =
    some (.error (.err (.map (.relocDirOutOfRange 0x2000))), stray) := by
  have hreply : (perform strayHost (fun _ _ => none) 2 (.load "a.dll" true) blank).map Prod.fst =
      some (.error (.err (.map (.relocDirOutOfRange 0x2000)))) := by
    decide +kernel
  obtain ⟨⟨reply, s'⟩, hrun, hfst⟩ := Option.map_eq_some_iff.mp hreply
  obtain rfl : reply = .error (.err (.map (.relocDirOutOfRange 0x2000))) := hfst
  have hstray : stray = s' := by
    unfold stray
    rw [hrun]
    rfl
  rw [hstray]
  exact hrun

theorem stray_clean_iff : SameSystem blank stray ↔
    CleanFailure strayHost (perform strayHost (fun _ _ => none) 1) "a.dll" true blank :=
  failed_load_clean_iff strayHost (fun _ _ => none) 1 "a.dll" true blank stray
    (.map (.relocDirOutOfRange 0x2000)) stray_fails

theorem failed_load_leaves_image :
    ¬ ∀ host guest depth path runDllMain s s' e,
      perform host guest depth (.load path runDllMain) s = some (.error (.err e), s') →
        SameSystem s s' := by
  intro h
  have hsame := (h _ _ _ _ _ _ _ _ stray_fails).1 0x10000
  have hmapped : (stray.space 0x10000).isSome = true := by decide +kernel
  rw [hmapped] at hsame
  cases hsame

end WinCompat.Loader
