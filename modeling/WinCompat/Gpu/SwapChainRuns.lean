import WinCompat.Gpu.Unwinding
import WinCompat.Lib.Machine

/-!
# Runs of a swap chain

A program makes a swap chain and then acquires, presents and resizes, in any order. A resize destroys
what there is before it builds anew, so the chain is lost if that fails; `present` takes the image after
the last one, whether or not that was acquired; and an offscreen chain may have no images at all. A run
in which none of that happens keeps the chain usable, and no other (`usable_iff`).
-/

namespace WinCompat.Gpu.Dxgi

open Lib Lib.Fallible

/-! ## The program and the driver -/

/-- A swapchain has the images that were asked for, and a surface needs at least one. -/
structure Bringup.Conforms (o : Bringup) : Prop where
  images_ge : ∀ info n, o.images info = .ok n → info.minImageCount.toNat ≤ n
  minImageCount : ∀ caps, o.capabilities = .ok caps → caps.minImageCount ≠ 0

/-- What a driver that keeps to the standard answers. -/
structure Driver extends Setup where
  x11Conforms : x11.Conforms
  headlessConforms : headless.Conforms

inductive Fault
  | dividedByZero
  | presentedUnacquired (index : Nat)
  deriving DecidableEq

structure Host where
  vk : Vk := {}
  chain : Option SwapChain := none
  /-- The images of the swapchain that were acquired and not presented since. -/
  acquired : List Nat := []
  faults : List Fault := []

inductive Action
  | new (x11 headlessForced : Bool) (desc : SwapChainDesc) (o : Driver)
  | acquireNext (acquire : Except String Nat)
  /-- Of a present that fails, the driver says whether it has released the image. -/
  | present (queuePresent : Outcome) (released : Bool)
  | resizeBuffers (width height : BitVec 32) (o : Driver)

namespace Host

def new (ctx : VkCtx) (s : Host) (x11 headlessForced : Bool) (desc : SwapChainDesc) (o : Setup) :
    Host :=
  match Dxgi.new ctx x11 headlessForced desc o s.vk with
  | (.ok c, vk) => { s with vk := vk, chain := some c }
  | (.error _, vk) => { s with vk := vk }

/-- The driver gives an image that there is and that the program does not have. -/
def acquireNext (s : Host) (c : SwapChain) (acquire : Except String Nat) : Option Host :=
  match c.acquireNext acquire with
  | .ok (c', index) =>
    if c.mode = .offscreen then some { s with chain := some c' }
    else if index < c.images.length ∧ index ∉ s.acquired then
      some { s with chain := some c', acquired := index :: s.acquired }
    else none
  | .err _ => some s
  | .panic | .outOfFuel => some { s with faults := .dividedByZero :: s.faults }

def present (s : Host) (c : SwapChain) (queuePresent : Outcome) (released : Bool) : Host :=
  { s with
    chain := some (c.present queuePresent).2
    acquired :=
      if queuePresent = none ∨ released = true then s.acquired.erase c.current else s.acquired
    faults :=
      if c.mode = .offscreen ∨ c.current ∈ s.acquired then s.faults
      else .presentedUnacquired c.current :: s.faults }

/-- The images of a new swapchain are the driver's. -/
def resizeBuffers (ctx : VkCtx) (s : Host) (c : SwapChain) (width height : BitVec 32) (o : Setup) :
    Host :=
  let (_, c', vk) := c.resizeBuffers ctx width height o s.vk
  { s with vk := vk, chain := some c', acquired := [] }

end Host

def machine (ctx : VkCtx) : Machine Host Action where
  init s := s = {}
  next s a :=
    match a, s.chain with
    | .new x11 headlessForced desc o, none => some (s.new ctx x11 headlessForced desc o.toSetup)
    | .acquireNext acquire, some c => s.acquireNext c acquire
    | .present queuePresent released, some c => some (s.present c queuePresent released)
    | .resizeBuffers width height o, some c => some (s.resizeBuffers ctx c width height o.toSetup)
    | _, _ => none

/-! ## Usable chains -/

namespace SwapChain

/-- The objects that the chain has created. -/
def handles (c : SwapChain) : List Nat :=
  c.surface.toList ++ c.swapchain.toList ++ (c.images.flatMap BackBuffer.owned).map Obj.id ++
    c.offscreenMemory

/-- Offscreen images have memory each; other images are those of the swapchain. -/
def Backed (c : SwapChain) : Prop :=
  match c.mode with
  | .offscreen =>
    c.surface = none ∧ c.swapchain = none ∧ c.offscreenMemory.length = c.images.length ∧
      ∀ b ∈ c.images, ∃ id, b = .image id
  | .windowed | .headless =>
    ∃ surface swapchain, c.surface = some surface ∧ c.swapchain = some swapchain ∧
      surface ≠ swapchain ∧ c.offscreenMemory = [] ∧
      c.images = (List.range c.images.length).map (.ofSwapchain swapchain)

/-- It is complete, what it refers to is there, and it has a current image. -/
structure Usable (vk : Vk) (c : SwapChain) : Prop where
  current_lt : c.current < c.images.length
  held : vk.Holds c.handles
  backed : c.Backed

end SwapChain

/-- Nothing has gone wrong, and the chain is usable if there is one. -/
structure Host.Fine (s : Host) : Prop where
  faultless : s.faults = []
  usable : ∀ c ∈ s.chain, c.Usable s.vk

/-! ## What is brought up -/

variable {vk : Vk} {desc : SwapChainDesc}

/-- No call that brings a swapchain up on this surface fails. -/
structure Bringup.Ok (surface : Nat) (desc : SwapChainDesc) (o : Bringup) : Prop where
  support : o.support = .ok true
  made : ∃ formats caps, o.formats = .ok formats ∧ o.capabilities = .ok caps ∧
    o.createSwapchain (createInfo surface desc formats caps) = .ok () ∧
    ∃ n, o.images (createInfo surface desc formats caps) = .ok n

/-- A chain is usable if and only if `p`, and a failure is one of a chain that would be. -/
def CameUp (p : Prop) (vk : Vk) : Except Error SwapChain → Prop
  | .ok c => c.Usable vk ↔ p
  | .error _ => p

def Yields (p : Prop) (x : Fallible Vk Error SwapChain) (vk : Vk) : Prop :=
  ∀ r vk', x vk = (r, vk') → vk'.Holds [] ∧ CameUp p vk' r

theorem Yields.congr {p q : Prop} {x : Fallible Vk Error SwapChain} (h : Yields p x vk)
    (hiff : p ↔ q) : Yields q x vk := by
  rw [← propext hiff]
  exact h

section Surface

variable {surface : Nat} {o : Bringup} {mode : PresentMode}

theorem yields_surrender (h : vk.Holds [surface]) (e : Error) :
    Yields True (do modify (·.destroyAll [.surface surface]); throw e) vk := by
  intro r vk' heq
  cases heq
  refine ⟨(h.mono (List.nil_subset _)).destroyAll ?_ ?_, trivial⟩
  · exact List.forall_mem_singleton.mpr (h.ne_next surface List.mem_cons_self)
  · exact fun _ _ => List.not_mem_nil

theorem yields_orDestroy {α : Type} {text : String} {r : Except String α}
    {k : α → Fallible Vk Error SwapChain} (h : vk.Holds [surface])
    (hk : ∀ a, r = .ok a → Yields True (k a) vk) :
    Yields True (orDestroy [.surface surface] text r >>= k) vk := by
  cases r with
  | ok a => exact hk a rfl
  | error e => exact yields_surrender h _

theorem u32Max_ne_zero {a b : BitVec 32} (h : b ≠ 0) : u32Max a b ≠ 0 := by
  unfold u32Max
  by_cases hle : a ≤ b
  · rw [if_pos hle]
    exact h
  · rw [if_neg hle]
    intro hzero
    exact hle (BitVec.le_def.mpr (by simp [hzero]))

theorem yields_newWithSurface (h : vk.Holds [surface]) (hconforms : o.Conforms)
    (hmode : mode ≠ .offscreen) : Yields True (newWithSurface surface mode desc o) vk := by
  unfold newWithSurface
  refine yields_orDestroy h fun supported _ => ?_
  cases supported with
  | false => exact yields_surrender h _
  | true =>
    refine yields_orDestroy h fun formats _ => ?_
    refine yields_orDestroy h fun caps hcaps => ?_
    refine yields_orDestroy h fun _ _ => ?_
    intro r vk' heq
    rw [bind_run] at heq
    have hmade : vk.fresh.2.Holds [vk.next, surface] := h.fresh
    have hne : surface ≠ vk.next := Nat.ne_of_lt (h.ne_next surface List.mem_cons_self)
    cases himages : o.images (createInfo surface desc formats caps) with
    | error text =>
      rw [himages] at heq
      cases heq
      refine ⟨(hmade.mono (List.nil_subset _)).destroyAll ?_ ?_, trivial⟩
      · have hlt := hmade.ne_next
        exact fun ob hob => hlt ob.id (by
          rcases List.mem_cons.mp hob with rfl | hob
          · exact List.mem_cons_self
          · obtain rfl := List.mem_singleton.mp hob
            exact List.mem_cons_of_mem _ List.mem_cons_self)
      · exact fun _ _ => List.not_mem_nil
    | ok n =>
      rw [himages] at heq
      cases heq
      refine ⟨hmade.mono (List.nil_subset _), ?_⟩
      have hpos : 0 < n := by
        have hmin : (createInfo surface desc formats caps).minImageCount ≠ 0 :=
          u32Max_ne_zero (hconforms.minImageCount caps hcaps)
        have hge := hconforms.images_ge _ n himages
        have := BitVec.toNat_ne.mp hmin
        simp at this
        omega
      refine iff_of_true ⟨by simpa using hpos, ?_, ?_⟩ trivial
      · refine hmade.mono ?_
        simp [SwapChain.handles, BackBuffer.owned, List.flatMap_map]
      · cases mode with
        | offscreen => exact absurd rfl hmode
        | windowed => exact ⟨surface, vk.next, rfl, rfl, hne, rfl, by simp⟩
        | headless => exact ⟨surface, vk.next, rfl, rfl, hne, rfl, by simp⟩

theorem succeeds_orDestroy {α β : Type} {os : List Obj} {text : String} {r : Except String α}
    {k : α → Fallible Vk Error β} :
    Succeeds (orDestroy os text r >>= k) vk ↔ ∃ a, r = .ok a ∧ Succeeds (k a) vk := by
  cases r with
  | ok a =>
    show Succeeds (pure a >>= k) vk ↔ _
    unfold Succeeds
    simp
  | error e =>
    refine iff_of_false ?_ (by simp)
    rintro ⟨b, vk', h⟩
    cases h

theorem succeeds_newWithSurface :
    Succeeds (newWithSurface surface mode desc o) vk ↔ o.Ok surface desc := by
  unfold newWithSurface
  rw [succeeds_orDestroy]
  constructor
  · rintro ⟨supported, hsupport, h⟩
    cases supported with
    | false => simp [Succeeds] at h
    | true =>
      obtain ⟨formats, hformats, h⟩ := succeeds_orDestroy.mp h
      obtain ⟨caps, hcaps, h⟩ := succeeds_orDestroy.mp h
      obtain ⟨_, hcreate, h⟩ := succeeds_orDestroy.mp h
      rw [succeeds_bind_run] at h
      obtain ⟨n, himages, -⟩ := succeeds_orDestroy.mp h
      exact ⟨hsupport, formats, caps, hformats, hcaps, hcreate, n, himages⟩
  · rintro ⟨hsupport, formats, caps, hformats, hcaps, hcreate, n, himages⟩
    refine ⟨true, hsupport, ?_⟩
    refine succeeds_orDestroy.mpr ⟨formats, hformats, ?_⟩
    refine succeeds_orDestroy.mpr ⟨caps, hcaps, ?_⟩
    refine succeeds_orDestroy.mpr ⟨(), hcreate, ?_⟩
    rw [succeeds_bind_run]
    exact succeeds_orDestroy.mpr ⟨n, himages, succeeds_pure _⟩

theorem yields_check {refusal : Option Error} {k : Unit → Fallible Vk Error SwapChain}
    (h : vk.Holds []) (hk : Yields True (k ()) vk) : Yields True (check refusal >>= k) vk := by
  cases refusal with
  | none => exact hk
  | some e =>
    intro r vk' heq
    cases heq
    exact ⟨h, trivial⟩

variable {createSurface : Outcome}

theorem yields_newHeadless (h : vk.Holds []) (hconforms : o.Conforms) :
    Yields True (newHeadless createSurface desc o) vk := by
  refine yields_check h fun r vk' heq => ?_
  rw [bind_run] at heq
  exact yields_newWithSurface h.fresh hconforms (by decide) r vk' heq

theorem yields_newX11 {xcbSurfaceExt : Bool} (h : vk.Holds []) (hconforms : o.Conforms) :
    Yields True (newX11 xcbSurfaceExt createSurface desc o) vk := by
  refine yields_check h (yields_check h fun r vk' heq => ?_)
  rw [bind_run] at heq
  exact yields_newWithSurface h.fresh hconforms (by decide) r vk' heq

theorem succeeds_newHeadless :
    Succeeds (newHeadless createSurface desc o) vk ↔ createSurface = none ∧ o.Ok vk.next desc := by
  unfold newHeadless
  rw [succeeds_bind_check, succeeds_bind_run, map_eq_none, Vk.fst_fresh, succeeds_newWithSurface]

theorem succeeds_newX11 {xcbSurfaceExt : Bool} :
    Succeeds (newX11 xcbSurfaceExt createSurface desc o) vk ↔
      xcbSurfaceExt = true ∧ createSurface = none ∧ o.Ok vk.next desc := by
  unfold newX11
  rw [succeeds_bind_check, succeeds_bind_check, succeeds_bind_run, map_eq_none, Vk.fst_fresh,
    succeeds_newWithSurface]
  cases xcbSurfaceExt <;> simp

end Surface

section Offscreen

variable {types : List (BitVec 32)} {ids : List Nat}

theorem createBound_holds {failures : Failures Error} {p : MemoryProperties} {o : Binding}
    (h : vk.Holds ids) {r : Except Error Bound} {vk' : Vk}
    (heq : createBound failures types p o vk = (r, vk')) :
    vk'.Holds ids ∧ ∀ b, r = .ok b → vk'.Holds (b.object :: b.memory :: ids) := by
  have hobject : vk.fresh.2.Holds ids := h.fresh.mono (List.subset_cons_self _ _)
  have hmemory : vk.fresh.2.fresh.2.Holds ids := hobject.fresh.mono (List.subset_cons_self _ _)
  unfold createBound at heq
  cases hcreate : o.create with
  | some e =>
    rw [hcreate] at heq
    cases heq
    exact ⟨h, fun b hb => by cases hb⟩
  | none =>
    rw [hcreate] at heq
    cases htype : findMemoryType types o.typeBits p with
    | error e =>
      simp only [htype] at heq
      cases heq
      exact ⟨hobject, fun b hb => by cases hb⟩
    | ok index =>
      simp only [htype] at heq
      cases hallocate : o.allocate with
      | some e =>
        rw [hallocate] at heq
        cases heq
        exact ⟨hobject, fun b hb => by cases hb⟩
      | none =>
        rw [hallocate] at heq
        cases hbind : o.bind with
        | some e =>
          rw [hbind] at heq
          cases heq
          exact ⟨hmemory, fun b hb => by cases hb⟩
        | none =>
          rw [hbind] at heq
          cases heq
          refine ⟨hmemory, fun b hb => ?_⟩
          cases hb
          exact h.fresh.fresh.mono fun id hid => by simp at hid ⊢; tauto

/-- The objects of some images. -/
def made (bs : List Bound) : List Nat := bs.flatMap fun b => [b.object, b.memory]

theorem offscreenImages_holds {o : Nat → Binding} (n : Nat) : ∀ (i : Nat) (vk : Vk) (ids : List Nat),
    vk.Holds ids → ∀ r vk', offscreenImages types o i n vk = (r, vk') →
      vk'.Holds ids ∧ ∀ bs, r = .ok bs → bs.length = n ∧ vk'.Holds (made bs ++ ids) := by
  induction n with
  | zero =>
    intro i vk ids h r vk' heq
    cases heq
    exact ⟨h, fun bs hbs => by cases hbs; exact ⟨rfl, h⟩⟩
  | succ n ih =>
    intro i vk ids h r vk' heq
    unfold offscreenImages at heq
    cases hfirst : createBound failures types .deviceLocal (o i) vk with
    | mk r₁ vk₁ =>
      obtain ⟨h₁, hmade⟩ := createBound_holds h hfirst
      cases r₁ with
      | error e =>
        rw [bind_error hfirst] at heq
        cases heq
        exact ⟨h₁, fun bs hbs => by cases hbs⟩
      | ok b =>
        rw [bind_ok hfirst] at heq
        cases hrest : offscreenImages types o (i + 1) n vk₁ with
        | mk r₂ vk₂ =>
          obtain ⟨h₂, hall⟩ := ih (i + 1) vk₁ _ (hmade b rfl) r₂ vk₂ hrest
          cases r₂ with
          | error e =>
            rw [bind_error hrest] at heq
            cases heq
            refine ⟨h₂.mono ?_, fun bs hbs => by cases hbs⟩
            exact fun id hid => List.mem_cons_of_mem _ (List.mem_cons_of_mem _ hid)
          | ok bs =>
            rw [bind_ok hrest] at heq
            cases heq
            obtain ⟨hlen, hheld⟩ := hall bs rfl
            refine ⟨h₂.mono fun id hid => ?_, fun bs' hbs => ?_⟩
            · exact List.mem_cons_of_mem _ (List.mem_cons_of_mem _ hid)
            · cases hbs
              refine ⟨congrArg Nat.succ hlen, hheld.mono fun id hid => ?_⟩
              simp only [made, List.flatMap_cons, List.mem_append, List.mem_cons] at hid ⊢
              tauto

theorem yields_newOffscreen {o : Nat → Binding} (h : vk.Holds []) :
    Yields (desc.bufferCount ≠ 0) (newOffscreen types desc o) vk := by
  intro r vk' heq
  unfold newOffscreen at heq
  cases himages : offscreenImages types o 0 desc.bufferCount.toNat vk with
  | mk r₁ vk₁ =>
    obtain ⟨h₁, hall⟩ := offscreenImages_holds _ 0 vk [] h r₁ vk₁ himages
    cases r₁ with
    | error e =>
      rw [bind_error himages] at heq
      cases heq
      refine ⟨h₁, fun hzero => ?_⟩
      rw [hzero] at himages
      cases himages
    | ok bs =>
      rw [bind_ok himages] at heq
      cases heq
      refine ⟨h₁, ?_⟩
      obtain ⟨hlen, hheld⟩ := hall bs rfl
      have hcount : 0 < bs.length ↔ desc.bufferCount ≠ 0 := by
        rw [hlen, Nat.pos_iff_ne_zero]
        exact not_congr ⟨fun h => BitVec.eq_of_toNat_eq h, fun h => congrArg BitVec.toNat h⟩
      refine Iff.trans ?_ hcount
      constructor
      · intro husable
        simpa using husable.current_lt
      · intro hpos
        refine ⟨by simpa using hpos, hheld.mono ?_, rfl, rfl, by simp, by simp⟩
        intro id hid
        simp only [SwapChain.handles, BackBuffer.owned, made, List.flatMap_map] at hid ⊢
        simp at hid ⊢
        rcases hid with ⟨b, hb, rfl⟩ | ⟨b, hb, rfl⟩
        · exact ⟨b, hb, Or.inl rfl⟩
        · exact ⟨b, hb, Or.inr rfl⟩

end Offscreen

section Setup

variable {ctx : VkCtx} {o : Setup}

/-- What a chain without a window needs to have images. -/
def Imaged (ctx : VkCtx) (desc : SwapChainDesc) : Prop :=
  ctx.hasHeadlessSurface = true ∨ desc.bufferCount ≠ 0

/-- No call that makes a chain without a window fails. -/
def Setup.InvisibleOk (ctx : VkCtx) (vk : Vk) (desc : SwapChainDesc) (o : Setup) : Prop :=
  if ctx.hasHeadlessSurface then o.createHeadless = none ∧ o.headless.Ok vk.next desc
  else ∀ j < desc.bufferCount.toNat, (o.offscreen j).Ok ctx.memoryTypes .deviceLocal

/-- No call that makes a chain on a window fails. -/
def Setup.X11Ok (ctx : VkCtx) (vk : Vk) (desc : SwapChainDesc) (o : Setup) : Prop :=
  ctx.xcbSurfaceExt = true ∧ o.createXcb = none ∧ o.x11.Ok vk.next desc

theorem yields_newInvisible (h : vk.Holds []) (hconforms : o.headless.Conforms) :
    Yields (Imaged ctx desc) (newInvisible ctx desc o) vk := by
  unfold newInvisible Imaged
  cases ctx.hasHeadlessSurface with
  | true => exact (yields_newHeadless h hconforms).congr (by simp)
  | false => exact (yields_newOffscreen h).congr (by simp)

theorem succeeds_newInvisible :
    Succeeds (newInvisible ctx desc o) vk ↔ o.InvisibleOk ctx vk desc := by
  unfold newInvisible Setup.InvisibleOk
  cases ctx.hasHeadlessSurface with
  | true => exact succeeds_newHeadless
  | false =>
    simp only [Bool.false_eq_true, if_false]
    unfold newOffscreen
    rw [succeeds_bind_pure, succeeds_offscreenImages]
    simp

theorem yields_new {x11 headlessForced : Bool} (h : vk.Holds []) (hx11 : o.x11.Conforms)
    (hheadless : o.headless.Conforms) :
    Yields ((x11 = true ∧ headlessForced = false ∧ o.X11Ok ctx vk desc) ∨ Imaged ctx desc)
      (new ctx x11 headlessForced desc o) vk := by
  unfold new
  by_cases hwindow : (x11 && !headlessForced) = true
  · obtain ⟨hx, hforced⟩ : x11 = true ∧ headlessForced = false := by simpa using hwindow
    rw [if_pos hwindow]
    intro r vk' heq
    cases hfirst : newX11 ctx.xcbSurfaceExt o.createXcb desc o.x11 vk with
    | mk r₁ vk₁ =>
      have h₁ := yields_newX11 h hx11 r₁ vk₁ hfirst
      unfold orElse at heq
      rw [hfirst] at heq
      cases r₁ with
      | ok c =>
        cases heq
        exact ⟨h₁.1, iff_of_true (h₁.2.mpr trivial)
          (Or.inl ⟨hx, hforced, succeeds_newX11.mp ⟨c, vk', hfirst⟩⟩)⟩
      | error e =>
        have hfails : ¬o.X11Ok ctx vk desc := fun hok =>
          not_error_of_succeeds (succeeds_newX11.mpr hok) hfirst
        refine (yields_newInvisible h₁.1 hheadless).congr ?_ r vk' heq
        simp [hfails]
  · rw [if_neg hwindow]
    refine (yields_newInvisible h hheadless).congr ?_
    simp only [Bool.and_eq_true, Bool.not_eq_true', ← and_assoc] at hwindow ⊢
    simp [hwindow]

end Setup

/-! ## One step -/

/-- The step keeps a usable chain usable. -/
def Action.Keeps (ctx : VkCtx) (s : Host) : Action → Prop
  | .new x11 headlessForced desc o =>
    (x11 = true ∧ headlessForced = false ∧ o.X11Ok ctx s.vk desc) ∨ Imaged ctx desc
  | .acquireNext _ => True
  | .present _ _ => ∀ c ∈ s.chain, c.mode = .offscreen ∨ c.current ∈ s.acquired
  | .resizeBuffers width height o => ∀ c ∈ s.chain,
    if c.mode = .windowed then
      ∃ surface ∈ c.surface, o.x11.Ok surface { c.desc with width := width, height := height }
    else
      o.InvisibleOk ctx s.vk { c.desc with width := width, height := height } ∧ Imaged ctx c.desc

section Steps

variable {ctx : VkCtx} {s s' : Host} {c : SwapChain}

theorem fine_new (ctx : VkCtx) (h : s.vk.Holds []) (hfaults : s.faults = []) (hchain : s.chain = none)
    (x11 headlessForced : Bool) (desc : SwapChainDesc) (o : Driver) :
    (s.new ctx x11 headlessForced desc o.toSetup).vk.Holds [] ∧
      ((s.new ctx x11 headlessForced desc o.toSetup).Fine ↔
        (Action.new x11 headlessForced desc o).Keeps ctx s) := by
  have hyields : Yields _ (Dxgi.new ctx x11 headlessForced desc o.toSetup) s.vk :=
    yields_new h o.x11Conforms o.headlessConforms
  unfold Host.new
  cases hnew : Dxgi.new ctx x11 headlessForced desc o.toSetup s.vk with
  | mk r vk =>
    obtain ⟨hholds, hup⟩ := hyields r vk hnew
    cases r with
    | ok c =>
      refine ⟨hholds, Iff.trans ?_ hup⟩
      exact ⟨fun hfine => hfine.usable c rfl, fun husable => ⟨hfaults, fun c' hc' => by
        obtain rfl := Option.some.inj hc'
        exact husable⟩⟩
    | error e =>
      refine ⟨hholds, iff_of_true ⟨hfaults, fun c hc => ?_⟩ hup⟩
      simp [hchain] at hc

theorem SwapChain.Usable.current (h : c.Usable vk) {n : Nat} (hlt : n < c.images.length) :
    { c with current := n }.Usable vk := ⟨hlt, h.held, h.backed⟩

theorem Host.Fine.chain (hfine : s.Fine) {acquired : List Nat} (husable : c.Usable s.vk) :
    { s with chain := some c, acquired := acquired }.Fine := by
  refine ⟨hfine.faultless, fun c' hc' => ?_⟩
  obtain rfl := Option.some.inj hc'
  exact husable

theorem acquireNext_cases (hpos : 0 < c.images.length) (acquire : Except String Nat) :
    (∃ e, c.acquireNext acquire = .err e) ∨
      ∃ index, c.acquireNext acquire = .ok ({ c with current := index }, index) ∧
        (c.mode = .offscreen → index < c.images.length) := by
  have hsurface : c.mode ≠ .offscreen → ∀ index, c.mode = .offscreen → index < c.images.length :=
    fun hne _ h => absurd h hne
  unfold SwapChain.acquireNext
  split
  · next hmode =>
    cases acquire with
    | error e => exact Or.inl ⟨_, rfl⟩
    | ok index => exact Or.inr ⟨index, rfl, hsurface (by simp [hmode]) index⟩
  · next hmode =>
    cases acquire with
    | error e => exact Or.inl ⟨_, rfl⟩
    | ok index => exact Or.inr ⟨index, rfl, hsurface (by simp [hmode]) index⟩
  · next hmode =>
    rw [if_neg (Nat.ne_of_gt hpos)]
    exact Or.inr ⟨_, rfl, fun _ => Nat.mod_lt _ hpos⟩

theorem fine_acquireNext (hfine : s.Fine) (husable : c.Usable s.vk) {acquire : Except String Nat}
    (hn : s.acquireNext c acquire = some s') : s'.vk = s.vk ∧ s'.Fine := by
  have hpos : 0 < c.images.length := Nat.zero_lt_of_lt husable.current_lt
  unfold Host.acquireNext at hn
  rcases acquireNext_cases hpos acquire with ⟨e, heq⟩ | ⟨index, heq, hindex⟩
  · rw [heq] at hn
    obtain rfl := Option.some.inj hn
    exact ⟨rfl, hfine⟩
  · rw [heq] at hn
    by_cases hmode : c.mode = .offscreen
    · simp only [if_pos hmode] at hn
      obtain rfl := Option.some.inj hn
      exact ⟨rfl, hfine.chain (husable.current (hindex hmode))⟩
    · simp only [if_neg hmode] at hn
      obtain ⟨⟨hlt, -⟩, hs⟩ := Option.ite_none_right_eq_some.mp hn
      obtain rfl := Option.some.inj hs
      exact ⟨rfl, hfine.chain (husable.current hlt)⟩

theorem usable_present (husable : c.Usable vk) (queuePresent : Outcome) :
    (c.present queuePresent).2.Usable vk := by
  unfold SwapChain.present
  cases (if c.mode = .offscreen then none else queuePresent) with
  | some e => exact husable
  | none =>
    refine husable.current ?_
    have hpos : 0 < c.images.length := Nat.zero_lt_of_lt husable.current_lt
    rw [Nat.max_eq_left hpos]
    exact Nat.mod_lt _ hpos

theorem fine_present (hfine : s.Fine) (husable : c.Usable s.vk) (queuePresent : Outcome)
    (released : Bool) :
    (s.present c queuePresent released).Fine ↔ c.mode = .offscreen ∨ c.current ∈ s.acquired := by
  constructor
  · intro h
    by_contra hnot
    have hfault := h.faultless
    simp [Host.present, hnot] at hfault
  · intro hok
    refine ⟨?_, fun c' hc' => ?_⟩
    · simp [Host.present, hok, hfine.faultless]
    · obtain rfl := Option.some.inj hc'
      exact usable_present husable queuePresent

theorem id_mem_handles {o : Obj} (ho : o ∈ c.discarded) : o.id ∈ c.handles := by
  unfold SwapChain.discarded SwapChain.swapchainResources at ho
  unfold SwapChain.handles
  simp only [List.mem_append] at ho ⊢
  rcases ho with (ho | ho) | ho
  · by_cases hmode : c.mode = .offscreen
    · rw [if_pos hmode] at ho
      obtain ⟨p, hp, ho⟩ := List.mem_flatMap.mp ho
      obtain ⟨himage, hmemory⟩ := List.of_mem_zip hp
      rcases List.mem_append.mp ho with ho | ho
      · exact Or.inl (Or.inr (List.mem_map_of_mem (List.mem_flatMap.mpr ⟨p.1, himage, ho⟩)))
      · obtain rfl := List.mem_singleton.mp ho
        exact Or.inr hmemory
    · rw [if_neg hmode] at ho
      exact absurd ho List.not_mem_nil
  · obtain ⟨id, hid, rfl⟩ := List.mem_map.mp ho
    exact Or.inl (Or.inl (Or.inr hid))
  · by_cases hmode : c.mode = .windowed
    · rw [if_pos hmode] at ho
      exact absurd ho List.not_mem_nil
    · rw [if_neg hmode] at ho
      obtain ⟨id, hid, rfl⟩ := List.mem_map.mp ho
      exact Or.inl (Or.inl (Or.inl hid))

theorem holds_discarded (husable : c.Usable vk) :
    (vk.destroyAll c.discarded).Holds [] ∧
      (c.mode = .windowed → ∃ surface, c.surface = some surface ∧
        (vk.destroyAll c.discarded).Holds [surface]) := by
  have hmade : ∀ o ∈ c.discarded, o.id < vk.next := fun o ho =>
    husable.held.ne_next _ (id_mem_handles ho)
  refine ⟨(husable.held.mono (List.nil_subset _)).destroyAll hmade fun _ _ => List.not_mem_nil, ?_⟩
  intro hmode
  have hbacked := husable.backed
  unfold SwapChain.Backed at hbacked
  rw [hmode] at hbacked
  obtain ⟨surface, swapchain, hsurface, hswapchain, hne, -⟩ := hbacked
  refine ⟨surface, hsurface, (husable.held.mono ?_).destroyAll hmade ?_⟩
  · simp [SwapChain.handles, hsurface]
  · simp [SwapChain.discarded, SwapChain.swapchainResources, hmode, hswapchain, Obj.id, hne.symm]

theorem not_usable_emptied : ¬c.emptied.Usable vk := fun h => Nat.not_lt_zero _ h.current_lt

/-- Whether `rebuild` gives a usable chain. -/
def Rebuilds (ctx : VkCtx) (vk : Vk) (c : SwapChain) (desc : SwapChainDesc) (o : Setup) : Prop :=
  if c.mode = .windowed then ∃ surface ∈ c.surface, o.x11.Ok surface desc
  else o.InvisibleOk ctx vk desc ∧ Imaged ctx desc

theorem rebuild_iff (husable : c.Usable vk) (o : Driver) {r : Except Error SwapChain} {vk' : Vk}
    (heq : c.rebuild ctx desc o.toSetup (vk.destroyAll c.discarded) = (r, vk')) :
    vk'.Holds [] ∧ ((∃ c', r = .ok c' ∧ c'.Usable vk') ↔ Rebuilds ctx vk c desc o.toSetup) := by
  obtain ⟨hnone, hkept⟩ := holds_discarded husable
  have hresult : ∀ {p q : Prop} {x : Fallible Vk Error SwapChain},
      Yields p x (vk.destroyAll c.discarded) → (Succeeds x (vk.destroyAll c.discarded) ↔ q) →
      x (vk.destroyAll c.discarded) = (r, vk') →
      vk'.Holds [] ∧ ((∃ c', r = .ok c' ∧ c'.Usable vk') ↔ q ∧ p) := by
    intro p q x hyields hsucceeds heq
    obtain ⟨hholds, hup⟩ := hyields r vk' heq
    refine ⟨hholds, ?_⟩
    cases r with
    | ok c' =>
      have hq : q := hsucceeds.mp ⟨c', vk', heq⟩
      rw [and_iff_right hq]
      refine Iff.trans ?_ hup
      exact ⟨fun ⟨c'', hc, hu⟩ => by cases hc; exact hu, fun hu => ⟨c', rfl, hu⟩⟩
    | error e =>
      refine iff_of_false (fun ⟨c', hc, _⟩ => by cases hc) fun h => ?_
      exact not_error_of_succeeds (hsucceeds.mpr h.1) heq
  have hnext : (vk.destroyAll c.discarded).next = vk.next := Vk.next_destroyAll _
  unfold Rebuilds
  unfold SwapChain.rebuild at heq
  by_cases hmode : c.mode = .windowed
  · obtain ⟨surface, hsurface, hheld⟩ := hkept hmode
    rw [hmode, hsurface] at heq
    rw [if_pos hmode, hsurface]
    have h := hresult (yields_newWithSurface hheld o.x11Conforms (by decide))
      succeeds_newWithSurface heq
    refine ⟨h.1, h.2.trans ?_⟩
    simp
  · rw [if_neg hmode]
    have hinvisible : newInvisible ctx desc o.toSetup (vk.destroyAll c.discarded) = (r, vk') := by
      cases hm : c.mode with
      | windowed => exact absurd hm hmode
      | headless => rwa [hm] at heq
      | offscreen => rwa [hm] at heq
    have h := hresult (yields_newInvisible hnone o.headlessConforms) succeeds_newInvisible hinvisible
    refine ⟨h.1, h.2.trans (and_congr_left' ?_)⟩
    unfold Setup.InvisibleOk
    rw [hnext]

theorem fine_resizeBuffers (hfine : s.Fine) (hchain : s.chain = some c) (width height : BitVec 32)
    (o : Driver) :
    (s.resizeBuffers ctx c width height o.toSetup).vk.Holds [] ∧
      ((s.resizeBuffers ctx c width height o.toSetup).Fine ↔
        (Action.resizeBuffers width height o).Keeps ctx s) := by
  have husable : c.Usable s.vk := hfine.usable c hchain
  unfold Host.resizeBuffers SwapChain.resizeBuffers Action.Keeps
  rw [hchain]
  simp only [Option.mem_def, Option.some.injEq, forall_eq']
  cases heq : c.rebuild ctx { c.desc with width := width, height := height } o.toSetup
      (s.vk.destroyAll c.discarded) with
  | mk r vk' =>
    obtain ⟨hholds, hiff⟩ := rebuild_iff husable o heq
    cases r with
    | ok c' =>
      refine ⟨hholds, Iff.trans ?_ hiff⟩
      constructor
      · exact fun h => ⟨c', rfl, h.usable c' rfl⟩
      · rintro ⟨c'', hc, hu⟩
        cases hc
        refine ⟨hfine.faultless, fun c₁ hc₁ => ?_⟩
        obtain rfl := Option.some.inj hc₁
        exact hu
    | error e =>
      refine ⟨hholds, Iff.trans (iff_of_false ?_ ?_) hiff⟩
      · exact fun h => not_usable_emptied (h.usable _ rfl)
      · rintro ⟨c', hc, -⟩
        cases hc

end Steps

/-! ## Runs -/

/-- A run keeps the swap chain usable exactly if each of its steps does: no chain comes up without
    images, nothing is presented that was not acquired, and no resize fails. -/
theorem usable_iff (ctx : VkCtx) (actions : List Action) :
    (machine ctx).Throughout Host.Fine {} actions ↔
      (machine ctx).Steps (fun s a => a.Keeps ctx s) {} actions := by
  have hstart : ({} : Host).vk.Holds [] := ⟨fun _ _ => rfl, fun _ h => absurd h List.not_mem_nil⟩
  refine Machine.throughout_iff_steps (I := fun s => s.vk.Holds []) ?_ hstart
    ⟨rfl, fun c hc => by cases hc⟩
  intro s a s' hholds hfine hn
  cases hchain : s.chain with
  | none =>
    cases a with
    | new x11 headlessForced desc o =>
      have h := fine_new ctx hholds hfine.faultless hchain x11 headlessForced desc o
      simp only [machine, hchain] at hn
      obtain rfl := Option.some.inj hn
      exact h
    | _ => simp [machine, hchain] at hn
  | some c =>
    have husable := hfine.usable c hchain
    cases a with
    | new x11 headlessForced desc o => simp [machine, hchain] at hn
    | acquireNext acquire =>
      simp only [machine, hchain] at hn
      obtain ⟨hvk, hfine'⟩ := fine_acquireNext hfine husable hn
      exact ⟨hvk ▸ hholds, iff_of_true hfine' trivial⟩
    | present queuePresent released =>
      simp only [machine, hchain] at hn
      obtain rfl := Option.some.inj hn
      refine ⟨hholds, (fine_present hfine husable queuePresent released).trans ?_⟩
      simp [Action.Keeps, hchain]
    | resizeBuffers width height o =>
      simp only [machine, hchain] at hn
      obtain rfl := Option.some.inj hn
      exact fine_resizeBuffers hfine hchain width height o

def bringup : Bringup where
  support := .ok true
  formats := .ok [⟨44, 0⟩]
  capabilities := .ok ⟨2, ⟨0xFFFFFFFF, 0xFFFFFFFF⟩⟩
  createSwapchain _ := .ok ()
  images info := .ok info.minImageCount.toNat

theorem bringup_conforms : bringup.Conforms where
  images_ge info n h := by
    cases h
    exact Nat.le_refl _
  minImageCount caps h := by
    cases h
    decide

/-- A driver with a headless surface that needs two images, and no failures. -/
def headless : Driver where
  x11 := bringup
  headless := bringup
  offscreen _ := { typeBits := 0 }
  x11Conforms := bringup_conforms
  headlessConforms := bringup_conforms

/-- The first thing that a program of Direct3D does with its swap chain is to present it. -/
theorem firstPresent_not_fine :
    ¬(machine ⟨true, false, []⟩).Throughout Host.Fine {}
      [.new false false ⟨640, 480, .b8g8r8a8Unorm, 2⟩ headless, .present none false] := by
  intro h
  have hpresented := ((h.2 _ rfl).2 _ rfl).faultless
  cases hpresented

end WinCompat.Gpu.Dxgi
