import WinCompat.Gpu.ContextTarget
import WinCompat.Gpu.SwapChain

/-!
# What a failed creation leaves behind

Few of the functions that create objects take them back when a later step fails. With one exception
they settle a failure only if they fail before the first object exists; `create_pipeline_state` also
settles the failure that it expects, and `new_with_surface` settles all. `Creation.unwinds_iff` is the
table.
-/

namespace WinCompat.Gpu

open Lib Lib.Fallible

variable {ε β : Type} {vk : Vk}

/-! ## An object and its memory -/

/-- No step of `createBound` fails. -/
structure Binding.Ok (types : List (BitVec 32)) (p : MemoryProperties) (o : Binding) : Prop where
  create : o.create = none
  memoryType : ∃ i, findMemoryType types o.typeBits p = .ok i
  allocate : o.allocate = none
  bind : o.bind = none

section Bound

variable {failures : Failures ε} {types : List (BitVec 32)} {p : MemoryProperties} {o : Binding}
variable {k : Bound → Fallible Vk ε β}

theorem map_eq_none {α γ : Type} {f : α → γ} {x : Option α} : x.map f = none ↔ x = none := by
  cases x <;> simp

theorem mapError_eq_ok_iff {α γ : Type} {f : String → γ} {x : Except String α} {a : α} :
    x.mapError f = .ok a ↔ x = .ok a := by
  cases x <;> simp [Except.mapError]

theorem createBound_bind :
    createBound failures types p o >>= k = (do
      check (o.create.map failures.create)
      let object ← run Vk.fresh
      let _ ← lift ((findMemoryType types o.typeBits p).mapError failures.memoryType)
      check (o.allocate.map failures.allocate)
      let memory ← run Vk.fresh
      check (o.bind.map failures.bind)
      k ⟨object, memory⟩) := by
  unfold createBound
  simp only [bind_assoc]
  rfl

theorem succeeds_createBound_bind :
    Succeeds (createBound failures types p o >>= k) vk ↔
      o.Ok types p ∧ Succeeds (k ⟨vk.next, vk.next + 1⟩) vk.fresh.2.fresh.2 := by
  rw [createBound_bind]
  simp only [succeeds_bind_check, succeeds_bind_run, succeeds_bind_lift, map_eq_none,
    mapError_eq_ok_iff]
  constructor
  · rintro ⟨hcreate, i, htype, hallocate, hbind, hrest⟩
    exact ⟨⟨hcreate, ⟨i, htype⟩, hallocate, hbind⟩, hrest⟩
  · rintro ⟨⟨hcreate, ⟨i, htype⟩, hallocate, hbind⟩, hrest⟩
    exact ⟨hcreate, i, htype, hallocate, hbind, hrest⟩

theorem frames_createBound : Frames (createBound failures types p o) := by
  unfold createBound
  refine (frames_check _).bind fun _ => ?_
  refine frames_fresh.bind fun object => ?_
  refine (Frames.lift _).bind fun _ => ?_
  refine (frames_check _).bind fun _ => ?_
  refine frames_fresh.bind fun memory => ?_
  exact (frames_check _).bind fun _ => frames_pure _

theorem settles_createBound_iff (hk : ∀ b, Spares (k b)) :
    Settles (createBound failures types p o >>= k) vk ↔
      o.create ≠ none ∨ Succeeds (createBound failures types p o >>= k) vk := by
  rw [createBound_bind, settles_create_iff, succeeds_bind_check,
    succeeds_bind_run, ne_eq, map_eq_none]
  · tauto
  · intro object
    refine Spares.bind (Frames.lift _) fun _ => ?_
    refine Spares.bind (frames_check _) fun _ => ?_
    refine Spares.bind frames_fresh fun memory => ?_
    exact Spares.bind (frames_check _) fun _ => hk _

end Bound

/-! ## Direct3D 11 -/

namespace D3d11

variable {types : List (BitVec 32)} {R : Type}

/-- Vulkan returned a command buffer. -/
def OneShot.Allocated (o : OneShot) : Prop := ∃ n, o.allocate = .ok (n + 1)

/-- No Vulkan call after that fails. -/
structure OneShot.Ok (o : OneShot) : Prop where
  begin : o.begin = none
  finish : o.finish = none
  fence : o.fence = none
  submit : o.submit = none
  wait : o.wait = none

theorem vkErr_eq_none {o : Outcome} : vkErr o = none ↔ o = none := map_eq_none

/-- What is done with the command buffer of a `one_shot`. -/
def oneShotWith (f : Nat → Except Error (R × List Cmd)) (o : OneShot) (cmd : Nat) :
    Fallible Vk Error R := do
  check (vkErr o.begin)
  let r ← lift (f cmd)
  check (vkErr o.finish)
  check (vkErr o.fence)
  let fence ← run Vk.fresh
  check (vkErr o.submit)
  modify (·.log (.submitted r.2))
  check (vkErr o.wait)
  modify (·.log .waited)
  modify (·.destroy (.fence fence))
  modify (·.destroy (.commandBuffer cmd))
  return r.1

theorem oneShot_eq (f : Nat → Except Error (R × List Cmd)) (o : OneShot) :
    oneShot f o =
      match o.allocate with
      | .error text => throw (.vulkan text)
      | .ok 0 => throw (.vulkan "command buffer allocation returned none")
      | .ok (_ + 1) => run Vk.fresh >>= oneShotWith f o := rfl

theorem spares_oneShotWith (f : Nat → Except Error (R × List Cmd)) (o : OneShot) (cmd : Nat) :
    Spares (oneShotWith f o cmd) := by
  refine Spares.bind (frames_check _) fun _ => ?_
  refine Spares.bind (Frames.lift _) fun r => ?_
  refine Spares.bind (frames_check _) fun _ => ?_
  refine Spares.bind (frames_check _) fun _ => ?_
  refine Spares.bind frames_fresh fun fence => ?_
  refine Spares.bind (frames_check _) fun _ => ?_
  refine Spares.bind (frames_log fun _ => rfl) fun _ => ?_
  refine Spares.bind (frames_check _) fun _ => ?_
  refine Spares.bind (frames_log fun _ => rfl) fun _ => ?_
  exact Spares.of_total fun vk => by simp

variable {f : Nat → Except Error (R × List Cmd)}

theorem succeeds_oneShotWith {o : OneShot} {cmd : Nat} :
    Succeeds (oneShotWith f o cmd) vk ↔ o.Ok ∧ ∃ r, f cmd = .ok r := by
  unfold oneShotWith
  simp only [succeeds_bind_check, succeeds_bind_run, succeeds_bind_lift, succeeds_bind_modify,
    succeeds_pure, vkErr_eq_none, and_true]
  constructor
  · rintro ⟨hbegin, r, hrecorded, hfinish, hfence, hsubmit, hwait⟩
    exact ⟨⟨hbegin, hfinish, hfence, hsubmit, hwait⟩, r, hrecorded⟩
  · rintro ⟨⟨hbegin, hfinish, hfence, hsubmit, hwait⟩, r, hrecorded⟩
    exact ⟨hbegin, r, hrecorded, hfinish, hfence, hsubmit, hwait⟩

theorem oneShot_refused {o : OneShot} (h : ¬o.Allocated) : ∃ e, oneShot f o = throw e := by
  rw [oneShot_eq]
  cases hallocate : o.allocate with
  | error text => exact ⟨_, rfl⟩
  | ok n =>
    cases n with
    | zero => exact ⟨_, rfl⟩
    | succ n => exact absurd ⟨n, hallocate⟩ h

theorem oneShot_allocated {o : OneShot} (h : o.Allocated) :
    oneShot f o = run Vk.fresh >>= oneShotWith f o := by
  obtain ⟨n, hallocate⟩ := h
  rw [oneShot_eq, hallocate]

theorem spares_oneShot (f : Nat → Except Error (R × List Cmd)) (o : OneShot) :
    Spares (oneShot f o) := by
  by_cases h : o.Allocated
  · rw [oneShot_allocated h]
    exact Spares.bind frames_fresh (spares_oneShotWith f o)
  · obtain ⟨e, hthrow⟩ := oneShot_refused (f := f) h
    rw [hthrow]
    exact (frames_throw e).spares

theorem succeeds_oneShot {o : OneShot} :
    Succeeds (oneShot f o) vk ↔ o.Allocated ∧ o.Ok ∧ ∃ r, f vk.next = .ok r := by
  by_cases h : o.Allocated
  · rw [oneShot_allocated h, succeeds_bind_run, succeeds_oneShotWith]
    exact (and_iff_right h).symm
  · obtain ⟨e, hthrow⟩ := oneShot_refused (f := f) h
    rw [hthrow]
    exact iff_of_false (not_succeeds_throw e) fun hok => h hok.1

theorem settles_oneShot_iff {o : OneShot} :
    Settles (oneShot f o) vk ↔ (o.Allocated → o.Ok ∧ ∃ r, f vk.next = .ok r) := by
  by_cases h : o.Allocated
  · rw [oneShot_allocated h, settles_fresh_iff (spares_oneShotWith f o), succeeds_oneShotWith]
    exact (imp_iff_right h).symm
  · obtain ⟨e, hthrow⟩ := oneShot_refused (f := f) h
    rw [hthrow]
    exact iff_of_true (settles_throw e) fun hallocated => absurd hallocated h

theorem settles_createTexture2d_iff {desc : Texture2dDesc} {o : Binding} :
    Settles (createTexture2d types desc o) vk ↔ o.create ≠ none ∨ o.Ok types .deviceLocal := by
  unfold createTexture2d
  rw [settles_createBound_iff fun b => (frames_pure _).spares, succeeds_createBound_bind]
  simp

/-- No step of the upload fails. -/
structure Uploading.Ok (types : List (BitVec 32)) (o : Uploading) : Prop where
  staging : o.staging.Ok types .hostCoherent
  map : o.map = none
  allocated : o.oneShot.Allocated
  oneShot : o.oneShot.Ok

section Upload

variable {dst : Buffer} {size : BitVec 64} {o : Uploading}

/-- What the upload does once the staging buffer has its memory. -/
def uploadWith (dst : Buffer) (size : BitVec 64) (o : Uploading) (staging : Bound) :
    Fallible Vk Error Unit := do
  check (vkErr o.map)
  oneShot (fun _ => .ok ((), [.copyBuffer staging.object dst size])) o.oneShot
  modify (·.destroy (.buffer staging.object))
  modify (·.destroy (.memory staging.memory))

theorem uploadToDeviceLocal_eq :
    uploadToDeviceLocal types dst size o =
      createBound failures types .hostCoherent o.staging >>= uploadWith dst size o := rfl

theorem spares_uploadWith (staging : Bound) : Spares (uploadWith dst size o staging) := by
  refine Spares.bind (frames_check _) fun _ => ?_
  refine (spares_oneShot _ _).then fun _ vk => ?_
  simp

theorem succeeds_uploadWith {staging : Bound} :
    Succeeds (uploadWith dst size o staging) vk ↔
      o.map = none ∧ o.oneShot.Allocated ∧ o.oneShot.Ok := by
  unfold uploadWith
  rw [succeeds_bind_check, vkErr_eq_none]
  refine and_congr_right fun _ => ?_
  constructor
  · intro h
    obtain ⟨a, vk', heq, -⟩ := succeeds_bind_iff.mp h
    have hok := succeeds_oneShot.mp ⟨a, vk', heq⟩
    exact ⟨hok.1, hok.2.1⟩
  · intro h
    have hone : Succeeds (oneShot (fun _ => .ok ((), [.copyBuffer staging.object dst size]))
        o.oneShot) vk := succeeds_oneShot.mpr ⟨h.1, h.2, _, rfl⟩
    obtain ⟨a, vk', heq⟩ := hone
    exact succeeds_bind_iff.mpr ⟨a, vk', heq, by simp⟩

theorem succeeds_uploadToDeviceLocal :
    Succeeds (uploadToDeviceLocal types dst size o) vk ↔ o.Ok types := by
  rw [uploadToDeviceLocal_eq, succeeds_createBound_bind, succeeds_uploadWith]
  constructor
  · rintro ⟨hstaging, hmap, hallocated, hok⟩
    exact ⟨hstaging, hmap, hallocated, hok⟩
  · rintro ⟨hstaging, hmap, hallocated, hok⟩
    exact ⟨hstaging, hmap, hallocated, hok⟩

theorem spares_uploadToDeviceLocal : Spares (uploadToDeviceLocal types dst size o) :=
  Spares.bind frames_createBound spares_uploadWith

theorem settles_uploadToDeviceLocal_iff :
    Settles (uploadToDeviceLocal types dst size o) vk ↔
      o.staging.create ≠ none ∨ o.Ok types := by
  have hok : Succeeds (uploadToDeviceLocal types dst size o) vk ↔ o.Ok types :=
    succeeds_uploadToDeviceLocal
  rw [uploadToDeviceLocal_eq] at hok ⊢
  rw [settles_createBound_iff spares_uploadWith, hok]

end Upload

section CreateBuffer

variable {desc : BufferDesc} {initialData : Option Nat} {o : CreatingBuffer}

/-- The initial data of a buffer with this usage can be written. -/
def CreatingBuffer.Writes (types : List (BitVec 32)) (usage : BufferUsage) (o : CreatingBuffer) :
    Prop :=
  if usage = .constant then o.map = none else o.uploading.Ok types

/-- How the initial data is written. -/
def writeInitial (types : List (BitVec 32)) (desc : BufferDesc) (o : CreatingBuffer) (b : Bound) :
    Fallible Vk Error Unit :=
  if desc.usage = .constant then check (vkErr o.map)
  else uploadToDeviceLocal types b.object desc.size o.uploading

theorem createBuffer_eq :
    createBuffer types desc initialData o = (do
      check (tooLarge desc initialData)
      createBound failures types (memoryProperties desc.usage) o.binding >>= fun b =>
        (if initialData.isSome then writeInitial types desc o b else pure ()) >>= fun _ =>
          pure ⟨b.object, b.memory, desc.size, desc.usage⟩) := by
  unfold createBuffer writeInitial
  cases initialData with
  | none => rfl
  | some bytes =>
    by_cases husage : desc.usage = .constant
    · simp [husage]
    · simp [husage]

theorem spares_writeInitial (b : Bound) : Spares (writeInitial types desc o b) := by
  unfold writeInitial
  by_cases husage : desc.usage = .constant
  · rw [if_pos husage]
    exact (frames_check _).spares
  · rw [if_neg husage]
    exact spares_uploadToDeviceLocal

theorem succeeds_writeInitial {b : Bound} :
    Succeeds (writeInitial types desc o b) vk ↔ o.Writes types desc.usage := by
  unfold writeInitial CreatingBuffer.Writes
  by_cases husage : desc.usage = .constant
  · rw [if_pos husage, if_pos husage]
    exact succeeds_check.trans vkErr_eq_none
  · rw [if_neg husage, if_neg husage]
    exact succeeds_uploadToDeviceLocal

theorem settles_createBuffer_iff :
    Settles (createBuffer types desc initialData o) vk ↔
      tooLarge desc initialData ≠ none ∨ o.binding.create ≠ none ∨
        o.binding.Ok types (memoryProperties desc.usage) ∧
          (initialData.isSome → o.Writes types desc.usage) := by
  rw [createBuffer_eq, settles_check_iff, settles_createBound_iff, succeeds_createBound_bind]
  · cases initialData with
    | none => simp
    | some bytes => simp [succeeds_bind_pure, succeeds_writeInitial]
  · intro b
    cases initialData with
    | none => exact Spares.of_total fun vk => by simp
    | some bytes => exact (spares_writeInitial b).then fun _ vk => by simp

end CreateBuffer

/-- If the call fails, then what it created is destroyed, and what the context owns is there. -/
def SettlesContext (x : Context Unit) (c : DeviceContext) : Prop :=
  ∀ e c', x c = (.error e, c') → Settled c.device c'.device ∧ c'.Holds

theorem settles_omSetRenderTargets_iff {c : DeviceContext} (h : c.Holds) (rtv : RenderTargetView)
    (o : DeviceContext.SetTarget) :
    SettlesContext (DeviceContext.omSetRenderTargets rtv o) c ↔
      (c.recording = false ∧ o.begin ≠ none) ∨ o.renderPass ≠ none ∨ o.framebuffer = none := by
  have hholds := h.omSetRenderTargets rtv o
  unfold SettlesContext
  revert hholds
  unfold DeviceContext.omSetRenderTargets
  rcases DeviceContext.beginRecording_cases o.begin c with
    ⟨hrecording, e, hbegin, heq⟩ | ⟨hbegin, c₁, heq, hdevice, htarget⟩
  · rw [bind_error heq]
    intro _
    refine iff_of_true ?_ (Or.inl ⟨hrecording, hbegin ▸ Option.some_ne_none e⟩)
    intro e' c' heq'
    cases heq'
    exact ⟨Settled.of_next_le (Nat.le_refl _), h⟩
  · rw [bind_ok heq, bind_modify]
    have hbegan : ¬(c.recording = false ∧ o.begin ≠ none) := fun hb => hb.2 (hbegin hb.1)
    have h₁ : c₁.Holds := h.of_eq hdevice htarget
    have hnext : c₁.takeTarget.device.next = c.device.next :=
      DeviceContext.next_takeTarget.trans (congrArg Vk.next hdevice)
    cases o.renderPass with
    | some e =>
      intro hholds
      refine iff_of_true ?_ (Or.inr (Or.inl (Option.some_ne_none e)))
      intro e' c' heq'
      cases heq'
      exact ⟨Settled.of_next_le (Nat.le_of_eq hnext), hholds⟩
    | none =>
      cases o.framebuffer with
      | some e =>
        intro _
        refine iff_of_false (fun hsettles => ?_) (by simpa using fun hr => hbegin hr)
        -- the render pass has no framebuffer to go with, and nobody has its handle
        have hsettled := (hsettles _ _ rfl).1
        refine not_settled c.device.next (Nat.le_refl _) ?_ ?_ hsettled
        · exact Nat.lt_of_lt_of_eq (Nat.lt_succ_self _) (congrArg Nat.succ hnext.symm)
        · refine (DeviceContext.destroys_takeTarget fun hmem => ?_).trans ?_
          · exact absurd (h₁.ne_next _ hmem) (by rw [hdevice]; exact Nat.lt_irrefl _)
          · rw [hdevice]
      | none =>
        intro _
        refine iff_of_true ?_ (Or.inr (Or.inr rfl))
        intro e' c' heq'
        cases heq'

end D3d11

/-! ## Direct3D 12 -/

namespace D3d12

variable {types : List (BitVec 32)} {ι κ : Type}

/-- The views in the slots of all heaps are there. -/
def World.Holds (w : World ι κ) : Prop :=
  ∀ heap, ∀ r, .rtv r ∈ (w.heaps heap).descriptors → w.device.Live r.view.id

/-- If the call fails, then what it created is destroyed, and the heaps hold what is there if they did
    before. -/
def SettlesWorld (x : Device ι κ Unit) (w : World ι κ) : Prop :=
  ∀ e w', x w = (.error e, w') → Settled w.device w'.device ∧ (w.Holds → w'.Holds)

theorem settlesWorld_throw (e : Error) (w : World ι κ) : SettlesWorld (throw e) w := by
  intro e' w' heq
  cases heq
  exact ⟨Settled.of_next_le (Nat.le_refl _), id⟩

theorem descriptor_eq (heap : DescriptorHeap) (index : BitVec 32) :
    (∃ d, descriptor heap index = .ok d ∧ index.toNat < heap.descriptors.length) ∨
      ∃ e, descriptor heap index = .error e ∧ ¬index.toNat < heap.descriptors.length := by
  unfold descriptor
  by_cases h : index.toNat < heap.descriptors.length
  · exact Or.inl ⟨heap.descriptors[index.toNat], by simp [h], h⟩
  · exact Or.inr ⟨_, by rw [List.getElem?_eq_none (Nat.le_of_not_lt h)], h⟩

theorem settles_createRenderTargetView_iff [DecidableEq κ] {w : World ι κ} {resource : Resource} {heap : κ}
    {index : BitVec 32} {createView : Outcome} :
    SettlesWorld (createRenderTargetView resource heap index createView) w ↔
      (w.heaps heap).heapType ≠ .rtv ∨ (∃ b, resource = .buffer b) ∨ createView ≠ none ∨
        index.toNat < (w.heaps heap).descriptors.length := by
  unfold SettlesWorld createRenderTargetView
  simp only [bind_get]
  by_cases htype : (w.heaps heap).heapType = .rtv
  · rw [if_neg (not_not_intro htype), or_iff_right (not_not_intro htype)]
    cases resource with
    | buffer b => exact iff_of_true (settlesWorld_throw _ w) (Or.inl ⟨b, rfl⟩)
    | image image format extent mipLevels depthOrArraySize =>
      rw [or_iff_right (fun h : ∃ b, Resource.image image format extent mipLevels depthOrArraySize =
          .buffer b => by
        obtain ⟨b, hb⟩ := h
        cases hb)]
      cases createView with
      | some e => exact iff_of_true (settlesWorld_throw _ w) (Or.inl (Option.some_ne_none e))
      | none =>
        rcases descriptor_eq (w.heaps heap) index with ⟨d, hd, hindex⟩ | ⟨e, he, hindex⟩
        · refine iff_of_true ?_ (Or.inr hindex)
          intro e w' heq
          rw [hd] at heq
          cases d with
          | rtv r => cases heq
          | empty => cases heq
        · refine iff_of_false (fun hsettles => ?_) (by simp [hindex])
          rw [he] at hsettles
          -- the view is there, and in no slot
          have hsettled : Settled w.device w.fresh.2.device := (hsettles e w.fresh.2 rfl).1
          refine not_settled w.device.next (Nat.le_refl _) ?_ ?_ hsettled
          · exact Nat.lt_succ_self w.device.next
          · rfl
  · rw [if_pos htype]
    exact iff_of_true (settlesWorld_throw _ w) (Or.inl htype)

theorem settles_createCommittedImage_iff {desc : WithMemory.Desc} {o : Binding} :
    Settles (WithMemory.createCommittedImage types desc o) vk ↔
      o.create ≠ none ∨ o.Ok types desc.heapType.vkMemoryFlags := by
  unfold WithMemory.createCommittedImage
  rw [settles_createBound_iff fun b => (frames_pure _).spares, succeeds_createBound_bind]
  simp

theorem settles_createCommittedBuffer_iff {desc : WithMemory.Desc} {o : Binding} :
    Settles (WithMemory.createCommittedBuffer types desc o) vk ↔
      desc.width = 0 ∨ o.create ≠ none ∨ o.Ok types desc.heapType.vkMemoryFlags := by
  unfold WithMemory.createCommittedBuffer
  rw [settles_check_iff, settles_createBound_iff fun b => (frames_pure _).spares,
    succeeds_createBound_bind]
  simp

/-! ### Pipelines -/

section Pipeline

variable {desc : PipelineStateDesc} {o : Building} {os : List Outcome}

theorem frames_createShaderModule (o : Outcome) : Frames (createShaderModule o) :=
  (frames_check _).bind fun _ => frames_fresh

theorem frames_createModules : Frames (createModules os) := by
  induction os with
  | nil => exact frames_pure []
  | cons o os ih =>
    refine (frames_createShaderModule o).bind fun module => ?_
    exact ih.bind fun rest => frames_pure _

theorem createModules_ok (h : ∀ o ∈ os, o = none) (vk : Vk) :
    ∃ vk', createModules os vk = (.ok (List.range' vk.next os.length), vk') ∧
      vk'.next = vk.next + os.length ∧ ∀ id, vk'.destroys id = vk.destroys id := by
  induction os generalizing vk with
  | nil => exact ⟨vk, rfl, rfl, fun _ => rfl⟩
  | cons o os ih =>
    obtain ⟨vk', heq, hnext, hdestroys⟩ :=
      ih (fun o ho => h o (List.mem_cons_of_mem _ ho)) vk.fresh.2
    refine ⟨vk', ?_, ?_, hdestroys⟩
    · have hfirst : createShaderModule o vk = (.ok vk.next, vk.fresh.2) := by
        rw [h o List.mem_cons_self]
        rfl
      unfold createModules
      rw [bind_ok hfirst, bind_ok heq]
      rfl
    · rw [hnext, Vk.next_fresh, List.length_cons]
      omega

/-- The layout can be had: it is another one's, or its creation succeeds. -/
def Building.Layout (desc : PipelineStateDesc) (o : Building) : Prop :=
  desc.rootSignature = none → o.layout = none

/-- What comes before the pipeline. -/
def parts (desc : PipelineStateDesc) (o : Building) : Fallible Vk Error (List ShaderModule × Nat) := do
  let modules ← createModules (desc.stages o)
  let layout ← pipelineLayout desc.rootSignature o.layout
  return (modules, layout)

/-- The pipeline itself. -/
def pipelineWith (desc : PipelineStateDesc) (o : Building) (rp : Nat)
    (p : List ShaderModule × Nat) : Fallible Vk Error CreatedPipeline :=
  match o.pipelines with
  | .error text => do
    modify (·.destroyAll (attempt desc rp p.2 p.1))
    throw (.vulkan text)
  | .ok 0 => throw (.vulkan "pipeline creation returned no pipelines")
  | .ok (_ + 1) => do
    let id ← run Vk.fresh
    return {
      pipeline :=
        { id := id
          layout := p.2
          renderPass := makeRenderPass rp desc.renderTargetFormat
          stages := p.1
          rasterizer := desc.rasterizer
          extent := none
          vertexInput := desc.vertexInput }
      renderPass := makeRenderPass rp desc.renderTargetFormat
      made := desc.made rp
      ownsLayout := desc.rootSignature.isNone
      modules := p.1 }

theorem createPipelineState_eq :
    createPipelineState desc o = (do
      check (vkErr o.renderPass)
      let rp ← run Vk.fresh
      let p ← parts desc o
      pipelineWith desc o rp p) := by
  unfold createPipelineState parts
  simp only [bind_assoc]
  rfl

theorem frames_parts : Frames (parts desc o) := by
  refine frames_createModules.bind fun modules => ?_
  refine Frames.bind ?_ fun layout => frames_pure _
  unfold pipelineLayout
  cases desc.rootSignature with
  | some provided => exact frames_pure provided
  | none => exact (frames_check _).bind fun _ => frames_fresh

/-- What the parts are, where all can be had. -/
structure Parts (desc : PipelineStateDesc) (o : Building) (vk vk' : Vk)
    (p : List ShaderModule × Nat) : Prop where
  modules : p.1 = List.range' vk.next (desc.stages o).length
  owned : desc.rootSignature = none →
    p.2 = vk.next + (desc.stages o).length ∧ vk'.next = vk.next + (desc.stages o).length + 1
  borrowed : desc.rootSignature ≠ none → vk'.next = vk.next + (desc.stages o).length
  destroys : ∀ id, vk'.destroys id = vk.destroys id

theorem parts_ok (hstages : ∀ s ∈ desc.stages o, s = none) (hlayout : o.Layout desc) (vk : Vk) :
    ∃ p vk', parts desc o vk = (.ok p, vk') ∧ Parts desc o vk vk' p := by
  obtain ⟨vk₁, heq, hnext, hdestroys⟩ := createModules_ok hstages vk
  unfold parts
  rw [bind_ok heq]
  cases hroot : desc.rootSignature with
  | some provided =>
    refine ⟨_, vk₁, rfl, rfl, ?_, fun _ => hnext, hdestroys⟩
    exact fun h => absurd (hroot.symm.trans h) (Option.some_ne_none provided)
  | none =>
    rw [hlayout hroot]
    refine ⟨_, vk₁.fresh.2, rfl, rfl, fun _ => ⟨hnext, ?_⟩, fun h => absurd hroot h, hdestroys⟩
    rw [Vk.next_fresh, hnext]

theorem createModules_fails (h : ∃ s ∈ os, s ≠ none) (vk : Vk) :
    ¬Succeeds (createModules os) vk := by
  induction os generalizing vk with
  | nil => simp at h
  | cons s os ih =>
    unfold createModules
    rw [createShaderModule, bind_assoc, succeeds_bind_check, succeeds_bind_run,
      succeeds_bind_pure]
    rintro ⟨hfirst, hrest⟩
    have hnone : s = none := map_eq_none.mp hfirst
    obtain ⟨s', hmem, hsome⟩ := h
    cases List.mem_cons.mp hmem with
    | inl heq => exact hsome (heq.trans hnone)
    | inr hmem => exact ih ⟨s', hmem, hsome⟩ vk.fresh.2 hrest

theorem succeeds_parts :
    Succeeds (parts desc o) vk ↔ (∀ s ∈ desc.stages o, s = none) ∧ o.Layout desc := by
  constructor
  · intro h
    obtain ⟨modules, vk₁, heq, hrest⟩ := succeeds_bind_iff.mp h
    refine ⟨?_, ?_⟩
    · by_contra hsome
      exact createModules_fails (by simpa using hsome) vk ⟨modules, vk₁, heq⟩
    · intro hroot
      rw [succeeds_bind_pure, hroot] at hrest
      exact map_eq_none.mp (succeeds_bind_check.mp hrest).1
  · rintro ⟨hstages, hlayout⟩
    obtain ⟨p, vk', heq, -⟩ := parts_ok hstages hlayout vk
    exact ⟨p, vk', heq⟩

theorem settled_attempt {vk₁ : Vk} {p : List ShaderModule × Nat} (h : Parts desc o vk.fresh.2 vk₁ p) :
    Settled vk (vk₁.destroyAll (attempt desc vk.next p.2 p.1)) := by
  intro id hle hlt
  rw [Vk.next_destroyAll] at hlt
  rw [Vk.destroys_destroyAll, h.destroys, Vk.destroys_fresh, attempt]
  refine congrArg (vk.destroys id + ·) ?_
  have hids : (p.1.map Obj.shaderModule).map Obj.id = p.1 := by
    rw [List.map_map]
    exact List.map_id p.1
  by_cases hroot : desc.rootSignature = none
  · obtain ⟨hid, hnext⟩ := h.owned hroot
    rw [Vk.next_fresh] at hid hnext
    rw [if_pos hroot, List.map_cons, List.map_append, hids, h.modules]
    refine List.count_eq_one_of_mem ?_ ?_
    · simp [Obj.id, hid, List.nodup_range', List.mem_range'_1]
      omega
    · simp [Obj.id, hid, List.mem_range'_1]
      omega
  · have hnext := h.borrowed hroot
    rw [Vk.next_fresh] at hnext
    rw [if_neg hroot, List.map_cons, List.map_append, hids, h.modules]
    refine List.count_eq_one_of_mem ?_ ?_
    · refine List.nodup_cons.mpr ⟨fun h => ?_, List.nodup_range'⟩
      have hle : vk.next + 1 ≤ vk.next := (List.mem_range'_1.mp h).1
      omega
    · simp [Obj.id, List.mem_range'_1]
      omega

theorem settles_createPipelineState_iff :
    Settles (createPipelineState desc o) vk ↔
      o.renderPass ≠ none ∨
        (∀ s ∈ desc.stages o, s = none) ∧ o.Layout desc ∧ o.pipelines ≠ .ok 0 := by
  rw [createPipelineState_eq, settles_check_iff, ne_eq, vkErr, map_eq_none]
  refine or_congr_right ?_
  have hsucceeds : Succeeds (parts desc o) vk.fresh.2 ↔
      (∀ s ∈ desc.stages o, s = none) ∧ o.Layout desc := succeeds_parts
  rw [← and_assoc, ← hsucceeds]
  by_cases hparts : Succeeds (parts desc o) vk.fresh.2
  · rw [and_iff_right hparts]
    obtain ⟨hstages, hlayout⟩ := succeeds_parts.mp hparts
    obtain ⟨p, vk₁, heq, hspec⟩ := parts_ok hstages hlayout vk.fresh.2
    cases hpipelines : o.pipelines with
    | error text =>
      refine iff_of_true ?_ (fun h => by cases h)
      intro e vk' hfails
      rw [bind_run, bind_ok heq, pipelineWith, hpipelines] at hfails
      cases hfails
      exact settled_attempt hspec
    | ok n =>
      have hspares : ∀ rp, Spares (parts desc o >>= pipelineWith desc o rp) := by
        intro rp
        refine Spares.bind frames_parts fun p => ?_
        unfold pipelineWith
        rw [hpipelines]
        cases n with
        | zero => exact (frames_throw _).spares
        | succ n => exact (frames_fresh.bind fun _ => frames_pure _).spares
      rw [settles_fresh_iff hspares]
      unfold Succeeds
      rw [bind_ok heq, pipelineWith, hpipelines]
      cases n with
      | zero => simp [Fallible.throw]
      | succ n => simp [Fallible.pure_apply]
  · refine iff_of_false ?_ fun h => hparts h.1
    exact not_settles_fresh (fun _ => frames_parts) hparts

end Pipeline

end D3d12

/-! ## Swap chains -/

namespace Dxgi

variable {types : List (BitVec 32)} {desc : SwapChainDesc}

/-- If the call fails, then what it created is destroyed, and the surface that it was given. -/
def Surrenders (surface : Nat) (x : Fallible Vk Error SwapChain) (vk : Vk) : Prop :=
  ∀ e vk', x vk = (.error e, vk') →
    Settled vk vk' ∧ vk'.destroys surface = vk.destroys surface + 1

section Surface

variable {surface : Nat} {x : Fallible Vk Error SwapChain}

theorem surrenders_surface (e : Error) :
    Surrenders surface (do modify (·.destroyAll [.surface surface]); throw e) vk := by
  intro e' vk' heq
  cases heq
  exact ⟨Settled.of_next_le (Nat.le_refl _), by simp [Vk.destroys_destroyAll, Obj.id]⟩

theorem surrenders_orDestroy {α : Type} {text : String} {r : Except String α}
    {k : α → Fallible Vk Error SwapChain} (h : ∀ a, r = .ok a → Surrenders surface (k a) vk) :
    Surrenders surface (orDestroy [.surface surface] text r >>= k) vk := by
  cases r with
  | ok a => exact h a rfl
  | error e => exact surrenders_surface _

theorem surrenders_newWithSurface (hmade : surface < vk.next) (mode : PresentMode)
    (desc : SwapChainDesc) (o : Bringup) :
    Surrenders surface (newWithSurface surface mode desc o) vk := by
  unfold newWithSurface
  refine surrenders_orDestroy fun supported _ => ?_
  cases supported with
  | false => exact surrenders_surface _
  | true =>
    refine surrenders_orDestroy fun formats _ => ?_
    refine surrenders_orDestroy fun caps _ => ?_
    refine surrenders_orDestroy fun _ _ => ?_
    intro e vk' heq
    rw [bind_run] at heq
    cases himages : o.images _ with
    | ok count =>
      rw [himages] at heq
      cases heq
    | error text =>
      rw [himages] at heq
      cases heq
      have hne : vk.next ≠ surface := Nat.ne_of_gt hmade
      refine ⟨?_, by simp [Vk.destroys_destroyAll, Obj.id, hne]⟩
      intro id hle hlt
      have hid : id = vk.next := Nat.le_antisymm (Nat.le_of_lt_succ hlt) hle
      simp [hid, Vk.destroys_destroyAll, Obj.id, hne.symm]

end Surface

section Offscreen

variable {o : Nat → Binding}

theorem frames_offscreenImages (n : Nat) : ∀ i, Frames (offscreenImages types o i n) := by
  induction n with
  | zero => exact fun _ => frames_pure []
  | succ n ih =>
    intro i
    refine frames_createBound.bind fun b => ?_
    exact (ih (i + 1)).bind fun rest => frames_pure _

theorem succeeds_offscreenImages (n : Nat) : ∀ i vk,
    Succeeds (offscreenImages types o i n) vk ↔
      ∀ j, i ≤ j → j < i + n → (o j).Ok types .deviceLocal := by
  induction n with
  | zero => exact fun i vk => iff_of_true (succeeds_pure []) fun j hle hlt => by omega
  | succ n ih =>
    intro i vk
    unfold offscreenImages
    rw [succeeds_createBound_bind, succeeds_bind_pure, ih (i + 1)]
    constructor
    · rintro ⟨hfirst, hrest⟩ j hle hlt
      cases Nat.eq_or_lt_of_le hle with
      | inl heq => exact heq ▸ hfirst
      | inr hgt => exact hrest j hgt (by omega)
    · intro h
      exact ⟨h i (Nat.le_refl i) (by omega), fun j hle hlt => h j (by omega) (by omega)⟩

theorem settles_newOffscreen_iff :
    Settles (newOffscreen types desc o) vk ↔
      desc.bufferCount = 0 ∨ (o 0).create ≠ none ∨
        ∀ j < desc.bufferCount.toNat, (o j).Ok types .deviceLocal := by
  have hok : Succeeds (newOffscreen types desc o) vk ↔
      ∀ j < desc.bufferCount.toNat, (o j).Ok types .deviceLocal := by
    unfold newOffscreen
    rw [succeeds_bind_pure, succeeds_offscreenImages]
    simp
  cases hcount : desc.bufferCount.toNat with
  | zero =>
    have hzero : desc.bufferCount = 0 := BitVec.eq_of_toNat_eq hcount
    refine iff_of_true (Settles.of_succeeds (hok.mpr ?_)) (Or.inl hzero)
    intro j hj
    omega
  | succ n =>
    have hnonzero : desc.bufferCount ≠ 0 := fun h => by simp [h] at hcount
    rw [or_iff_right hnonzero, ← hcount, ← hok]
    unfold newOffscreen
    rw [hcount, offscreenImages, bind_assoc, settles_createBound_iff]
    intro b
    refine Frames.spares (Frames.bind ?_ fun made => frames_pure _)
    exact (frames_offscreenImages n 1).bind fun rest => frames_pure _

end Offscreen

end Dxgi

/-! ## All of them -/

/-- A call, with the device it is made on and the results of the Vulkan calls that it makes. A context
    is as some run has left it (`DeviceContext.Holds.run`); the caller of `new_with_surface` has created
    the surface. -/
inductive Creation (ι κ : Type) : Type 1
  | createTexture2d (vk : Vk) (types : List (BitVec 32)) (desc : D3d11.Texture2dDesc) (o : Binding)
  | createBuffer (vk : Vk) (types : List (BitVec 32)) (desc : D3d11.BufferDesc)
      (initialData : Option Nat) (o : D3d11.CreatingBuffer)
  | oneShot {R : Type} (vk : Vk) (f : Nat → Except D3d11.Error (R × List Cmd)) (o : D3d11.OneShot)
  | uploadToDeviceLocal (vk : Vk) (types : List (BitVec 32)) (dst : Buffer) (dstSize : BitVec 64)
      (o : D3d11.Uploading)
  | omSetRenderTargets (c : D3d11.DeviceContext) (holds : c.Holds) (rtv : D3d11.RenderTargetView)
      (o : D3d11.DeviceContext.SetTarget)
  | createRenderTargetView (w : D3d12.World ι κ) (resource : D3d12.Resource) (heap : κ)
      (index : BitVec 32) (createView : Outcome)
  | createCommittedImage (vk : Vk) (types : List (BitVec 32)) (desc : D3d12.WithMemory.Desc)
      (o : Binding)
  | createCommittedBuffer (vk : Vk) (types : List (BitVec 32)) (desc : D3d12.WithMemory.Desc)
      (o : Binding)
  | createPipelineState (vk : Vk) (desc : D3d12.PipelineStateDesc) (o : D3d12.Building)
  | newOffscreen (vk : Vk) (types : List (BitVec 32)) (desc : Dxgi.SwapChainDesc) (o : Nat → Binding)
  | newWithSurface (vk : Vk) (surface : Nat) (made : surface < vk.next) (mode : Dxgi.PresentMode)
      (desc : Dxgi.SwapChainDesc) (o : Dxgi.Bringup)

variable {ι κ : Type} [DecidableEq κ]

/-- If the call fails, then all that it created has been destroyed once, and what its receiver refers to
    is there. -/
def Creation.Unwinds : Creation ι κ → Prop
  | .createTexture2d vk types desc o => Settles (D3d11.createTexture2d types desc o) vk
  | .createBuffer vk types desc initialData o =>
    Settles (D3d11.createBuffer types desc initialData o) vk
  | .oneShot vk f o => Settles (D3d11.oneShot f o) vk
  | .uploadToDeviceLocal vk types dst dstSize o =>
    Settles (D3d11.uploadToDeviceLocal types dst dstSize o) vk
  | .omSetRenderTargets c _ rtv o =>
    D3d11.SettlesContext (D3d11.DeviceContext.omSetRenderTargets rtv o) c
  | .createRenderTargetView w resource heap index createView =>
    D3d12.SettlesWorld (D3d12.createRenderTargetView resource heap index createView) w
  | .createCommittedImage vk types desc o => Settles (D3d12.WithMemory.createCommittedImage types desc o) vk
  | .createCommittedBuffer vk types desc o => Settles (D3d12.WithMemory.createCommittedBuffer types desc o) vk
  | .createPipelineState vk desc o => Settles (D3d12.createPipelineState desc o) vk
  | .newOffscreen vk types desc o => Settles (Dxgi.newOffscreen types desc o) vk
  | .newWithSurface vk surface _ mode desc o =>
    Dxgi.Surrenders surface (Dxgi.newWithSurface surface mode desc o) vk

/-- The call does not fail, or it does before it creates anything, or in a step whose failure it
    unwinds. -/
def Creation.Covered : Creation ι κ → Prop
  | .createTexture2d _ types _ o => o.create ≠ none ∨ o.Ok types .deviceLocal
  | .createBuffer _ types desc initialData o =>
    D3d11.tooLarge desc initialData ≠ none ∨ o.binding.create ≠ none ∨
      o.binding.Ok types (D3d11.memoryProperties desc.usage) ∧
        (initialData.isSome → o.Writes types desc.usage)
  | .oneShot vk f o => o.Allocated → o.Ok ∧ ∃ r, f vk.next = .ok r
  | .uploadToDeviceLocal _ types _ _ o => o.staging.create ≠ none ∨ o.Ok types
  | .omSetRenderTargets c _ _ o =>
    (c.recording = false ∧ o.begin ≠ none) ∨ o.renderPass ≠ none ∨ o.framebuffer = none
  | .createRenderTargetView w resource heap index createView =>
    (w.heaps heap).heapType ≠ .rtv ∨ (∃ b, resource = .buffer b) ∨ createView ≠ none ∨
      index.toNat < (w.heaps heap).descriptors.length
  | .createCommittedImage _ types desc o =>
    o.create ≠ none ∨ o.Ok types desc.heapType.vkMemoryFlags
  | .createCommittedBuffer _ types desc o =>
    desc.width = 0 ∨ o.create ≠ none ∨ o.Ok types desc.heapType.vkMemoryFlags
  | .createPipelineState _ desc o =>
    o.renderPass ≠ none ∨ (∀ s ∈ desc.stages o, s = none) ∧ o.Layout desc ∧ o.pipelines ≠ .ok 0
  | .newOffscreen _ types desc o =>
    desc.bufferCount = 0 ∨ (o 0).create ≠ none ∨
      ∀ j < desc.bufferCount.toNat, (o j).Ok types .deviceLocal
  | .newWithSurface .. => True

/-- These are the failures that leave nothing behind. Each creation settles on its own; what they
    share is that an object created before the failure has no owner yet. -/
theorem Creation.unwinds_iff (c : Creation ι κ) : c.Unwinds ↔ c.Covered := by
  cases c with
  | createTexture2d vk types desc o => exact D3d11.settles_createTexture2d_iff
  | createBuffer vk types desc initialData o => exact D3d11.settles_createBuffer_iff
  | oneShot vk f o => exact D3d11.settles_oneShot_iff
  | uploadToDeviceLocal vk types dst dstSize o => exact D3d11.settles_uploadToDeviceLocal_iff
  | omSetRenderTargets c holds rtv o => exact D3d11.settles_omSetRenderTargets_iff holds rtv o
  | createRenderTargetView w resource heap index createView =>
    exact D3d12.settles_createRenderTargetView_iff
  | createCommittedImage vk types desc o => exact D3d12.settles_createCommittedImage_iff
  | createCommittedBuffer vk types desc o => exact D3d12.settles_createCommittedBuffer_iff
  | createPipelineState vk desc o => exact D3d12.settles_createPipelineState_iff
  | newOffscreen vk types desc o => exact Dxgi.settles_newOffscreen_iff
  | newWithSurface vk surface made mode desc o =>
    exact iff_of_true (Dxgi.surrenders_newWithSurface made mode desc o) trivial

/-- The image of a texture stays behind when there is no memory for it. -/
theorem textureOutOfMemory_not_unwinds :
    ¬(Creation.createTexture2d {} [0x1] ⟨640, 480, 44, true⟩
      { typeBits := 0x1, allocate := some "ERROR_OUT_OF_DEVICE_MEMORY" } :
        Creation Unit Unit).Unwinds := by
  intro h
  rcases D3d11.settles_createTexture2d_iff.mp h with hcreate | hok
  · exact hcreate rfl
  · exact absurd hok.allocate (Option.some_ne_none _)

end WinCompat.Gpu
