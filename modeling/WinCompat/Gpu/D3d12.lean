import WinCompat.Gpu.Vulkan
import WinCompat.Lib.Fallible

/-!
# Command lists of Direct3D 12

`d3d12/src/lib.rs`: command lists record, are closed and are executed later, several at a time. Views
are in the slots of descriptor heaps. `World` has all lists and heaps of a device; a list that nothing
has recorded into yet is as `create_command_list` returns it.

Only `create_render_target_view` writes to a heap, so a slot is an RTV or empty.
-/

namespace WinCompat.Gpu.D3d12

open Lib Lib.Fallible

/-- `D3d12Error`. -/
inductive Error
  | vulkan (text : String)
  | invalid (text : String)
  | noRenderTarget
  | noPipeline
  | descriptorIndexOutOfRange (index count : Nat)
  deriving DecidableEq

def vkErr (o : Outcome) : Option Error := o.map .vulkan

/-! ## Resources, descriptors, pipelines -/

/-- `ResourceInner`, without its memory, and what barriers read of the description: the levels, and
    the depth or the layers. -/
inductive Resource
  | image (image : Image) (format : Format) (extent : Extent) (mipLevels depthOrArraySize : BitVec 16)
  | buffer (buffer : Buffer)
  deriving DecidableEq

/-- `create_render_target_view` keeps the image beside the view that it makes of it. -/
structure Rtv where
  view : ImageView
  image : Image
  format : Format
  extent : Extent
  ofImage : view.image = image

instance : DecidableEq Rtv := fun a b =>
  decidable_of_iff (a.view = b.view ∧ a.format = b.format ∧ a.extent = b.extent) (by
    obtain ⟨_, _, _, _, rfl⟩ := a
    obtain ⟨_, _, _, _, rfl⟩ := b
    simp only [Rtv.mk.injEq]
    tauto)

inductive Descriptor
  | rtv (r : Rtv)
  | empty
  deriving DecidableEq

inductive DescriptorHeapType
  | cbvSrvUav
  | sampler
  | rtv
  | dsv
  deriving DecidableEq

structure DescriptorHeap where
  heapType : DescriptorHeapType
  descriptors : List Descriptor

/-- `PipelineState`, as far as command lists use it. Its render pass is one of `make_render_pass`. -/
structure PipelineState where
  pipeline : Pipeline
  renderPass : RenderPass
  made : ∃ id format, renderPass = makeRenderPass id format

inductive ResourceStates
  | common
  | present
  | renderTarget
  | copyDest
  | copySource
  | genericRead
  | undefined
  deriving DecidableEq

def ResourceStates.vkImageLayout : ResourceStates → Layout
  | common | genericRead => .general
  | present => .presentSrc
  | renderTarget => .colorAttachmentOptimal
  | copyDest => .transferDstOptimal
  | copySource => .transferSrcOptimal
  | undefined => .undefined

structure ResourceBarrier where
  resource : Resource
  stateBefore : ResourceStates
  stateAfter : ResourceStates
  deriving DecidableEq

/-! ## Command lists -/

structure GraphicsCommandList where
  /-- What has been recorded since the command buffer was begun. -/
  commandBuffer : List Cmd := []
  target : Option Rtv := none
  pipeline : Option PipelineState := none
  viewport : Option Rect := none
  scissor : Option Rect := none
  recording : Bool := true
  closed : Bool := false

def GraphicsCommandList.record (l : GraphicsCommandList) (cmds : List Cmd) : GraphicsCommandList :=
  { l with commandBuffer := l.commandBuffer ++ cmds }

/-- The lists and heaps of a device. -/
structure World (ι κ : Type) where
  lists : ι → GraphicsCommandList
  heaps : κ → DescriptorHeap
  device : Vk

variable {ι κ : Type} [DecidableEq ι] [DecidableEq κ]

abbrev Device (ι κ : Type) := Fallible (World ι κ) Error

namespace World

def setList (w : World ι κ) (i : ι) (f : GraphicsCommandList → GraphicsCommandList) : World ι κ :=
  { w with lists := Function.update w.lists i (f (w.lists i)) }

def destroy (w : World ι κ) (o : Obj) : World ι κ := { w with device := w.device.destroy o }

def log (w : World ι κ) (e : Event) : World ι κ := { w with device := w.device.log e }

def fresh (w : World ι κ) : Nat × World ι κ :=
  (w.device.fresh.1, { w with device := w.device.fresh.2 })

end World

/-- The descriptor in a slot. -/
def descriptor (heap : DescriptorHeap) (index : BitVec 32) : Except Error Descriptor :=
  match heap.descriptors[index.toNat]? with
  | some d => .ok d
  | none => .error (.descriptorIndexOutOfRange index.toNat heap.descriptors.length)

/-- The RTV in a slot, else the error with the text that `message` makes. -/
def rtvAt (heap : DescriptorHeap) (index : BitVec 32) (message : String) : Except Error Rtv :=
  match descriptor heap index with
  | .error e => .error e
  | .ok (.rtv r) => .ok r
  | .ok .empty => .error (.invalid message)

def liftExcept {α : Type} : Except Error α → Device ι κ α
  | .ok a => return a
  | .error e => throw e

namespace GraphicsCommandList

def close (i : ι) (finish : Outcome) : Device ι κ Unit := do
  let w ← get
  if (w.lists i).closed then return
  if !(w.lists i).recording then
    throw (.invalid "close called on a command list that was never recording")
  check (vkErr finish)
  modify fun w => w.setList i fun l => { l with recording := false, closed := true }

/-- The results of the Vulkan calls that `reset` makes. -/
structure Resetting where
  /-- Of `vkAllocateCommandBuffers`: how many it returned, or an error. -/
  allocate : Except String Nat := .ok 1
  begin : Outcome := none

/-- The old command buffer is freed first, so a failure leaves an empty one. -/
def reset (i : ι) (o : Resetting) : Device ι κ Unit := do
  modify fun w => w.setList i fun l => { l with commandBuffer := [] }
  match o.allocate with
  | .error text => throw (.vulkan text)
  | .ok 0 => throw (.vulkan "command buffer allocation returned none")
  | .ok (_ + 1) =>
    check (vkErr o.begin)
    modify fun w => w.setList i fun l => { l with
      target := none
      pipeline := none
      viewport := none
      scissor := none
      recording := true
      closed := false }

def setPipelineState (i : ι) (pso : PipelineState) : Device ι κ Unit :=
  modify fun w => w.setList i fun l => { l with pipeline := some pso }

def setRenderTargets (i : ι) (heap : κ) (handles : List (BitVec 32)) : Device ι κ Unit := do
  let w ← get
  match handles with
  | [] => throw (.invalid "set_render_targets needs at least one handle")
  | first :: _ =>
    let r ← liftExcept (rtvAt (w.heaps heap) first
      s!"descriptor at index {first.toNat} is not an RTV (got Empty)")
    modify fun w => w.setList i fun l => { l with target := some r }

def requireRecording (i : ι) : Device ι κ Unit := do
  let w ← get
  if (w.lists i).closed then throw (.invalid "command used on a closed command list")
  if !(w.lists i).recording then throw (.invalid "command list is not in the recording state")

def clearRenderTargetView (i : ι) (heap : κ) (handle : BitVec 32) (color : Color) :
    Device ι κ Unit := do
  requireRecording i
  let w ← get
  let r ← liftExcept (rtvAt (w.heaps heap) handle
    "clear_render_target_view expects an RTV descriptor (got Empty)")
  modify fun w => w.setList i fun l => l.record (clearCommands r.image color)

def setViewport (i : ι) (viewport : Rect) : Device ι κ Unit := do
  requireRecording i
  modify fun w => w.setList i fun l =>
    { l with viewport := some viewport }.record [.setViewport viewport]

def setScissorRect (i : ι) (scissor : Rect) : Device ι κ Unit := do
  requireRecording i
  modify fun w => w.setList i fun l => { l with scissor := some scissor }.record [.setScissor scissor]

/-- All barriers on images in one command, and all on buffers in another. -/
def barrierCommands (barriers : List ResourceBarrier) : List Cmd :=
  let images := barriers.filterMap fun b =>
    match b.resource with
    | .image image _ _ mipLevels depthOrArraySize =>
      some ⟨image, b.stateBefore.vkImageLayout, b.stateAfter.vkImageLayout,
        ⟨mipLevels.toNat, depthOrArraySize.toNat⟩⟩
    | .buffer _ => none
  let buffers := barriers.filterMap fun b =>
    match b.resource with
    | .image .. => none
    | .buffer buffer => some buffer
  (if images = [] then [] else [.pipelineBarrier images []]) ++
    if buffers = [] then [] else [.pipelineBarrier [] buffers]

def resourceBarrier (i : ι) (barriers : List ResourceBarrier) : Device ι κ Unit := do
  requireRecording i
  modify fun w => w.setList i fun l => l.record (barrierCommands barriers)

/-- What a draw records. -/
def drawCommands (target : Rtv) (pso : PipelineState) (framebuffer : Nat)
    (vertexCount instanceCount startVertex startInstance : BitVec 32) : List Cmd :=
  [.beginRenderPass pso.renderPass ⟨framebuffer, pso.renderPass, target.view, target.extent⟩
      transparentBlack,
    .bindPipeline pso.pipeline,
    .draw vertexCount instanceCount startVertex startInstance,
    .endRenderPass]

def drawInstanced (i : ι) (vertexCount instanceCount startVertex startInstance : BitVec 32)
    (createFramebuffer : Outcome) : Device ι κ Unit := do
  requireRecording i
  let w ← get
  match (w.lists i).target, (w.lists i).pipeline with
  | none, _ => throw .noRenderTarget
  | some _, none => throw .noPipeline
  | some target, some pso =>
    check (vkErr createFramebuffer)
    let framebuffer ← run World.fresh
    modify fun w => w.setList i fun l =>
      l.record (drawCommands target pso framebuffer vertexCount instanceCount startVertex startInstance)
    -- the guard goes out of scope
    modify fun w => w.destroy (.framebuffer framebuffer)

end GraphicsCommandList

/-! ## The queue and the device -/

/-- The results of the Vulkan calls that `execute_command_lists` makes. -/
structure Executing where
  fence : Outcome := none
  submit : Outcome := none
  wait : Outcome := none
  deriving DecidableEq

def executeCommandLists (lists : List ι) (o : Executing) : Device ι κ Unit := do
  let w ← get
  if lists = [] then return
  if lists.any fun i => !(w.lists i).closed then
    throw (.invalid "execute_command_lists: a command list is not closed")
  check (vkErr o.fence)
  check (vkErr o.submit)
  modify fun w => w.log (.submitted (lists.flatMap fun i => (w.lists i).commandBuffer))
  check (vkErr o.wait)
  modify fun w => w.log .waited

def DescriptorHeapType.debug : DescriptorHeapType → String
  | cbvSrvUav => "CbvSrvUav"
  | sampler => "Sampler"
  | rtv => "Rtv"
  | dsv => "Dsv"

/-- What is in a slot is destroyed before it is overwritten. -/
def createRenderTargetView (resource : Resource) (heap : κ) (index : BitVec 32)
    (createView : Outcome) : Device ι κ Unit := do
  let w ← get
  if (w.heaps heap).heapType ≠ .rtv then
    throw (.invalid s!"create_render_target_view needs an RTV heap (got {(w.heaps heap).heapType.debug})")
  match resource with
  | .buffer _ => throw (.invalid "create_render_target_view needs an image resource")
  | .image image format extent _ _ =>
    check (vkErr createView)
    let view ← run World.fresh
    let old ← liftExcept (descriptor (w.heaps heap) index)
    match old with
    | .rtv r => modify fun w => w.destroy (.imageView r.view.id)
    | .empty => pure ()
    modify fun w => { w with
      heaps := Function.update w.heaps heap
        { w.heaps heap with
          descriptors := (w.heaps heap).descriptors.set index.toNat
            (.rtv ⟨⟨view, image⟩, image, format, extent, rfl⟩) } }

/-! ## Runs -/

/-- An operation, with the results of the Vulkan calls that it makes. -/
inductive Op (ι κ : Type)
  | close (i : ι) (finish : Outcome)
  | reset (i : ι) (o : GraphicsCommandList.Resetting)
  | setPipelineState (i : ι) (pso : PipelineState)
  | setRenderTargets (i : ι) (heap : κ) (handles : List (BitVec 32))
  | clearRenderTargetView (i : ι) (heap : κ) (handle : BitVec 32) (color : Color)
  | setViewport (i : ι) (viewport : Rect)
  | setScissorRect (i : ι) (scissor : Rect)
  | resourceBarrier (i : ι) (barriers : List ResourceBarrier)
  | drawInstanced (i : ι) (vertexCount instanceCount startVertex startInstance : BitVec 32)
      (createFramebuffer : Outcome)
  | executeCommandLists (lists : List ι) (o : Executing)
  | createRenderTargetView (resource : Resource) (heap : κ) (index : BitVec 32) (createView : Outcome)

def Op.run : Op ι κ → Device ι κ Unit
  | .close i finish => GraphicsCommandList.close i finish
  | .reset i o => GraphicsCommandList.reset i o
  | .setPipelineState i pso => GraphicsCommandList.setPipelineState i pso
  | .setRenderTargets i heap handles => GraphicsCommandList.setRenderTargets i heap handles
  | .clearRenderTargetView i heap handle color =>
    GraphicsCommandList.clearRenderTargetView i heap handle color
  | .setViewport i viewport => GraphicsCommandList.setViewport i viewport
  | .setScissorRect i scissor => GraphicsCommandList.setScissorRect i scissor
  | .resourceBarrier i barriers => GraphicsCommandList.resourceBarrier i barriers
  | .drawInstanced i vertexCount instanceCount startVertex startInstance createFramebuffer =>
    GraphicsCommandList.drawInstanced i vertexCount instanceCount startVertex startInstance
      createFramebuffer
  | .executeCommandLists lists o => D3d12.executeCommandLists lists o
  | .createRenderTargetView resource heap index createView =>
    D3d12.createRenderTargetView resource heap index createView

def World.step (w : World ι κ) (op : Op ι κ) : World ι κ := (op.run w).2

end WinCompat.Gpu.D3d12
