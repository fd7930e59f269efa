import Mathlib.Data.BitVec

/-!
# Vulkan, as far as the translations use it

`d3d11/src/lib.rs` and `d3d12/src/lib.rs` record commands into command buffers and submit those
later. An object is its handle with what it was created from. A handle that Vulkan returns is fresh:
`Vk` counts them. `Vk.trace` has, newest first, what matters for lifetimes, and `Sound` says of a
trace that no command was run on an object that was gone.

Which Vulkan calls fail is up to the driver: an `Outcome` is `none` for `VK_SUCCESS`, else the text of
the result.
-/

namespace WinCompat.Gpu

abbrev Outcome := Option String

abbrev Image := Nat

abbrev ShaderModule := Nat

abbrev Buffer := Nat

abbrev Format := BitVec 32

structure Extent where
  width : BitVec 32
  height : BitVec 32
  deriving DecidableEq

/-- Four floats, as their bits. -/
structure Color where
  r : BitVec 32
  g : BitVec 32
  b : BitVec 32
  a : BitVec 32
  deriving DecidableEq

def transparentBlack : Color := ⟨0, 0, 0, 0⟩

inductive Layout
  | undefined
  | general
  | presentSrc
  | colorAttachmentOptimal
  | transferSrcOptimal
  | transferDstOptimal
  deriving DecidableEq

inductive LoadOp
  | load
  | clear
  | dontCare
  deriving DecidableEq

inductive StoreOp
  | store
  | dontCare
  deriving DecidableEq

structure ImageView where
  id : Nat
  image : Image
  deriving DecidableEq

/-- A render pass with one colour attachment. -/
structure RenderPass where
  id : Nat
  format : Format
  loadOp : LoadOp
  storeOp : StoreOp
  initialLayout : Layout
  finalLayout : Layout
  deriving DecidableEq

structure Framebuffer where
  id : Nat
  renderPass : RenderPass
  attachment : ImageView
  extent : Extent
  deriving DecidableEq

inductive FillMode
  | solid
  | wireframe
  deriving DecidableEq

inductive CullMode
  | none
  | front
  | back
  deriving DecidableEq

structure RasterizerDesc where
  fillMode : FillMode
  cullMode : CullMode
  frontCounterClockwise : Bool
  deriving DecidableEq

structure Pipeline where
  id : Nat
  layout : Nat
  renderPass : RenderPass
  stages : List ShaderModule
  rasterizer : RasterizerDesc
  /-- The static viewport and scissor. -/
  extent : Option Extent
  vertexInput : Bool
  deriving DecidableEq

inductive IndexType
  | uint16
  | uint32
  deriving DecidableEq

/-- `VkImageSubresourceRange` of a colour aspect, from level 0 and layer 0 on. -/
structure SubresourceRange where
  levelCount : Nat
  layerCount : Nat
  deriving DecidableEq

structure ImageBarrier where
  image : Image
  oldLayout : Layout
  newLayout : Layout
  range : SubresourceRange
  deriving DecidableEq

structure Rect where
  x : BitVec 32
  y : BitVec 32
  extent : Extent
  deriving DecidableEq

/-- What `vkCmd…` functions record. -/
inductive Cmd
  | pipelineBarrier (images : List ImageBarrier) (buffers : List Buffer)
  /-- Of level 0 and layer 0. -/
  | clearColorImage (image : Image) (color : Color)
  | beginRenderPass (renderPass : RenderPass) (framebuffer : Framebuffer) (clear : Color)
  | bindPipeline (pipeline : Pipeline)
  | bindVertexBuffers (buffer : Buffer) (offset : BitVec 64)
  | bindIndexBuffer (buffer : Buffer) (offset : BitVec 64) (type : IndexType)
  | setViewport (viewport : Rect)
  | setScissor (scissor : Rect)
  | draw (vertexCount instanceCount firstVertex firstInstance : BitVec 32)
  | drawIndexed (indexCount instanceCount firstIndex vertexOffset firstInstance : BitVec 32)
  | endRenderPass
  | copyBuffer (src dst : Buffer) (size : BitVec 64)
  deriving DecidableEq

/-! ## Lifetimes -/

/-- The objects that a command may refer to and a program destroy. -/
inductive Obj
  | pipeline (id : Nat)
  | pipelineLayout (id : Nat)
  | framebuffer (id : Nat)
  | renderPass (id : Nat)
  | imageView (id : Nat)
  | buffer (id : Nat)
  | image (id : Nat)
  | memory (id : Nat)
  | shaderModule (id : Nat)
  | commandBuffer (id : Nat)
  | fence (id : Nat)
  | surface (id : Nat)
  | swapchain (id : Nat)
  deriving DecidableEq

def Obj.id : Obj → Nat
  | pipeline id | pipelineLayout id | framebuffer id | renderPass id | imageView id | buffer id
  | image id | memory id | shaderModule id | commandBuffer id | fence id | surface id
  | swapchain id => id

/-- What a command refers to, the view behind a framebuffer included. No command that is recorded
    takes a pipeline layout. -/
def Cmd.refs : Cmd → List Obj
  | .pipelineBarrier _ buffers => buffers.map .buffer
  | .beginRenderPass rp fb _ =>
    [.renderPass rp.id, .framebuffer fb.id, .imageView fb.attachment.id]
  | .bindPipeline p => [.pipeline p.id]
  | .bindVertexBuffers b _ => [.buffer b]
  | .bindIndexBuffer b _ _ => [.buffer b]
  | .copyBuffer src dst _ => [.buffer src, .buffer dst]
  | .clearColorImage _ _ | .setViewport _ | .setScissor _ | .draw _ _ _ _ | .drawIndexed _ _ _ _ _
  | .endRenderPass => []

def refsOf (cmds : List Cmd) : List Obj := cmds.flatMap Cmd.refs

inductive Event
  | destroyed (o : Obj)
  | submitted (cmds : List Cmd)
  /-- The fence of the last submission was waited for, so all before it have completed. -/
  | waited
  deriving DecidableEq

/-- What has happened, newest first. -/
abbrev Trace := List Event

/-- The commands of the submissions that nobody has waited for. -/
def pending : Trace → List Cmd
  | [] => []
  | .destroyed _ :: tr => pending tr
  | .submitted cmds :: tr => cmds ++ pending tr
  | .waited :: _ => []

/-- Nothing that a submission refers to was destroyed before it, nor before it was waited for. -/
def Sound : Trace → Prop
  | [] => True
  | .destroyed o :: tr => o ∉ refsOf (pending tr) ∧ Sound tr
  | .submitted cmds :: tr => (∀ o ∈ refsOf cmds, .destroyed o ∉ tr) ∧ Sound tr
  | .waited :: tr => Sound tr

instance decidableSound : (tr : Trace) → Decidable (Sound tr)
  | [] => isTrue trivial
  | .destroyed o :: tr =>
    have := decidableSound tr
    inferInstanceAs (Decidable (o ∉ refsOf (pending tr) ∧ Sound tr))
  | .submitted cmds :: tr =>
    have := decidableSound tr
    inferInstanceAs (Decidable ((∀ o ∈ refsOf cmds, .destroyed o ∉ tr) ∧ Sound tr))
  | .waited :: tr => decidableSound tr

/-- A logical device. -/
structure Vk where
  /-- Handles from here on have not been returned yet. -/
  next : Nat := 0
  trace : Trace := []

def Vk.fresh (vk : Vk) : Nat × Vk := (vk.next, { vk with next := vk.next + 1 })

def Vk.log (vk : Vk) (e : Event) : Vk := { vk with trace := e :: vk.trace }

def Vk.destroy (vk : Vk) (o : Obj) : Vk := vk.log (.destroyed o)

@[simp] theorem Vk.trace_fresh (vk : Vk) : vk.fresh.2.trace = vk.trace := rfl

@[simp] theorem Vk.trace_log (vk : Vk) (e : Event) : (vk.log e).trace = e :: vk.trace := rfl

@[simp] theorem Vk.trace_destroy (vk : Vk) (o : Obj) :
    (vk.destroy o).trace = .destroyed o :: vk.trace := rfl

/-- `make_render_pass` of both crates: `CLEAR`/`STORE`, and the layout of a colour attachment before
    and after. -/
def makeRenderPass (id : Nat) (format : Format) : RenderPass where
  id := id
  format := format
  loadOp := .clear
  storeOp := .store
  initialLayout := .colorAttachmentOptimal
  finalLayout := .colorAttachmentOptimal

/-- What a clear records: both crates transition the image's first level and layer to the layout that
    a clear needs, from whichever it has, and back to that of a colour attachment. -/
def clearCommands (image : Image) (color : Color) : List Cmd :=
  [.pipelineBarrier [⟨image, .undefined, .transferDstOptimal, ⟨1, 1⟩⟩] [],
    .clearColorImage image color,
    .pipelineBarrier [⟨image, .transferDstOptimal, .colorAttachmentOptimal, ⟨1, 1⟩⟩] []]

end WinCompat.Gpu
