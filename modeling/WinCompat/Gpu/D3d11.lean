import WinCompat.Gpu.Vulkan
import WinCompat.Lib.Fallible

/-!
# The immediate context of Direct3D 11

`d3d11/src/lib.rs`: a device context records one primary command buffer and submits it in `flush`. Its
functions end at the first Vulkan call that fails, and what they have done until then stays done.
-/

namespace WinCompat.Gpu.D3d11

open Lib Lib.Fallible

/-- `D3d11Error`. -/
inductive Error
  | vulkan (text : String)
  | invalid (text : String)
  | noRenderTarget
  | noPipeline
  deriving DecidableEq

/-! ## Resources -/

/-- `create_rtv` keeps the image beside the view that it makes of it. -/
structure RenderTargetView where
  view : ImageView
  image : Image
  format : Format
  extent : Extent
  ofImage : view.image = image
  deriving DecidableEq

inductive ShaderStage
  | vertex
  | pixel
  deriving DecidableEq

structure Shader where
  module : ShaderModule
  stage : ShaderStage
  deriving DecidableEq

inductive BufferUsage
  | vertex
  | index
  | constant
  deriving DecidableEq

/-- A buffer with the usage it was created for. -/
structure Resource where
  buffer : Buffer
  usage : BufferUsage
  deriving DecidableEq

/-- A target and its framebuffer. Every render pass is one of `make_render_pass`. -/
structure BoundTarget where
  extent : Extent
  framebuffer : Framebuffer
  renderPass : RenderPass
  made : ∃ id format, renderPass = makeRenderPass id format

/-! ## The context -/

structure DeviceContext where
  device : Vk
  /-- What has been recorded since the command buffer was begun. -/
  commandBuffer : List Cmd := []
  target : Option BoundTarget := none
  vs : Option ShaderModule := none
  ps : Option ShaderModule := none
  vertexBuffer : Option Buffer := none
  vertexOffset : BitVec 64 := 0
  indexBuffer : Option Buffer := none
  indexOffset : BitVec 64 := 0
  indexType : IndexType := .uint16
  drew : Bool := false
  recording : Bool := false

abbrev Context := Fallible DeviceContext Error

def vkErr (o : Outcome) : Option Error := o.map .vulkan

namespace DeviceContext

def record (c : DeviceContext) (cmds : List Cmd) : DeviceContext :=
  { c with commandBuffer := c.commandBuffer ++ cmds }

def destroy (c : DeviceContext) (o : Obj) : DeviceContext := { c with device := c.device.destroy o }

def log (c : DeviceContext) (e : Event) : DeviceContext := { c with device := c.device.log e }

/-- A handle that Vulkan has not returned before. -/
def fresh (c : DeviceContext) : Nat × DeviceContext :=
  (c.device.fresh.1, { c with device := c.device.fresh.2 })

def beginRecording (begin : Outcome) : Context Unit := do
  let c ← get
  if c.recording then return
  check (vkErr begin)
  -- a begin resets the command buffer
  modify fun c => { c with commandBuffer := [], recording := true }

/-- Tears down the target that is bound, if there is one. -/
def takeTarget (c : DeviceContext) : DeviceContext :=
  match c.target with
  | none => c
  | some t =>
    ({ c with target := none }.destroy (.framebuffer t.framebuffer.id)).destroy
      (.renderPass t.renderPass.id)

/-- The results of the Vulkan calls that `om_set_render_targets` makes. -/
structure SetTarget where
  begin : Outcome := none
  renderPass : Outcome := none
  framebuffer : Outcome := none
  deriving DecidableEq

def omSetRenderTargets (rtv : RenderTargetView) (o : SetTarget) : Context Unit := do
  beginRecording o.begin
  modify takeTarget
  check (vkErr o.renderPass)
  let rp ← run fresh
  check (vkErr o.framebuffer)
  let fb ← run fresh
  modify fun c => { c with
    target := some
      { extent := rtv.extent
        framebuffer := ⟨fb, makeRenderPass rp rtv.format, rtv.view, rtv.extent⟩
        renderPass := makeRenderPass rp rtv.format
        made := ⟨rp, rtv.format, rfl⟩ } }

def clearRenderTargetView (rtv : RenderTargetView) (color : Color) (begin : Outcome) :
    Context Unit := do
  beginRecording begin
  modify fun c => c.record (clearCommands rtv.image color)

def vsSetShader (shader : Shader) : Context Unit :=
  modify fun c => if shader.stage = .vertex then { c with vs := some shader.module } else c

def psSetShader (shader : Shader) : Context Unit :=
  modify fun c => if shader.stage = .pixel then { c with ps := some shader.module } else c

def iaSetVertexBuffers (buffer : Resource) (offset : BitVec 64) : Context Unit :=
  modify fun c =>
    if buffer.usage = .vertex then
      { c with vertexBuffer := some buffer.buffer, vertexOffset := offset }
    else c

def iaSetIndexBuffer (buffer : Resource) (offset : BitVec 64) (type : IndexType) : Context Unit :=
  modify fun c =>
    if buffer.usage = .index then
      { c with indexBuffer := some buffer.buffer, indexOffset := offset, indexType := type }
    else c

/-! ## Drawing -/

/-- The results of the Vulkan calls that a draw makes. -/
structure Drawing where
  begin : Outcome := none
  layout : Outcome := none
  /-- Of `vkCreateGraphicsPipelines`: how many pipelines it returned, or an error. -/
  pipelines : Except String Nat := .ok 1

def buildPipeline (renderPass : RenderPass) (vs ps : ShaderModule) (extent : Extent)
    (rasterizer : RasterizerDesc) (vertexBuffer : Option Buffer) (o : Drawing) :
    Context Pipeline := do
  check (vkErr o.layout)
  let layout ← run fresh
  match o.pipelines with
  | .error text =>
    modify fun c => c.destroy (.pipelineLayout layout)
    throw (.vulkan text)
  | .ok 0 => throw (.vulkan "pipeline creation returned no pipelines")
  | .ok (_ + 1) =>
    let id ← run fresh
    modify fun c => c.destroy (.pipelineLayout layout)
    return {
      id := id
      layout := layout
      renderPass := renderPass
      stages := [vs, ps]
      rasterizer := rasterizer
      extent := some extent
      vertexInput := vertexBuffer.isSome }

/-- What a draw records before the draw command itself. -/
def passPrologue (c : DeviceContext) (t : BoundTarget) (pipeline : Pipeline) : List Cmd :=
  .beginRenderPass t.renderPass t.framebuffer transparentBlack ::
    .bindPipeline pipeline ::
    (c.vertexBuffer.map fun vb => .bindVertexBuffers vb c.vertexOffset).toList

/-- The draw command. An indexed draw without an index buffer has none. -/
def passBody (c : DeviceContext) (count vertexOffset first : BitVec 32)
    (indexType : Option IndexType) : List Cmd :=
  match indexType with
  | some it =>
    match c.indexBuffer with
    | some ib => [.bindIndexBuffer ib c.indexOffset it, .drawIndexed count 1 first vertexOffset 0]
    | none => []
  | none => [.draw count 1 first 0]

def drawInternal (count vertexOffset first : BitVec 32) (indexType : Option IndexType)
    (rasterizer : RasterizerDesc) (o : Drawing) : Context Unit := do
  beginRecording o.begin
  let c ← get
  match c.target with
  | none => throw .noRenderTarget
  | some target =>
    match c.vs, c.ps with
    | some vs, some ps =>
      let pipeline ← buildPipeline target.renderPass vs ps target.extent rasterizer c.vertexBuffer o
      modify fun c => { c.record (c.passPrologue target pipeline ++
        c.passBody count vertexOffset first indexType ++ [.endRenderPass]) with drew := true }
      -- the guard goes out of scope
      modify fun c => c.destroy (.pipeline pipeline.id)
    | _, _ => throw .noPipeline

def draw (vertexCount : BitVec 32) (rasterizer : RasterizerDesc) (o : Drawing) : Context Unit :=
  drawInternal vertexCount 0 0 none rasterizer o

def drawIndexed (indexCount vertexOffset : BitVec 32) (rasterizer : RasterizerDesc) (o : Drawing) :
    Context Unit := do
  let c ← get
  drawInternal indexCount vertexOffset 0 (some c.indexType) rasterizer o

/-! ## Flushing -/

/-- The results of the Vulkan calls that `flush` makes. -/
structure Flushing where
  finish : Outcome := none
  fence : Outcome := none
  submit : Outcome := none
  wait : Outcome := none
  reset : Outcome := none
  deriving DecidableEq

/-- The flush gets as far as submitting. -/
def Flushing.Submits (o : Flushing) : Prop := o.finish = none ∧ o.fence = none ∧ o.submit = none

instance (o : Flushing) : Decidable o.Submits := inferInstanceAs (Decidable (_ ∧ _))

def flush (o : Flushing) : Context Unit := do
  let c ← get
  if !c.recording then return
  check (vkErr o.finish)
  check (vkErr o.fence)
  check (vkErr o.submit)
  modify fun c => c.log (.submitted c.commandBuffer)
  check (vkErr o.wait)
  modify fun c => c.log .waited
  check (vkErr o.reset)
  modify fun c => { c with commandBuffer := [], recording := false, drew := false }

end DeviceContext

/-! ## Runs -/

/-- An operation, with the results of the Vulkan calls that it makes. -/
inductive Op
  | omSetRenderTargets (rtv : RenderTargetView) (o : DeviceContext.SetTarget)
  | clearRenderTargetView (rtv : RenderTargetView) (color : Color) (begin : Outcome)
  | vsSetShader (shader : Shader)
  | psSetShader (shader : Shader)
  | iaSetVertexBuffers (buffer : Resource) (offset : BitVec 64)
  | iaSetIndexBuffer (buffer : Resource) (offset : BitVec 64) (type : IndexType)
  | draw (vertexCount : BitVec 32) (rasterizer : RasterizerDesc) (o : DeviceContext.Drawing)
  | drawIndexed (indexCount vertexOffset : BitVec 32) (rasterizer : RasterizerDesc)
      (o : DeviceContext.Drawing)
  | flush (o : DeviceContext.Flushing)

def Op.run : Op → Context Unit
  | .omSetRenderTargets rtv o => DeviceContext.omSetRenderTargets rtv o
  | .clearRenderTargetView rtv color begin => DeviceContext.clearRenderTargetView rtv color begin
  | .vsSetShader shader => DeviceContext.vsSetShader shader
  | .psSetShader shader => DeviceContext.psSetShader shader
  | .iaSetVertexBuffers buffer offset => DeviceContext.iaSetVertexBuffers buffer offset
  | .iaSetIndexBuffer buffer offset type => DeviceContext.iaSetIndexBuffer buffer offset type
  | .draw vertexCount rasterizer o => DeviceContext.draw vertexCount rasterizer o
  | .drawIndexed indexCount vertexOffset rasterizer o =>
    DeviceContext.drawIndexed indexCount vertexOffset rasterizer o
  | .flush o => DeviceContext.flush o

def DeviceContext.step (c : DeviceContext) (op : Op) : DeviceContext := (op.run c).2

/-! ## What the operations keep -/

namespace DeviceContext

theorem keeps_buildPipeline {I : DeviceContext → Prop} (hfresh : ∀ c, I c → I c.fresh.2)
    (hlayout : ∀ c id, I c → I (c.destroy (.pipelineLayout id))) (rp : RenderPass)
    (vs ps : ShaderModule) (extent : Extent) (rasterizer : RasterizerDesc) (vb : Option Buffer)
    (o : Drawing) : Keeps I (buildPipeline rp vs ps extent rasterizer vb o) := by
  refine Keeps.bind (keeps_check _) fun _ => Keeps.bind hfresh fun layout => ?_
  have hlayout : Keeps I (modify fun c => c.destroy (.pipelineLayout layout) : Context Unit) :=
    keeps_modify fun c hc => hlayout c layout hc
  cases o.pipelines with
  | error text => exact hlayout.bind fun _ => keeps_throw _
  | ok n =>
    cases n with
    | zero => exact keeps_throw _
    | succ n => exact Keeps.bind hfresh fun id => hlayout.bind fun _ => keeps_pure _

/-- What is kept by the edits that the operations are made of, but for those that record or bind. -/
structure Closed (I : DeviceContext → Prop) : Prop where
  begin : ∀ c, I c → I { c with commandBuffer := [], recording := true }
  fresh : ∀ c, I c → I c.fresh.2
  takeTarget : ∀ c, I c → I c.takeTarget
  layout : ∀ c id, I c → I (c.destroy (.pipelineLayout id))

namespace Closed

variable {I : DeviceContext → Prop} (h : Closed I)

include h

theorem beginRecording (begin : Outcome) : Keeps I (beginRecording begin) := by
  apply keeps_get
  intro c hc
  cases c.recording with
  | true => exact hc
  | false => exact Keeps.bind (keeps_check _) (fun _ => keeps_modify h.begin) c hc

theorem omSetRenderTargets (rtv : RenderTargetView) (o : SetTarget)
    (hset : ∀ (c : DeviceContext) t, t.framebuffer.attachment = rtv.view → I c →
      I { c with target := some t }) :
    Keeps I (omSetRenderTargets rtv o) := by
  refine Keeps.bind (h.beginRecording _) fun _ => ?_
  refine Keeps.bind (keeps_modify h.takeTarget) fun _ => ?_
  refine Keeps.bind (keeps_check _) fun _ => Keeps.bind h.fresh fun rp => ?_
  refine Keeps.bind (keeps_check _) fun _ => Keeps.bind h.fresh fun fb => ?_
  exact keeps_modify fun c hc => hset c _ rfl hc

theorem drawInternal (count vertexOffset first : BitVec 32) (indexType : Option IndexType)
    (rasterizer : RasterizerDesc) (o : Drawing)
    (hdraw : ∀ (c : DeviceContext) t pipeline, I c → I ({ c.record (c.passPrologue t pipeline ++
      c.passBody count vertexOffset first indexType ++ [Cmd.endRenderPass]) with
        drew := true }.destroy (.pipeline pipeline.id))) :
    Keeps I (drawInternal count vertexOffset first indexType rasterizer o) := by
  refine Keeps.bind (h.beginRecording _) fun _ => ?_
  apply keeps_get
  intro c hc
  cases c.target with
  | none => exact hc
  | some t =>
    cases c.vs with
    | none => exact hc
    | some vs =>
      cases c.ps with
      | none => exact hc
      | some ps =>
        exact (keeps_buildPipeline h.fresh h.layout _ _ _ _ _ _ _).bind
          (fun p c hc => hdraw c t p hc) c hc

end Closed

end DeviceContext

end WinCompat.Gpu.D3d11
