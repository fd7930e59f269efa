import WinCompat.Gpu.Ledger
import WinCompat.Gpu.ResourceStates

/-!
# Creating resources

The functions of `d3d11/src/lib.rs` and `d3d12/src/lib.rs` that create objects, and `find_memory_type`
of `dxgi/src/ctx.rs`. Most have the same beginning: an object is created, memory of a type that suits it
is allocated, and the two are bound (`createBound`).

Only the calls that can fail, and those that destroy, are here; what is asked for in their create infos
is for the driver.
-/

namespace WinCompat.Gpu

open Lib Lib.Fallible

/-! ## Memory -/

/-- The combinations of `VkMemoryPropertyFlags` that are asked for. -/
inductive MemoryProperties
  | deviceLocal
  | hostCoherent
  | hostCached
  deriving DecidableEq

def MemoryProperties.flags : MemoryProperties → BitVec 32
  | deviceLocal => 0x1
  | hostCoherent => 0x6
  | hostCached => 0xa

def MemoryProperties.debug : MemoryProperties → String
  | deviceLocal => "DEVICE_LOCAL"
  | hostCoherent => "HOST_VISIBLE | HOST_COHERENT"
  | hostCached => "HOST_VISIBLE | HOST_CACHED"

def hexDigits (n : Nat) : String := String.ofList (Nat.toDigits 16 n)

/-- The first memory type that the bits allow and that has the properties, of a device whose memory
    types have these flags. -/
def findMemoryType (types : List (BitVec 32)) (typeBits : BitVec 32) (p : MemoryProperties) :
    Except String Nat :=
  match types.zipIdx.find? fun t => typeBits.getLsbD t.2 && t.1 &&& p.flags == p.flags with
  | some t => .ok t.2
  | none =>
    .error s!"no memory type matches bits 0x{hexDigits typeBits.toNat} with properties {p.debug}"

/-- The results of the calls that create an object and its memory. -/
structure Binding where
  create : Outcome := none
  /-- The memory types that suit the object. -/
  typeBits : BitVec 32
  allocate : Outcome := none
  bind : Outcome := none

/-- What is made of the text of a failed call, or of `find_memory_type`. -/
structure Failures (ε : Type) where
  create : String → ε
  memoryType : String → ε
  allocate : String → ε
  bind : String → ε

structure Bound where
  object : Nat
  memory : Nat
  deriving DecidableEq

def createBound {ε : Type} (failures : Failures ε) (types : List (BitVec 32)) (p : MemoryProperties)
    (o : Binding) : Fallible Vk ε Bound := do
  check (o.create.map failures.create)
  let object ← run Vk.fresh
  let _ ← lift ((findMemoryType types o.typeBits p).mapError failures.memoryType)
  check (o.allocate.map failures.allocate)
  let memory ← run Vk.fresh
  check (o.bind.map failures.bind)
  return ⟨object, memory⟩

/-! ## Direct3D 11 -/

namespace D3d11

def failures : Failures Error := ⟨.vulkan, .vulkan, .vulkan, .vulkan⟩

structure Texture2dDesc where
  width : BitVec 32
  height : BitVec 32
  format : Format
  renderTarget : Bool
  deriving DecidableEq

structure Texture2d where
  image : Image
  memory : Nat
  desc : Texture2dDesc

def createTexture2d (types : List (BitVec 32)) (desc : Texture2dDesc) (o : Binding) :
    Fallible Vk Error Texture2d := do
  let b ← createBound failures types .deviceLocal o
  return ⟨b.object, b.memory, desc⟩

/-- The results of the Vulkan calls that `one_shot` makes. -/
structure OneShot where
  /-- Of `vkAllocateCommandBuffers`: how many it returned, or an error. -/
  allocate : Except String Nat := .ok 1
  begin : Outcome := none
  finish : Outcome := none
  fence : Outcome := none
  submit : Outcome := none
  wait : Outcome := none

/-- Records, submits and waits. `f` has the command buffer to record into. -/
def oneShot {R : Type} (f : Nat → Except Error (R × List Cmd)) (o : OneShot) :
    Fallible Vk Error R := do
  match o.allocate with
  | .error text => throw (.vulkan text)
  | .ok 0 => throw (.vulkan "command buffer allocation returned none")
  | .ok (_ + 1) =>
    let cmd ← run Vk.fresh
    check (vkErr o.begin)
    let (result, cmds) ← lift (f cmd)
    check (vkErr o.finish)
    check (vkErr o.fence)
    let fence ← run Vk.fresh
    check (vkErr o.submit)
    modify (·.log (.submitted cmds))
    check (vkErr o.wait)
    modify (·.log .waited)
    modify (·.destroy (.fence fence))
    modify (·.destroy (.commandBuffer cmd))
    return result

/-- The results of the Vulkan calls that `upload_to_device_local` makes. -/
structure Uploading where
  staging : Binding
  map : Outcome := none
  oneShot : OneShot := {}

def uploadToDeviceLocal (types : List (BitVec 32)) (dst : Buffer) (dstSize : BitVec 64)
    (o : Uploading) : Fallible Vk Error Unit := do
  let staging ← createBound failures types .hostCoherent o.staging
  check (vkErr o.map)
  oneShot (fun _ => .ok ((), [.copyBuffer staging.object dst dstSize])) o.oneShot
  modify (·.destroy (.buffer staging.object))
  modify (·.destroy (.memory staging.memory))

structure BufferDesc where
  size : BitVec 64
  usage : BufferUsage
  deriving DecidableEq

/-- The results of the Vulkan calls that `create_buffer` makes. -/
structure CreatingBuffer where
  binding : Binding
  map : Outcome := none
  uploading : Uploading

structure CreatedBuffer where
  buffer : Buffer
  memory : Nat
  size : BitVec 64
  usage : BufferUsage

/-- Constant buffers are written through a mapping. -/
def memoryProperties : BufferUsage → MemoryProperties
  | .constant => .hostCoherent
  | .vertex | .index => .deviceLocal

/-- The refusal of initial data with so many bytes. -/
def tooLarge (desc : BufferDesc) : Option Nat → Option Error
  | some bytes =>
    if desc.size.toNat < bytes then
      some (.invalid
        s!"initial_data ({bytes} bytes) larger than buffer size ({desc.size.toNat})")
    else none
  | none => none

/-- Of the initial data, if there is any, the number of bytes is given. -/
def createBuffer (types : List (BitVec 32)) (desc : BufferDesc) (initialData : Option Nat)
    (o : CreatingBuffer) : Fallible Vk Error CreatedBuffer := do
  check (tooLarge desc initialData)
  let b ← createBound failures types (memoryProperties desc.usage) o.binding
  if initialData.isSome then
    if desc.usage = .constant then check (vkErr o.map)
    else uploadToDeviceLocal types b.object desc.size o.uploading
  return ⟨b.object, b.memory, desc.size, desc.usage⟩

end D3d11

/-! ## Direct3D 12 -/

namespace D3d12

def failures : Failures Error := ⟨.vulkan, .vulkan, .vulkan, .vulkan⟩

inductive HeapType
  | default
  | upload
  | readback
  deriving DecidableEq

def HeapType.vkMemoryFlags : HeapType → MemoryProperties
  | default => .deviceLocal
  | upload => .hostCoherent
  | readback => .hostCached

/-! ### Committed resources, with their memory -/

namespace WithMemory

structure Desc extends ResourceDesc where
  heapType : HeapType

structure Committed where
  inner : Resource
  memory : Nat
  hostVisible : Bool
  desc : Desc

/-- Images are never host-visible. -/
def createCommittedImage (types : List (BitVec 32)) (desc : Desc) (o : Binding) :
    Fallible Vk Error Committed := do
  let b ← createBound failures types desc.heapType.vkMemoryFlags o
  return ⟨.image b.object desc.format ⟨desc.width.setWidth 32, desc.height⟩ desc.mipLevels
    desc.depthOrArraySize, b.memory, false, desc⟩

def createCommittedBuffer (types : List (BitVec 32)) (desc : Desc) (o : Binding) :
    Fallible Vk Error Committed := do
  check (if desc.width = 0 then some (.invalid "buffer size must be > 0") else none)
  let b ← createBound failures types desc.heapType.vkMemoryFlags o
  return ⟨.buffer b.object, b.memory, desc.heapType ≠ .default, desc⟩

def createCommittedResource (types : List (BitVec 32)) (desc : Desc) (o : Binding) :
    Fallible Vk Error Committed :=
  match desc.dimension with
  | .buffer => createCommittedBuffer types desc o
  | .texture1d | .texture2d | .texture3d => createCommittedImage types desc o

end WithMemory

/-! ### Pipelines -/

structure PipelineStateDesc where
  /-- The layout of a root signature, to borrow. -/
  rootSignature : Option Nat
  vsSpirv : Option (List (BitVec 32))
  psSpirv : Option (List (BitVec 32))
  renderTargetFormat : Format
  rasterizer : RasterizerDesc
  /-- Whether it describes vertex bindings. -/
  vertexInput : Bool

/-- The results of the Vulkan calls that `create_pipeline_state` makes. -/
structure Building where
  renderPass : Outcome := none
  vs : Outcome := none
  ps : Outcome := none
  layout : Outcome := none
  /-- Of `vkCreateGraphicsPipelines`: how many pipelines it returned, or an error. -/
  pipelines : Except String Nat := .ok 1

structure CreatedPipeline extends PipelineState where
  ownsLayout : Bool
  modules : List ShaderModule

theorem PipelineStateDesc.made (desc : PipelineStateDesc) (rp : Nat) : ∃ id format,
    makeRenderPass rp desc.renderTargetFormat = makeRenderPass id format := ⟨_, _, rfl⟩

def createShaderModule (o : Outcome) : Fallible Vk Error ShaderModule := do
  check (vkErr o)
  run Vk.fresh

/-- The modules of the shaders that there are. -/
def createModules : List Outcome → Fallible Vk Error (List ShaderModule)
  | [] => return []
  | o :: os => do
    let module ← createShaderModule o
    let rest ← createModules os
    return module :: rest

/-- The results for the shaders that a description has, in their order. -/
def PipelineStateDesc.stages (desc : PipelineStateDesc) (o : Building) : List Outcome :=
  desc.vsSpirv.toList.map (fun _ => o.vs) ++ desc.psSpirv.toList.map fun _ => o.ps

/-- The layout of the root signature, or an empty one that the pipeline state owns. -/
def pipelineLayout (rootSignature : Option Nat) (create : Outcome) : Fallible Vk Error Nat :=
  match rootSignature with
  | some provided => return provided
  | none => do
    check (vkErr create)
    run Vk.fresh

/-- What is torn down where no pipeline could be created. -/
def attempt (desc : PipelineStateDesc) (renderPass layout : Nat) (modules : List ShaderModule) :
    List Obj :=
  .renderPass renderPass ::
    ((if desc.rootSignature = none then [.pipelineLayout layout] else []) ++
      modules.map .shaderModule)

def createPipelineState (desc : PipelineStateDesc) (o : Building) :
    Fallible Vk Error CreatedPipeline := do
  check (vkErr o.renderPass)
  let rp ← run Vk.fresh
  let modules ← createModules (desc.stages o)
  let layout ← pipelineLayout desc.rootSignature o.layout
  match o.pipelines with
  | .error text =>
    modify (·.destroyAll (attempt desc rp layout modules))
    throw (.vulkan text)
  | .ok 0 => throw (.vulkan "pipeline creation returned no pipelines")
  | .ok (_ + 1) =>
    let id ← run Vk.fresh
    return {
      pipeline :=
        { id := id
          layout := layout
          renderPass := makeRenderPass rp desc.renderTargetFormat
          stages := modules
          rasterizer := desc.rasterizer
          extent := none
          vertexInput := desc.vertexInput }
      renderPass := makeRenderPass rp desc.renderTargetFormat
      made := desc.made rp
      ownsLayout := desc.rootSignature.isNone
      modules := modules }

end D3d12

end WinCompat.Gpu
