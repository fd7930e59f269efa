import WinCompat.Lib.Machine
import WinCompat.Gpu.D3d11

/-!
# COM objects and their references

`d3d11-com/src`: every interface pointer is the address of a `ComObject`, which is freed when its
count reaches zero. An object may hold the address of another, or the handle of a Vulkan object that
another destroys when it is freed; `Inner.pointers`, `holds` and `owns` say which.

The guest is one that knows what it was given: it calls methods of objects to which it has a
reference, with arguments of the right kind, and releases no more than it has. Addresses and handles
are not used again, and a use of a freed object is remembered as a fault. Which Vulkan calls fail is in
the call.
-/

namespace WinCompat.Gpu.Com

open Lib
open D3d11 (DeviceContext RenderTargetView Resource BufferUsage Shader ShaderStage)

abbrev Addr := Nat

/-- The Vulkan objects that COM objects share. -/
inductive Native
  | image (id : Image)
  | view (id : Nat)
  | module (id : ShaderModule)
  | buffer (id : Buffer)
  deriving DecidableEq

def Native.id : Native → Nat
  | .image id | .view id | .module id | .buffer id => id

/-- The Rust object in a COM object. -/
inductive Inner
  | factory
  /-- The images are the swap chain's own, and go with it. -/
  | swapChain (images : List Image)
  | device (immediateCtx : Addr)
  | context (ctx : DeviceContext)
  /-- `owned` is `None`: every texture comes from `GetBuffer`, and `CreateTexture2D` is a stub. -/
  | texture2d (image : Image)
  | rtv (v : RenderTargetView)
  | buffer (b : Resource)
  | shader (m : Shader)
  | inputLayout
  /-- The rasterizer, blend, depth-stencil and sampler states and depth-stencil views. -/
  | state

/-- What is bound to a context. -/
def bound (c : DeviceContext) : List Native :=
  (c.vs.map Native.module).toList ++ (c.ps.map Native.module).toList ++
    (c.vertexBuffer.map Native.buffer).toList ++ (c.indexBuffer.map Native.buffer).toList ++
    (c.target.map fun t => Native.view t.framebuffer.attachment.id).toList

namespace Inner

/-- Destroyed when the object is dropped. -/
def owns : Inner → List Native
  | .swapChain images => images.map .image
  | .rtv v => [.view v.view.id]
  | .buffer b => [.buffer b.buffer]
  | .shader m => [.module m.module]
  | _ => []

/-- Handles of what others own. -/
def holds : Inner → List Native
  | .context ctx => bound ctx
  | .texture2d image => [.image image]
  | .rtv v => [.image v.image]
  | _ => []

/-- Addresses of other COM objects. -/
def pointers : Inner → List Addr
  | .device immediateCtx => [immediateCtx]
  | _ => []

/-- `i` refers to the object `j` at the address. -/
def RefersTo (i : Inner) (a : Addr) (j : Inner) : Prop :=
  a ∈ i.pointers ∨ ∃ n ∈ i.holds, n ∈ j.owns

instance (i : Inner) (a : Addr) (j : Inner) : Decidable (i.RefersTo a j) :=
  inferInstanceAs (Decidable (_ ∨ _))

end Inner

structure Object where
  refcount : BitVec 32
  inner : Inner

structure Store where
  heap : Addr → Option Object := fun _ => none
  /-- The references that the guest has been given and has not released. -/
  held : Addr → Nat := fun _ => 0
  next : Addr := 0
  nextNative : Nat := 0
  fault : Bool := false

namespace Store

variable (s : Store)

/-- Use an object through its address. -/
def onObject (a : Addr) (f : Object → Option Store) : Option Store :=
  match s.heap a with
  | none => some { s with fault := true }
  | some o => f o

def set (a : Addr) (o : Option Object) : Store := { s with heap := Function.update s.heap a o }

/-- The guest has one reference more, or one fewer. -/
def hold (a : Addr) (n : Nat) : Store := { s with held := Function.update s.held a n }

/-- `into_raw`, and the pointer is returned to the guest. `natives` handles were returned by Vulkan on
    the way. -/
def create (inner : Inner) (natives : Nat) : Store :=
  { (s.set s.next (some ⟨1, inner⟩)).hold s.next (s.held s.next + 1) with
    next := s.next + 1, nextNative := s.nextNative + natives }

/-! ## `IUnknown` -/

/-- `com_add_ref`, for the guest. -/
def addRef (a : Addr) : Option Store :=
  s.onObject a fun o =>
    some ((s.set a (some { o with refcount := o.refcount + 1 })).hold a (s.held a + 1))

/-- `com_release`. -/
def release (a : Addr) : Option Store :=
  s.onObject a fun o =>
    let new := o.refcount - 1
    some ((s.set a (if new = 0 then none else some { o with refcount := new })).hold a
      (s.held a - 1))

/-! ## Devices -/

/-- The context is made first, so that the device can hold its address. -/
def createDevice : Store :=
  (s.create (.context { device := {} }) 0).create (.device s.next) 0

def createDeviceAndSwapChain (images : Nat) : Store :=
  s.createDevice.create (.swapChain (List.range' s.nextNative images)) images

def getImmediateContext (this : Addr) : Option Store :=
  s.onObject this fun o =>
    match o.inner with
    | .device immediateCtx => s.addRef immediateCtx
    | _ => none

/-! ## Swap chains -/

def getBuffer (this : Addr) (index : Nat) : Option Store :=
  s.onObject this fun o =>
    match o.inner with
    | .swapChain images =>
      match images[index]? with
      | none => some s
      | some image => some (s.create (.texture2d image) 0)
    | _ => none

/-- The old images are destroyed, and there are none if the new ones cannot be made. -/
def resizeBuffers (this : Addr) (images : Option Nat) : Option Store :=
  s.onObject this fun o =>
    match o.inner with
    | .swapChain _ =>
      let n := images.getD 0
      some { s.set this (some { o with inner := .swapChain (List.range' s.nextNative n) }) with
        nextNative := s.nextNative + n }
    | _ => none

/-! ## Views, shaders and buffers -/

def createRenderTargetView (this resource : Addr) (format : Format) (extent : Extent) (ok : Bool) :
    Option Store :=
  s.onObject resource fun tex =>
    s.onObject this fun dev =>
      match tex.inner, dev.inner with
      | .texture2d image, .device _ =>
        if ok then
          some (s.create (.rtv ⟨⟨s.nextNative, image⟩, image, format, extent, rfl⟩) 1)
        else some s
      | _, _ => none

def createShader (this : Addr) (stage : ShaderStage) (ok : Bool) : Option Store :=
  s.onObject this fun dev =>
    match dev.inner with
    | .device _ => if ok then some (s.create (.shader ⟨s.nextNative, stage⟩) 1) else some s
    | _ => none

def createBuffer (this : Addr) (usage : BufferUsage) (ok : Bool) : Option Store :=
  s.onObject this fun dev =>
    match dev.inner with
    | .device _ => if ok then some (s.create (.buffer ⟨s.nextNative, usage⟩) 1) else some s
    | _ => none

def createInputLayout (this : Addr) : Option Store :=
  s.onObject this fun dev =>
    match dev.inner with
    | .device _ => some (s.create .inputLayout 0)
    | _ => none

/-! ## The context -/

def onContext (this : Addr) (op : D3d11.Op) : Option Store :=
  s.onObject this fun o =>
    match o.inner with
    | .context ctx => some (s.set this (some { o with inner := .context (ctx.step op) }))
    | _ => none

def withView (this rtv : Addr) (op : RenderTargetView → D3d11.Op) : Option Store :=
  s.onObject rtv fun o =>
    match o.inner with
    | .rtv v => s.onContext this (op v)
    | _ => none

def withShader (this shader : Addr) (op : Shader → D3d11.Op) : Option Store :=
  s.onObject shader fun o =>
    match o.inner with
    | .shader m => s.onContext this (op m)
    | _ => none

def withBuffer (this buffer : Addr) (op : Resource → D3d11.Op) : Option Store :=
  s.onObject buffer fun o =>
    match o.inner with
    | .buffer b => s.onContext this (op b)
    | _ => none

end Store

/-! ## Calls -/

inductive Call
  /-- The number of images of the swap chain; `none` if a Vulkan call fails. -/
  | createDeviceAndSwapChain (images : Option Nat)
  | createDevice (ok : Bool)
  | createFactory (ok : Bool)
  | queryInterface (this : Addr)
  | addRef (this : Addr)
  | release (this : Addr)
  | getBuffer (this : Addr) (index : Nat)
  | resizeBuffers (this : Addr) (images : Option Nat)
  /-- `Present` and `GetDesc`. -/
  | swapChainQuery (this : Addr)
  | createRenderTargetView (this resource : Addr) (format : Format) (extent : Extent) (ok : Bool)
  | createShader (this : Addr) (stage : ShaderStage) (ok : Bool)
  | createBuffer (this : Addr) (usage : BufferUsage) (ok : Bool)
  | createInputLayout (this : Addr)
  | createState (this : Addr)
  | getImmediateContext (this : Addr)
  | omSetRenderTargets (this rtv : Addr) (o : DeviceContext.SetTarget)
  | clearRenderTargetView (this rtv : Addr) (color : Color) (begin : Outcome)
  | vsSetShader (this shader : Addr)
  | psSetShader (this shader : Addr)
  | iaSetVertexBuffers (this buffer : Addr) (offset : BitVec 64)
  | draw (this : Addr) (vertexCount : BitVec 32) (rasterizer : RasterizerDesc)
      (o : DeviceContext.Drawing)
  | drawIndexed (this : Addr) (indexCount vertexOffset : BitVec 32) (rasterizer : RasterizerDesc)
      (o : DeviceContext.Drawing)
  | flush (this : Addr) (o : DeviceContext.Flushing)
  /-- The stubs, the setters that accept anything (`IASetIndexBuffer` among them), and calls that are
      refused for a null pointer. -/
  | ignored (this : Addr)

/-- The objects that a call names. -/
def Call.uses : Call → List Addr
  | .createDeviceAndSwapChain _ | .createDevice _ | .createFactory _ => []
  | .queryInterface this | .addRef this | .release this | .getBuffer this _ | .resizeBuffers this _
  | .swapChainQuery this | .createShader this _ _ | .createBuffer this _ _ | .createInputLayout this
  | .createState this | .getImmediateContext this | .draw this _ _ _ | .drawIndexed this _ _ _ _
  | .flush this _ | .ignored this => [this]
  | .createRenderTargetView this other _ _ _ | .omSetRenderTargets this other _
  | .clearRenderTargetView this other _ _ | .vsSetShader this other | .psSetShader this other
  | .iaSetVertexBuffers this other _ => [this, other]

def Store.perform (s : Store) : Call → Option Store
  | .createDeviceAndSwapChain images =>
    match images with
    | none => some s
    | some n => some (s.createDeviceAndSwapChain n)
  | .createDevice ok => some (if ok then s.createDevice else s)
  | .createFactory ok => some (if ok then s.create .factory 0 else s)
  | .queryInterface _ => some s
  | .addRef this => s.addRef this
  | .release this => s.release this
  | .getBuffer this index => s.getBuffer this index
  | .resizeBuffers this images => s.resizeBuffers this images
  | .swapChainQuery this => s.onObject this fun _ => some s
  | .createRenderTargetView this resource format extent ok =>
    s.createRenderTargetView this resource format extent ok
  | .createShader this stage ok => s.createShader this stage ok
  | .createBuffer this usage ok => s.createBuffer this usage ok
  | .createInputLayout this => s.createInputLayout this
  | .createState _ => some (s.create .state 0)
  | .getImmediateContext this => s.getImmediateContext this
  | .omSetRenderTargets this rtv o => s.withView this rtv fun v => .omSetRenderTargets v o
  | .clearRenderTargetView this rtv color begin =>
    s.withView this rtv fun v => .clearRenderTargetView v color begin
  | .vsSetShader this shader => s.withShader this shader .vsSetShader
  | .psSetShader this shader => s.withShader this shader .psSetShader
  | .iaSetVertexBuffers this buffer offset =>
    s.withBuffer this buffer fun b => .iaSetVertexBuffers b offset
  | .draw this vertexCount rasterizer o => s.onContext this (.draw vertexCount rasterizer o)
  | .drawIndexed this indexCount vertexOffset rasterizer o =>
    s.onContext this (.drawIndexed indexCount vertexOffset rasterizer o)
  | .flush this o => s.onContext this (.flush o)
  | .ignored _ => some s

/-- The guest has a reference to whatever it names. -/
def comRuns : Machine Store Call where
  init s := s = {}
  next s c := if ∀ a ∈ c.uses, 0 < s.held a then s.perform c else none

/-! ## What counting is for -/

/-- Some live object owns the Vulkan object, so it has not been destroyed. -/
def Store.Exists (s : Store) (n : Native) : Prop := ∃ a o, s.heap a = some o ∧ n ∈ o.inner.owns

structure Sound (s : Store) : Prop where
  /-- No freed object was used, nor released again. -/
  noFault : s.fault = false
  /-- Nothing is freed while the guest has a reference, -/
  held : ∀ a, 0 < s.held a → (s.heap a).isSome
  /-- nor while a live object has its address -/
  pointers : ∀ a o, s.heap a = some o → ∀ b ∈ o.inner.pointers, (s.heap b).isSome
  /-- or holds what it owns. -/
  natives : ∀ a o, s.heap a = some o → ∀ n ∈ o.inner.holds, s.Exists n
  /-- And nothing outlives its last reference. -/
  freed : ∀ a o, s.heap a = some o →
    0 < s.held a ∨ ∃ b o', s.heap b = some o' ∧ o'.inner.RefersTo a o.inner

/-- The last reference is released only if no live object refers to the object; buffers are resized
    only if no live object holds one of them; and counts stay below 2³². -/
def Call.Careful (s : Store) : Call → Prop
  | .release a => ∀ o, s.heap a = some o → o.refcount = 1 →
    ∀ b o', b ≠ a → s.heap b = some o' → ¬ o'.inner.RefersTo a o.inner
  | .resizeBuffers a _ => ∀ o, s.heap a = some o →
    ∀ b o', s.heap b = some o' → ∀ n ∈ o'.inner.holds, n ∉ o.inner.owns
  | .addRef a => ∀ o, s.heap a = some o → o.refcount ≠ BitVec.allOnes 32
  | .getImmediateContext a => ∀ o, s.heap a = some o → ∀ b ∈ o.inner.pointers,
    ∀ o', s.heap b = some o' → o'.refcount ≠ BitVec.allOnes 32
  | _ => True

end WinCompat.Gpu.Com
