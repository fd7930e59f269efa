import WinCompat.Gpu.Creation
import WinCompat.Lib.Comp

/-!
# Swap chains

`dxgi/src/lib.rs`: a swap chain is a `VkSwapchainKHR` on a surface, or has images of its own. The images
of a `VkSwapchainKHR` come and go with it.
-/

namespace WinCompat.Gpu.Dxgi

open Lib Lib.Fallible

/-- `DxgiError`. -/
inductive Error
  | vulkan (text : String)
  | missingExtension (name : String)
  | noSurface
  | bufferIndexOutOfRange (index count : Nat)
  deriving DecidableEq

inductive DxgiFormat
  | b8g8r8a8Unorm
  | b8g8r8a8UnormSrgb
  deriving DecidableEq

def DxgiFormat.vkFormat : DxgiFormat → Format
  | b8g8r8a8Unorm => 44
  | b8g8r8a8UnormSrgb => 50

structure SwapChainDesc where
  width : BitVec 32
  height : BitVec 32
  format : DxgiFormat
  bufferCount : BitVec 32
  deriving DecidableEq

inductive PresentMode
  | windowed
  | headless
  | offscreen
  deriving DecidableEq

inductive BackBuffer
  | ofSwapchain (swapchain index : Nat)
  | image (id : Nat)
  deriving DecidableEq

/-- A null handle is `none`. -/
structure SwapChain where
  desc : SwapChainDesc
  mode : PresentMode
  surface : Option Nat
  swapchain : Option Nat
  images : List BackBuffer
  offscreenMemory : List Nat
  current : Nat
  deriving DecidableEq

/-- `u32::max`. -/
def u32Max (a b : BitVec 32) : BitVec 32 := if a ≤ b then b else a

/-- A dimension of `0xFFFF_FFFF` leaves the size to the request. -/
def clampExtent (width height : BitVec 32) (current : Extent) : Extent where
  width := u32Max (if current.width = 0xFFFFFFFF then width else current.width) 1
  height := u32Max (if current.height = 0xFFFFFFFF then height else current.height) 1

/-! ## On a surface -/

structure SurfaceFormat where
  format : Format
  colorSpace : BitVec 32
  deriving DecidableEq

/-- The format that was asked for, else the first that there is. -/
def surfaceFormat (formats : List SurfaceFormat) (wanted : Format) : SurfaceFormat :=
  (formats.find? fun f => f.format == wanted).getD (formats.head?.getD ⟨wanted, 0⟩)

structure Capabilities where
  minImageCount : BitVec 32
  currentExtent : Extent
  deriving DecidableEq

structure SwapchainCreateInfo where
  surface : Nat
  minImageCount : BitVec 32
  imageFormat : Format
  imageColorSpace : BitVec 32
  imageExtent : Extent
  deriving DecidableEq

/-- The results of the Vulkan calls that `new_with_surface` makes. The last two depend on what is asked
    for. -/
structure Bringup where
  support : Except String Bool
  formats : Except String (List SurfaceFormat)
  capabilities : Except String Capabilities
  createSwapchain : SwapchainCreateInfo → Except String Unit
  /-- Of `vkGetSwapchainImagesKHR`: how many images there are. -/
  images : SwapchainCreateInfo → Except String Nat

/-- The objects are destroyed if a call fails. -/
def orDestroy {α : Type} (os : List Obj) (text : String) : Except String α → Fallible Vk Error α
  | .ok a => return a
  | .error e => do
    modify (·.destroyAll os)
    throw (.vulkan s!"{text}: {e}")

def createInfo (surface : Nat) (desc : SwapChainDesc) (formats : List SurfaceFormat)
    (caps : Capabilities) : SwapchainCreateInfo where
  surface := surface
  minImageCount := u32Max desc.bufferCount caps.minImageCount
  imageFormat := (surfaceFormat formats desc.format.vkFormat).format
  imageColorSpace := (surfaceFormat formats desc.format.vkFormat).colorSpace
  imageExtent := clampExtent desc.width desc.height caps.currentExtent

def newWithSurface (surface : Nat) (mode : PresentMode) (desc : SwapChainDesc) (o : Bringup) :
    Fallible Vk Error SwapChain := do
  let supported ← orDestroy [.surface surface] "query surface support" o.support
  if !supported then
    modify (·.destroyAll [.surface surface])
    throw (.vulkan "graphics queue family does not support present on the surface")
  let formats ← orDestroy [.surface surface] "query surface formats" o.formats
  let caps ← orDestroy [.surface surface] "query surface capabilities" o.capabilities
  let info := createInfo surface desc formats caps
  orDestroy [.surface surface] "create swapchain" (o.createSwapchain info)
  let swapchain ← run Vk.fresh
  let count ← orDestroy [.swapchain swapchain, .surface surface] "get swapchain images"
    (o.images info)
  return {
    desc := { desc with width := info.imageExtent.width, height := info.imageExtent.height }
    mode := mode
    surface := some surface
    swapchain := some swapchain
    images := (List.range count).map (.ofSwapchain swapchain)
    offscreenMemory := []
    current := 0 }

def newHeadless (createSurface : Outcome) (desc : SwapChainDesc) (o : Bringup) :
    Fallible Vk Error SwapChain := do
  check (createSurface.map fun e => .vulkan s!"create headless surface: {e}")
  let surface ← run Vk.fresh
  newWithSurface surface .headless desc o

def newX11 (xcbSurfaceExt : Bool) (createSurface : Outcome) (desc : SwapChainDesc) (o : Bringup) :
    Fallible Vk Error SwapChain := do
  check (if xcbSurfaceExt then none else some (.missingExtension "VK_KHR_xcb_surface"))
  check (createSurface.map fun e => .vulkan s!"create xcb surface: {e}")
  let surface ← run Vk.fresh
  newWithSurface surface .windowed desc o

/-! ## Offscreen -/

def failures : Failures Error where
  create e := .vulkan s!"create offscreen image: {e}"
  memoryType := .vulkan
  allocate e := .vulkan s!"allocate offscreen memory: {e}"
  bind e := .vulkan s!"bind offscreen image: {e}"

/-- So many images, from the `i`-th on. -/
def offscreenImages (types : List (BitVec 32)) (o : Nat → Binding) (i : Nat) :
    Nat → Fallible Vk Error (List Bound)
  | 0 => return []
  | n + 1 => do
    let b ← createBound failures types .deviceLocal (o i)
    let rest ← offscreenImages types o (i + 1) n
    return b :: rest

def newOffscreen (types : List (BitVec 32)) (desc : SwapChainDesc) (o : Nat → Binding) :
    Fallible Vk Error SwapChain := do
  let made ← offscreenImages types o 0 desc.bufferCount.toNat
  return {
    desc := desc
    mode := .offscreen
    surface := none
    swapchain := none
    images := made.map fun b => .image b.object
    offscreenMemory := made.map (·.memory)
    current := 0 }

/-! ## Bringing one up -/

/-- `VkCtx`, as far as swap chains use it. -/
structure VkCtx where
  hasHeadlessSurface : Bool
  xcbSurfaceExt : Bool
  memoryTypes : List (BitVec 32)

/-- The results of the Vulkan calls that a swap chain is made with. -/
structure Setup where
  createXcb : Outcome := none
  x11 : Bringup
  createHeadless : Outcome := none
  headless : Bringup
  offscreen : Nat → Binding

/-- Without a window. -/
def newInvisible (ctx : VkCtx) (desc : SwapChainDesc) (o : Setup) : Fallible Vk Error SwapChain :=
  if ctx.hasHeadlessSurface then newHeadless o.createHeadless desc o.headless
  else newOffscreen ctx.memoryTypes desc o.offscreen

/-- `SwapChain::new`. `x11` says whether there is a window with an X11 surface, and `headlessForced`
    what is in the environment. -/
def new (ctx : VkCtx) (x11 headlessForced : Bool) (desc : SwapChainDesc) (o : Setup) :
    Fallible Vk Error SwapChain :=
  if x11 && !headlessForced then
    orElse (newX11 ctx.xcbSurfaceExt o.createXcb desc o.x11) (newInvisible ctx desc o)
  else newInvisible ctx desc o

def BackBuffer.owned : BackBuffer → List Obj
  | .ofSwapchain _ _ => []
  | .image id => [.image id]

namespace SwapChain

/-- `vkAcquireNextImageKHR` gives the index of an image. The offscreen path divides by the number of
    images. -/
def acquireNext (c : SwapChain) (acquire : Except String Nat) : Lib.Outcome Error (SwapChain × Nat) :=
  match c.mode with
  | .windowed | .headless =>
    match acquire with
    | .error e => .err (.vulkan s!"acquire next image: {e}")
    | .ok index => .ok ({ c with current := index }, index)
  | .offscreen =>
    if c.images.length = 0 then .panic
    else .ok ({ c with current := c.current % c.images.length }, c.current % c.images.length)

def present (c : SwapChain) (queuePresent : Outcome) : Except Error Unit × SwapChain :=
  match if c.mode = .offscreen then none else queuePresent with
  | some e => (.error (.vulkan s!"queue present: {e}"), c)
  | none => (.ok (), { c with current := (c.current + 1) % max c.images.length 1 })

/-- What `destroy_swapchain_resources` destroys. -/
def swapchainResources (c : SwapChain) : List Obj :=
  (if c.mode = .offscreen then
    (c.images.zip c.offscreenMemory).flatMap fun p => p.1.owned ++ [.memory p.2]
  else []) ++ c.swapchain.toList.map .swapchain

/-- What `resize_buffers` destroys: a windowed swap chain keeps its surface. -/
def discarded (c : SwapChain) : List Obj :=
  c.swapchainResources ++
    if c.mode = .windowed then [] else c.surface.toList.map .surface

/-- What `destroy_resources` leaves. -/
def emptied (c : SwapChain) : SwapChain :=
  { c with surface := none, swapchain := none, images := [], offscreenMemory := [] }

/-- The new swap chain. Only one that a resize has lost before has a window and no surface; Vulkan takes
    no null handle there. -/
def rebuild (ctx : VkCtx) (c : SwapChain) (desc : SwapChainDesc) (o : Setup) :
    Fallible Vk Error SwapChain :=
  match c.mode with
  | .windowed =>
    match c.surface with
    | some surface => newWithSurface surface .windowed desc o.x11
    | none => throw .noSurface
  | .headless | .offscreen => newInvisible ctx desc o

def resizeBuffers (ctx : VkCtx) (c : SwapChain) (width height : BitVec 32) (o : Setup) (vk : Vk) :
    Except Error Unit × SwapChain × Vk :=
  match rebuild ctx c { c.desc with width := width, height := height } o
      (vk.destroyAll c.discarded) with
  | (.ok c', vk') => (.ok (), c', vk')
  | (.error e, vk') => (.error e, c.emptied, vk')

end SwapChain

end WinCompat.Gpu.Dxgi
