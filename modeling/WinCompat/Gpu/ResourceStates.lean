import WinCompat.Gpu.Layouts
import WinCompat.Gpu.Lifetimes

/-!
# Resource states and image layouts

`create_committed_resource` of `d3d12/src/lib.rs`, and `map_state` and `cmdlist_resource_barrier` of
`d3d12-com/src/methods.rs`. A program declares the state of a resource when it creates it and whenever
it puts a barrier on it. The translation keeps no state of its own: a barrier names the layouts that
go with the states that it declares, and an image begins in `UNDEFINED`, whatever was declared for it.

`System` has beside the device what the program knows that it has recorded and executed, in terms of
states. If it keeps to the contract in those terms, then the layouts are in step exactly if the first
thing done with each level and layer of an image is a clear (`inStep_iff`).
-/

namespace WinCompat.Gpu.D3d12

open Lib Lib.Fallible

/-- `D3D12_RESOURCE_STATES` -/
abbrev State := BitVec 32

/-- `D3D12_RESOURCE_STATE_RENDER_TARGET` -/
def renderTargetState : State := 0x4

/-- `map_state` -/
def mapState (s : State) : ResourceStates :=
  if s = 0 then .common
  else if s = 0x4 then .renderTarget
  else if s = 0x400 then .copyDest
  else if s = 0x800 then .copySource
  else .genericRead

/-- The layout that goes with a declared state. -/
def layoutOf (s : State) : Layout := (mapState s).vkImageLayout

/-! ## Creation -/

inductive ResourceDimension
  | buffer
  | texture1d
  | texture2d
  | texture3d
  deriving DecidableEq

/-- `ResourceDesc`, without its sample count, which nothing reads once the image is made. -/
structure ResourceDesc where
  dimension : ResourceDimension
  width : BitVec 64
  height : BitVec 32
  depthOrArraySize : BitVec 16
  format : Format
  mipLevels : BitVec 16

/-- The levels and layers that `create_committed_image` asks Vulkan for. A volume has one layer, or
    none if it has no depth. -/
def ResourceDesc.subresources (desc : ResourceDesc) : SubresourceRange where
  levelCount := desc.mipLevels.toNat
  layerCount :=
    if desc.dimension = .texture3d then min 1 desc.depthOrArraySize.toNat
    else desc.depthOrArraySize.toNat

/-- The results of the Vulkan calls that a creation makes, and of the search for a memory type. -/
structure Creating where
  create : Outcome := none
  memoryType : Option Error := none
  allocate : Outcome := none
  bind : Outcome := none

section Creation

variable {ι κ : Type}

def createHandle (o : Creating) : Device ι κ Nat := do
  check (vkErr o.create)
  let handle ← run World.fresh
  check o.memoryType
  check (vkErr o.allocate)
  check (vkErr o.bind)
  return handle

def createCommittedImage (desc : ResourceDesc) (o : Creating) : Device ι κ Resource := do
  let image ← createHandle o
  return .image image desc.format ⟨desc.width.setWidth 32, desc.height⟩ desc.mipLevels
    desc.depthOrArraySize

def createCommittedBuffer (desc : ResourceDesc) (o : Creating) : Device ι κ Resource := do
  if desc.width = 0 then throw (.invalid "buffer size must be > 0")
  let buffer ← createHandle o
  return .buffer buffer

def createCommittedResource (desc : ResourceDesc) (_initialState : ResourceStates) (o : Creating) :
    Device ι κ Resource :=
  match desc.dimension with
  | .buffer => createCommittedBuffer desc o
  | .texture1d | .texture2d | .texture3d => createCommittedImage desc o

end Creation

/-! ## What a program records -/

/-- `D3D12_RESOURCE_BARRIER`, without its flags and subresource, which nothing reads. -/
structure ResourceBarrierWin where
  barrierType : BitVec 32
  resource : Option Resource
  stateBefore : State
  stateAfter : State

inductive Use
  | transition (resource : Resource) (stateBefore stateAfter : State)
  | clear (rtv : Rtv) (color : Color)
  | draw (target : Rtv) (pso : PipelineState) (framebuffer : Nat)
      (vertexCount instanceCount startVertex startInstance : BitVec 32)
  | viewport (rect : Rect)
  | scissor (rect : Rect)

namespace Use

def commands : Use → List Cmd
  | .transition resource stateBefore stateAfter =>
      GraphicsCommandList.barrierCommands [⟨resource, mapState stateBefore, mapState stateAfter⟩]
  | .clear rtv color => clearCommands rtv.image color
  | .draw target pso framebuffer vertexCount instanceCount startVertex startInstance =>
      GraphicsCommandList.drawCommands target pso framebuffer vertexCount instanceCount startVertex
        startInstance
  | .viewport rect => [.setViewport rect]
  | .scissor rect => [.setScissor rect]

/-- It is a use of this subresource. A barrier is on all of an image, a clear and a draw are on the
    first level and layer. -/
def Reaches (u : Use) (sub : Subresource) : Prop :=
  match u with
  | .transition (.image image _ _ mipLevels depthOrArraySize) _ _ =>
      sub.image = image ∧ SubresourceRange.Has ⟨mipLevels.toNat, depthOrArraySize.toNat⟩ sub
  | .clear rtv _ => sub = rtv.image.first
  | .draw target _ _ _ _ _ _ => sub = target.view.image.first
  | _ => False

instance (u : Use) (sub : Subresource) : Decidable (u.Reaches sub) := by
  unfold Reaches
  split <;> infer_instance

def isClear : Use → Bool
  | .clear _ _ => true
  | _ => false

/-- The image has been created as the resource says, and is in the state that the contract asks
    for. -/
def Allowed (descs : Image → Option ResourceDesc) (states : Image → Option State) : Use → Prop
  | .transition (.image image _ _ mipLevels depthOrArraySize) stateBefore _ =>
      states image = some stateBefore ∧ ∃ desc, descs image = some desc ∧
        desc.mipLevels = mipLevels ∧ desc.depthOrArraySize = depthOrArraySize
  | .clear rtv _ => states rtv.image = some renderTargetState
  | .draw target _ _ _ _ _ _ => states target.view.image = some renderTargetState
  | _ => True

def leave (states : Image → Option State) : Use → Image → Option State
  | .transition (.image image _ _ _ _) _ stateAfter =>
      Function.update states image (some stateAfter)
  | _ => states

end Use

/-- Each use is allowed in the state that the ones before it have left. Subresources are told apart,
    since a barrier is about all of them and a clear about one. -/
def Contract (descs : Image → Option ResourceDesc) (states : Image → Option State) :
    List Use → Prop
  | [] => True
  | u :: us => u.Allowed descs states ∧ Contract descs (u.leave states) us

/-- What there is of each image. -/
def subresources (descs : Image → Option ResourceDesc) (image : Image) : SubresourceRange :=
  (descs image).elim ⟨0, 0⟩ ResourceDesc.subresources

/-- The first use of the subresource is no other than a clear. -/
def ClearedFirst (sub : Subresource) (uses : List Use) : Prop :=
  ∀ u, uses.find? (fun u => u.Reaches sub) = some u → u.isClear = true

/-! ## Layouts under the contract -/

namespace Use

/-- The state that a use of an image is in, and the one that it leaves. -/
def before : Use → State
  | .transition _ stateBefore _ => stateBefore
  | _ => renderTargetState

def after : Use → State
  | .transition _ _ stateAfter => stateAfter
  | _ => renderTargetState

/-- The layouts that it leaves. -/
def leaveLayouts (ls : Layouts) (u : Use) : Layouts :=
  fun sub => if u.Reaches sub then layoutOf u.after else ls sub

end Use

variable {u : Use} {us : List Use} {sub : Subresource} {descs : Image → Option ResourceDesc}
  {states : Image → Option State} {ls : Layouts} {rest : List Cmd} {used : Subresource → Prop}

/-- No declared state goes with `UNDEFINED`. -/
theorem layoutOf_ne_undefined (s : State) : layoutOf s ≠ .undefined := by
  unfold layoutOf mapState
  split_ifs <;> decide

theorem layoutOf_renderTargetState : layoutOf renderTargetState = .colorAttachmentOptimal := rfl

theorem Use.before_of_reaches (hallowed : u.Allowed descs states) (h : u.Reaches sub) :
    states sub.image = some u.before := by
  cases u with
  | transition resource stateBefore stateAfter =>
    cases resource with
    | image image format extent mipLevels depthOrArraySize => exact h.1 ▸ hallowed.1
    | buffer buffer => exact h.elim
  | clear rtv color =>
    cases h
    exact hallowed
  | draw target pso framebuffer vertexCount instanceCount startVertex startInstance =>
    cases h
    exact hallowed
  | viewport rect => exact h.elim
  | scissor rect => exact h.elim

theorem Use.after_of_reaches (hallowed : u.Allowed descs states) (h : u.Reaches sub) :
    u.leave states sub.image = some u.after := by
  have hbefore := Use.before_of_reaches hallowed h
  cases u with
  | transition resource stateBefore stateAfter =>
    cases resource with
    | image image format extent mipLevels depthOrArraySize =>
      rw [h.1]
      exact Function.update_self ..
    | buffer buffer => exact h.elim
  | clear rtv color => exact hbefore
  | draw target pso framebuffer vertexCount instanceCount startVertex startInstance => exact hbefore
  | viewport rect => exact h.elim
  | scissor rect => exact h.elim

theorem Use.leave_of_not_reaches (hallowed : u.Allowed descs states)
    (hreal : (subresources descs sub.image).Has sub) (h : ¬ u.Reaches sub) :
    u.leave states sub.image = states sub.image := by
  cases u with
  | transition resource stateBefore stateAfter =>
    cases resource with
    | image image format extent mipLevels depthOrArraySize =>
      refine Function.update_of_ne ?_ _ _
      rintro rfl
      obtain ⟨-, desc, hdesc, rfl, rfl⟩ := hallowed
      rw [subresources, hdesc] at hreal
      obtain ⟨hlevel, hlayer⟩ := hreal
      refine h ⟨rfl, hlevel, hlayer.trans_le ?_⟩
      show (if desc.dimension = .texture3d then min 1 desc.depthOrArraySize.toNat
        else desc.depthOrArraySize.toNat) ≤ desc.depthOrArraySize.toNat
      split_ifs
      · exact Nat.min_le_right _ _
      · exact Nat.le_refl _
    | buffer buffer => rfl
  | _ => rfl

theorem Use.inStep_commands (hallowed : u.Allowed descs states) :
    InStep (subresources descs) ls (u.commands ++ rest) ↔
      (∀ sub, (subresources descs sub.image).Has sub → u.Reaches sub →
        u.isClear = true ∨ layoutOf u.before = ls sub) ∧
          InStep (subresources descs) (u.leaveLayouts ls) rest := by
  have hsingle {v : Use} {first : Subresource} (hv : ∀ sub, v.Reaches sub ↔ sub = first) :
      v.leaveLayouts ls = Function.update ls first (layoutOf v.after) := by
    funext sub
    unfold leaveLayouts
    by_cases hsub : sub = first
    · rw [if_pos ((hv sub).mpr hsub), hsub, Function.update_self]
    · rw [if_neg (mt (hv sub).mp hsub), Function.update_of_ne hsub]
  have hunnamed {v : Use} {cmd : Cmd} (hv : ∀ sub, ¬ v.Reaches sub)
      (hexpects : ∀ ls rest, cmd.Expects (subresources descs) ls rest)
      (hleave : ∀ ls, cmd.leave ls = ls) : InStep (subresources descs) ls (cmd :: rest) ↔
        (∀ sub, (subresources descs sub.image).Has sub → v.Reaches sub →
          v.isClear = true ∨ layoutOf v.before = ls sub) ∧
            InStep (subresources descs) (v.leaveLayouts ls) rest := by
    have hlayouts : v.leaveLayouts ls = ls := funext fun sub => if_neg (hv sub)
    rw [hlayouts, inStep_cons_of_unnamed hexpects hleave]
    exact (and_iff_right fun sub _ h => absurd h (hv sub)).symm
  cases u with
  | transition resource stateBefore stateAfter =>
    cases resource with
    | image image format extent mipLevels depthOrArraySize =>
      refine (inStep_barrier (layoutOf_ne_undefined stateBefore)).trans (and_congr_left' ?_)
      constructor
      · exact fun h sub hreal hreaches => Or.inr (h sub (hreaches.1 ▸ hreal) hreaches)
      · intro h sub hreal hcovers
        have himage : sub.image = image := hcovers.1
        exact (h sub (himage ▸ hreal) hcovers).resolve_left Bool.false_ne_true
    | buffer buffer => exact hunnamed (fun _ h => h) (fun _ _ => by simp [Cmd.Expects]) fun _ => rfl
  | clear rtv color =>
    rw [hsingle (fun _ => Iff.rfl)]
    exact inStep_clearCommands.trans (and_iff_right fun _ _ _ => Or.inl rfl).symm
  | draw target pso framebuffer vertexCount instanceCount startVertex startInstance =>
    obtain ⟨id, format, hmade⟩ := pso.made
    rw [hsingle (fun _ => Iff.rfl)]
    simp [Use.commands, GraphicsCommandList.drawCommands, InStep, Cmd.Expects, Cmd.leave, hmade,
      makeRenderPass, Use.isClear, Use.before, Use.after, Use.Reaches, layoutOf_renderTargetState]
    refine fun _ => ⟨?_, fun h hreal => h _ hreal rfl⟩
    rintro h sub hreal rfl
    exact h hreal
  | viewport rect => exact hunnamed (fun _ h => h) (fun _ _ => trivial) fun _ => rfl
  | scissor rect => exact hunnamed (fun _ h => h) (fun _ _ => trivial) fun _ => rfl

theorem clearedFirst_cons_self (h : u.Reaches sub) :
    ClearedFirst sub (u :: us) ↔ u.isClear = true := by
  simp [ClearedFirst, h]

theorem clearedFirst_cons_ne (h : ¬ u.Reaches sub) :
    ClearedFirst sub (u :: us) ↔ ClearedFirst sub us := by
  simp [ClearedFirst, h]

/-- What has been used is in the layout of its image's state, and the rest is where it began. -/
structure Agrees (descs : Image → Option ResourceDesc) (states : Image → Option State)
    (ls : Layouts) (used : Subresource → Prop) : Prop where
  layout : ∀ sub s, (subresources descs sub.image).Has sub → used sub →
    states sub.image = some s → ls sub = layoutOf s
  initial : ∀ sub, ¬ used sub → ls sub = .undefined

theorem Agrees.use (h : Agrees descs states ls used) (hallowed : u.Allowed descs states) :
    Agrees descs (u.leave states) (u.leaveLayouts ls) fun sub => used sub ∨ u.Reaches sub := by
  constructor
  · intro sub s hreal hused hs
    by_cases hreaches : u.Reaches sub
    · rw [Use.after_of_reaches hallowed hreaches] at hs
      cases hs
      exact if_pos hreaches
    · rw [Use.leave_of_not_reaches hallowed hreal hreaches] at hs
      exact (if_neg hreaches).trans (h.layout sub s hreal (hused.resolve_right hreaches) hs)
  · intro sub hunused
    rw [not_or] at hunused
    exact (if_neg hunused.2).trans (h.initial sub hunused.1)

theorem inStep_uses_iff (uses : List Use) (h : Agrees descs states ls used)
    (hcontract : Contract descs states uses) :
    InStep (subresources descs) ls (uses.flatMap Use.commands) ↔
      ∀ sub, (subresources descs sub.image).Has sub → ¬ used sub → ClearedFirst sub uses := by
  induction uses generalizing states ls used with
  | nil => simp [InStep, ClearedFirst]
  | cons u us ih =>
    rw [List.flatMap_cons, Use.inStep_commands hcontract.1, ih (h.use hcontract.1) hcontract.2]
    constructor
    · rintro ⟨hfits, hothers⟩ sub hreal hunused
      by_cases hreaches : u.Reaches sub
      · rw [clearedFirst_cons_self hreaches]
        refine (hfits sub hreal hreaches).resolve_right ?_
        rw [h.initial sub hunused]
        exact layoutOf_ne_undefined u.before
      · rw [clearedFirst_cons_ne hreaches]
        exact hothers sub hreal (not_or.mpr ⟨hunused, hreaches⟩)
    · intro hall
      constructor
      · intro sub hreal hreaches
        by_cases hused : used sub
        · have hbefore := Use.before_of_reaches hcontract.1 hreaches
          exact Or.inr (h.layout sub _ hreal hused hbefore).symm
        · exact Or.inl ((clearedFirst_cons_self hreaches).mp (hall sub hreal hused))
      · intro sub hreal hunused
        rw [not_or] at hunused
        exact (clearedFirst_cons_ne hunused.2).mp (hall sub hreal hunused.1)

/-! ## Runs -/

inductive Call (ι κ : Type)
  | createCommittedResource (desc : ResourceDesc) (initialState : State) (o : Creating)
  | resourceBarrier (i : ι) (barriers : List ResourceBarrierWin)
  /-- Any other operation. -/
  | native (op : Op ι κ) (hop : ∀ i barriers, op ≠ .resourceBarrier i barriers)

structure System (ι κ : Type) where
  world : World ι κ
  /-- How each image was created, and in which state. -/
  descs : Image → Option ResourceDesc
  created : Image → Option State
  /-- What has been recorded since each command buffer was begun. -/
  uses : ι → List Use
  executed : List Use

variable {ι κ : Type} [DecidableEq ι] [DecidableEq κ]

/-- What an operation records if it succeeds, and in which list. -/
def Op.records (w : World ι κ) : Op ι κ → Option (ι × Use)
  | .clearRenderTargetView i heap handle color =>
      match rtvAt (w.heaps heap) handle "" with
      | .ok r => some (i, .clear r color)
      | .error _ => none
  | .drawInstanced i vertexCount instanceCount startVertex startInstance _ =>
      match (w.lists i).target, (w.lists i).pipeline with
      | some target, some pso => some (i, .draw target pso w.device.next vertexCount instanceCount
          startVertex startInstance)
      | _, _ => none
  | .setViewport i viewport => some (i, .viewport viewport)
  | .setScissorRect i scissor => some (i, .scissor scissor)
  | _ => none

instance (w : World ι κ) (lists : List ι) (o : Executing) : Decidable (Submits w lists o) :=
  inferInstanceAs (Decidable (_ ∧ _))

namespace System

/-- The uses after a call has returned `result`, which records `r` if it succeeds. -/
def append (σ : System ι κ) (result : Except Error Unit) (r : Option (ι × Use)) : ι → List Use :=
  match result, r with
  | .ok (), some (i, u) => Function.update σ.uses i (σ.uses i ++ [u])
  | _, _ => σ.uses

/-- One barrier of `cmdlist_resource_barrier`; only transitions are modelled there. -/
def barrier (i : ι) (σ : System ι κ) (b : ResourceBarrierWin) : System ι κ :=
  match b.resource with
  | none => σ
  | some resource =>
      if b.barrierType ≠ 0 then σ
      else
        let r := GraphicsCommandList.resourceBarrier i
          [⟨resource, mapState b.stateBefore, mapState b.stateAfter⟩] σ.world
        let uses := σ.append r.1 (some (i, .transition resource b.stateBefore b.stateAfter))
        { σ with world := r.2, uses }

def native (σ : System ι κ) (op : Op ι κ) : System ι κ :=
  let r := op.run σ.world
  let uses :=
    match op with
    | .reset i _ => Function.update σ.uses i []
    | op => σ.append r.1 (op.records σ.world)
  let executed :=
    match op with
    | .executeCommandLists lists o =>
        if Submits σ.world lists o then σ.executed ++ lists.flatMap σ.uses else σ.executed
    | _ => σ.executed
  { σ with world := r.2, uses, executed }

def step (σ : System ι κ) : Call ι κ → System ι κ
  | .createCommittedResource desc initialState o =>
      match D3d12.createCommittedResource desc (mapState initialState) o σ.world with
      | (.ok (.image image _ _ _ _), world) =>
          { σ with
            world
            descs := Function.update σ.descs image (some desc)
            created := Function.update σ.created image (some initialState) }
      | (_, world) => { σ with world }
  | .resourceBarrier i barriers => barriers.foldl (barrier i) σ
  | .native op _ => σ.native op

/-- A device on which nothing has been done, with these descriptor heaps. -/
def start (heaps : κ → DescriptorHeap) : System ι κ where
  world := ⟨fun _ => {}, heaps, {}⟩
  descs _ := none
  created _ := none
  uses _ := []
  executed := []

def run (heaps : κ → DescriptorHeap) (calls : List (Call ι κ)) : System ι κ :=
  calls.foldl step (start heaps)

end System

/-! ### What the device has recorded -/

/-- What is in each command buffer, and what has been submitted. -/
structure Holds (B : ι → List Cmd) (E : List Cmd) (w : World ι κ) : Prop where
  buffers : ∀ j, (w.lists j).commandBuffer = B j
  submitted : submissions w.device.trace = E

variable {B : ι → List Cmd} {E : List Cmd} {w : World ι κ} {i : ι} {σ : System ι κ}

omit [DecidableEq κ] in
theorem Holds.setList (h : Holds B E w) {f : GraphicsCommandList → GraphicsCommandList}
    {cmds : List Cmd} (hf : (f (w.lists i)).commandBuffer = cmds) :
    Holds (Function.update B i cmds) E (w.setList i f) := by
  refine ⟨?_, h.submitted⟩
  intro j
  unfold World.setList
  by_cases hj : j = i
  · rw [hj]
    simp only [Function.update_self]
    exact hf
  · simp only [Function.update_of_ne hj]
    exact h.buffers j

omit [DecidableEq κ] in
theorem stable_holds : Stable (Holds B E : World ι κ → Prop) where
  fresh _ h := ⟨h.buffers, h.submitted⟩
  destroy _ _ _ h := ⟨h.buffers, h.submitted⟩
  heaps _ _ h := ⟨h.buffers, h.submitted⟩
  setList w i f hf h := by
    have hlist := h.setList (hf (w.lists i))
    rwa [h.buffers i, Function.update_eq_self] at hlist

omit [DecidableEq κ] in
theorem Holds.record (h : Holds B E w) {f : GraphicsCommandList → GraphicsCommandList}
    (cmds : List Cmd) (hf : ∀ l, (f l).commandBuffer = l.commandBuffer ++ cmds) :
    Holds (Function.update B i (B i ++ cmds)) E (w.setList i f) := by
  apply h.setList
  rw [hf, h.buffers]

omit [DecidableEq ι] [DecidableEq κ] in
theorem requireRecording_cases (w : World ι κ) (i : ι) :
    GraphicsCommandList.requireRecording i w = (.ok (), w) ∨
      ∃ e, GraphicsCommandList.requireRecording i w = (.error e, w) := by
  unfold GraphicsCommandList.requireRecording
  rw [bind_get]
  split_ifs
  · exact Or.inr ⟨_, rfl⟩
  · exact Or.inr ⟨_, rfl⟩
  · exact Or.inr ⟨_, rfl⟩
  · exact Or.inl rfl

/-- The computation records the use in the list, or it fails and nothing is different. -/
def RecordsOrFails (r : Option (ι × Use)) (x : Device ι κ Unit) (w : World ι κ) : Prop :=
  (∃ e, x w = (.error e, w)) ∨ ∃ i u w', r = some (i, u) ∧ x w = (.ok (), w') ∧
    ∀ B E, Holds B E w → Holds (Function.update B i (B i ++ u.commands)) E w'

omit [DecidableEq κ] in
theorem recordsOrFails_of_recording {r : Option (ι × Use)} {x : Device ι κ Unit}
    (hx : RecordsOrFails r x w) :
    RecordsOrFails r (GraphicsCommandList.requireRecording i >>= fun _ => x) w := by
  rcases requireRecording_cases w i with hok | ⟨e, herror⟩
  · unfold RecordsOrFails
    rw [bind_ok hok]
    exact hx
  · exact Or.inl ⟨e, bind_error herror⟩

omit [DecidableEq κ] in
theorem recordsOrFails_modify (u : Use) (f : GraphicsCommandList → GraphicsCommandList)
    (hf : ∀ l, (f l).commandBuffer = l.commandBuffer ++ u.commands) :
    RecordsOrFails (some (i, u)) (modify fun w : World ι κ => w.setList i f) w :=
  Or.inr ⟨i, u, _, rfl, rfl, fun _ _ h => h.record _ hf⟩

theorem rtvAt_ok {heap : DescriptorHeap} {index : BitVec 32} {message message' : String} {r : Rtv}
    (h : rtvAt heap index message = .ok r) : rtvAt heap index message' = .ok r := by
  unfold rtvAt at h ⊢
  split at h
  · cases h
  · exact h
  · cases h

omit [DecidableEq κ] in
theorem clear_records (heap : κ) (handle : BitVec 32) (color : Color) :
    RecordsOrFails ((Op.clearRenderTargetView i heap handle color).records w)
      (GraphicsCommandList.clearRenderTargetView i heap handle color) w := by
  apply recordsOrFails_of_recording
  unfold RecordsOrFails
  rw [bind_get]
  cases hrtv : rtvAt (w.heaps heap) handle
      "clear_render_target_view expects an RTV descriptor (got Empty)" with
  | error e => exact Or.inl ⟨e, rfl⟩
  | ok r =>
    refine Or.inr ⟨i, .clear r color, _, ?_, rfl, fun B E h => h.record _ fun _ => rfl⟩
    simp [Op.records, rtvAt_ok hrtv]

omit [DecidableEq κ] in
theorem draw_records (vertexCount instanceCount startVertex startInstance : BitVec 32)
    (createFramebuffer : Outcome) :
    RecordsOrFails ((Op.drawInstanced i vertexCount instanceCount startVertex startInstance
        createFramebuffer : Op ι κ).records w)
      (GraphicsCommandList.drawInstanced i vertexCount instanceCount startVertex startInstance
        createFramebuffer) w := by
  apply recordsOrFails_of_recording
  unfold RecordsOrFails
  rw [bind_get]
  cases htarget : (w.lists i).target with
  | none => exact Or.inl ⟨_, rfl⟩
  | some target =>
    cases hpipeline : (w.lists i).pipeline with
    | none => exact Or.inl ⟨_, rfl⟩
    | some pso =>
      cases createFramebuffer with
      | some text => exact Or.inl ⟨_, rfl⟩
      | none =>
        refine Or.inr ⟨i, .draw target pso w.device.next vertexCount instanceCount startVertex
          startInstance, _, ?_, rfl, ?_⟩
        · simp [Op.records, htarget, hpipeline]
        · intro B E h
          have hfresh : Holds B E w.fresh.2 := ⟨h.buffers, h.submitted⟩
          have hrecorded := hfresh.record (i := i) (Use.draw target pso w.device.next vertexCount
            instanceCount startVertex startInstance).commands (f := fun l => l.record _) fun _ => rfl
          exact ⟨hrecorded.buffers, hrecorded.submitted⟩

omit [DecidableEq κ] in
theorem keeps_createHandle (o : Creating) : Keeps (Holds B E) (createHandle o : Device ι κ Nat) :=
  Keeps.bind (keeps_check _) fun _ => Keeps.bind stable_holds.keeps_fresh fun _ =>
    Keeps.bind (keeps_check _) fun _ => Keeps.bind (keeps_check _) fun _ =>
      Keeps.bind (keeps_check _) fun _ => keeps_pure _

omit [DecidableEq κ] in
theorem keeps_createCommittedResource (desc : ResourceDesc) (initialState : ResourceStates)
    (o : Creating) :
    Keeps (Holds B E) (createCommittedResource desc initialState o : Device ι κ Resource) := by
  have himage : Keeps (Holds B E) (createCommittedImage desc o : Device ι κ Resource) :=
    Keeps.bind (keeps_createHandle o) fun _ => keeps_pure _
  have hbuffer : Keeps (Holds B E) (createCommittedBuffer desc o : Device ι κ Resource) := by
    intro w h
    unfold createCommittedBuffer
    by_cases hsize : desc.width = 0
    · rw [if_pos hsize]
      exact h
    · rw [if_neg hsize]
      exact Keeps.bind (keeps_createHandle o) (fun _ => keeps_pure _) w h
  unfold createCommittedResource
  cases desc.dimension with
  | buffer => exact hbuffer
  | texture1d => exact himage
  | texture2d => exact himage
  | texture3d => exact himage

/-! ### What the program knows of it -/

/-- The command buffers and the submissions are those of the uses. -/
def System.Inv (σ : System ι κ) : Prop :=
  Holds (fun j => (σ.uses j).flatMap Use.commands) (σ.executed.flatMap Use.commands) σ.world

theorem flatMap_append_use (uses : ι → List Use) (i : ι) (u : Use) :
    (fun j => (Function.update uses i (uses i ++ [u]) j).flatMap Use.commands) =
      Function.update (fun j => (uses j).flatMap Use.commands) i
        ((uses i).flatMap Use.commands ++ u.commands) := by
  funext j
  by_cases hj : j = i
  · rw [hj, Function.update_self, Function.update_self, List.flatMap_append, List.flatMap_singleton]
  · rw [Function.update_of_ne hj, Function.update_of_ne hj]

namespace System

omit [DecidableEq κ] in
/-- After a computation that records a use, or fails. -/
theorem Inv.append (h : σ.Inv) {x : Device ι κ Unit} {r : Option (ι × Use)}
    (hrecords : RecordsOrFails r x σ.world) :
    { σ with world := (x σ.world).2, uses := σ.append (x σ.world).1 r }.Inv := by
  rcases hrecords with ⟨e, herror⟩ | ⟨i, u, w, rfl, hok, hholds⟩
  · rw [herror]
    exact h
  · rw [hok]
    unfold Inv System.append
    dsimp only
    rw [flatMap_append_use]
    exact hholds _ _ h

omit [DecidableEq κ] in
theorem append_none (σ : System ι κ) (result : Except Error Unit) :
    σ.append result none = σ.uses := by
  cases result <;> rfl

omit [DecidableEq κ] in
theorem Inv.barrier (h : σ.Inv) (i : ι) (b : ResourceBarrierWin) : (σ.barrier i b).Inv := by
  unfold System.barrier
  cases b.resource with
  | none => exact h
  | some resource =>
    dsimp only
    by_cases htype : b.barrierType ≠ 0
    · rw [if_pos htype]
      exact h
    · rw [if_neg htype]
      have hrecords : RecordsOrFails
          (some (i, .transition resource b.stateBefore b.stateAfter))
          (GraphicsCommandList.resourceBarrier i
            [⟨resource, mapState b.stateBefore, mapState b.stateAfter⟩]) σ.world :=
        recordsOrFails_of_recording (recordsOrFails_modify _ _ fun _ => rfl)
      exact h.append hrecords

theorem Inv.keeps (h : σ.Inv) {op : Op ι κ} (hkeeps : ∀ B E, Keeps (Holds B E) op.run)
    (huses : (σ.native op).uses = σ.uses) (hexecuted : (σ.native op).executed = σ.executed) :
    (σ.native op).Inv := by
  unfold Inv
  rw [huses, hexecuted]
  exact hkeeps _ _ _ h

theorem Inv.reset (h : σ.Inv) (i : ι) (o : GraphicsCommandList.Resetting) :
    (σ.native (.reset i o)).Inv := by
  have huses : (fun j => (Function.update σ.uses i [] j).flatMap Use.commands) =
      Function.update (fun j => (σ.uses j).flatMap Use.commands) i [] := by
    funext j
    by_cases hj : j = i
    · rw [hj, Function.update_self, Function.update_self]
      rfl
    · rw [Function.update_of_ne hj, Function.update_of_ne hj]
  have hempty := Holds.setList h (i := i) (f := fun l => { l with commandBuffer := [] }) rfl
  rw [← huses] at hempty
  obtain ⟨allocate, begin⟩ := o
  cases allocate with
  | error text => exact hempty
  | ok n =>
    cases n with
    | zero => exact hempty
    | succ n =>
      have hrest : Keeps (Holds (fun j => (Function.update σ.uses i [] j).flatMap Use.commands)
          (σ.executed.flatMap Use.commands)) (do
            check (vkErr begin)
            modify fun w => w.setList i fun l => { l with
              target := none
              pipeline := none
              viewport := none
              scissor := none
              recording := true
              closed := false } : Device ι κ Unit) :=
        Keeps.bind (keeps_check _) fun _ => stable_holds.keeps_setList fun _ => rfl
      exact hrest _ hempty

theorem Inv.execute (h : σ.Inv) (lists : List ι) (o : Executing) :
    (σ.native (.executeCommandLists lists o)).Inv := by
  have huses : (σ.native (.executeCommandLists lists o)).uses = σ.uses := σ.append_none _
  have hbuffers : (lists.flatMap fun i => (σ.world.lists i).commandBuffer) =
      (lists.flatMap σ.uses).flatMap Use.commands := by
    rw [List.flatMap_assoc]
    exact List.flatMap_congr fun i _ => h.buffers i
  unfold Inv
  rw [huses]
  rcases execute_cases σ.world lists o with ⟨hworld, hnot⟩ | ⟨hsubmits, hworld⟩
  · have hexecuted : (σ.native (.executeCommandLists lists o)).executed = σ.executed :=
      if_neg hnot
    have hsame : (σ.native (.executeCommandLists lists o)).world = σ.world := hworld
    rw [hexecuted, hsame]
    exact h
  · have hexecuted : (σ.native (.executeCommandLists lists o)).executed =
        σ.executed ++ lists.flatMap σ.uses := if_pos hsubmits
    have hstep : (σ.native (.executeCommandLists lists o)).world =
        σ.world.step (.executeCommandLists lists o) := rfl
    rw [hexecuted, hstep, List.flatMap_append, ← hbuffers, ← h.submitted]
    rcases hworld with hworld | hworld
    · rw [hworld]
      exact ⟨h.buffers, rfl⟩
    · rw [hworld]
      exact ⟨h.buffers, rfl⟩

theorem Inv.native (h : σ.Inv) (op : Op ι κ)
    (hop : ∀ i barriers, op ≠ .resourceBarrier i barriers) : (σ.native op).Inv := by
  cases op with
  | close i finish => exact h.keeps (fun _ _ => stable_holds.keeps_close finish) (σ.append_none _) rfl
  | reset i o => exact h.reset i o
  | setPipelineState i pso =>
    exact h.keeps (fun _ _ => stable_holds.keeps_setList fun _ => rfl) rfl rfl
  | setRenderTargets i heap handles =>
    exact h.keeps (fun _ _ => stable_holds.keeps_setRenderTargets heap handles) (σ.append_none _) rfl
  | clearRenderTargetView i heap handle color =>
    exact h.append (clear_records heap handle color)
  | setViewport i viewport =>
    exact h.append (recordsOrFails_of_recording
      (recordsOrFails_modify (.viewport viewport) _ fun _ => rfl))
  | setScissorRect i scissor =>
    exact h.append (recordsOrFails_of_recording
      (recordsOrFails_modify (.scissor scissor) _ fun _ => rfl))
  | resourceBarrier i barriers => exact absurd rfl (hop i barriers)
  | drawInstanced i vertexCount instanceCount startVertex startInstance createFramebuffer =>
    exact h.append (draw_records _ _ _ _ _)
  | executeCommandLists lists o => exact h.execute lists o
  | createRenderTargetView resource heap index createView =>
    exact h.keeps (fun _ _ => stable_holds.keeps_createRenderTargetView _ _ _ _)
      (σ.append_none _) rfl

theorem Inv.step (h : σ.Inv) (c : Call ι κ) : (σ.step c).Inv := by
  cases c with
  | createCommittedResource desc initialState o =>
    have hcreate := keeps_createCommittedResource desc (mapState initialState) o σ.world h
    unfold System.step
    dsimp only
    split <;> rename_i hresult <;> rw [hresult] at hcreate <;> exact hcreate
  | resourceBarrier i barriers =>
    unfold System.step
    dsimp only
    induction barriers generalizing σ with
    | nil => exact h
    | cons b barriers ih => exact ih (h.barrier i b)
  | native op hop => exact h.native op hop

theorem inv_run (heaps : κ → DescriptorHeap) (calls : List (Call ι κ)) : (run heaps calls).Inv := by
  have hcalls (σ : System ι κ) (h : σ.Inv) : (calls.foldl System.step σ).Inv := by
    induction calls generalizing σ with
    | nil => exact h
    | cons c calls ih => exact ih _ (h.step c)
  exact hcalls _ ⟨fun _ => rfl, rfl⟩

end System

/-- **The layouts are in step with what is executed exactly if everything there is of every image is
    cleared before anything else is done with it**, in a program that keeps to the contract. Barriers
    are on all levels and layers of an image and clears on the first, so that where there are others
    no barrier is in step. -/
theorem inStep_iff (heaps : κ → DescriptorHeap) (calls : List (Call ι κ))
    (h : Contract (System.run heaps calls).descs (System.run heaps calls).created
      (System.run heaps calls).executed) :
    InStep (subresources (System.run heaps calls).descs) Layouts.initial
        (submissions (System.run heaps calls).world.device.trace) ↔
      ∀ sub, (subresources (System.run heaps calls).descs sub.image).Has sub →
        ClearedFirst sub (System.run heaps calls).executed := by
  have hagrees : Agrees (System.run heaps calls).descs (System.run heaps calls).created
      Layouts.initial fun _ => False := ⟨fun _ _ _ hused => hused.elim, fun _ _ => rfl⟩
  rw [(System.inv_run heaps calls).submitted, inStep_uses_iff _ hagrees h]
  simp

/-- A texture of 64 by 64 is the render target of a heap with one slot. -/
def sampleImage : Resource := .image 0 0x57 ⟨64, 64⟩ 1 1

def sampleDesc : ResourceDesc := ⟨.texture2d, 64, 64, 1, 0x57, 1⟩

def sampleHeap : Unit → DescriptorHeap := fun _ => ⟨.rtv, [.empty]⟩

/-- The target is created in the state `initialState`, `before` is put on it, it is cleared, and `after`
    is put on it. -/
def clearScreen (initialState : State) (before after : List ResourceBarrierWin) :
    List (Call Unit Unit) :=
  [.createCommittedResource sampleDesc initialState {},
    .native (.createRenderTargetView sampleImage () 0 none) nofun,
    .resourceBarrier () before,
    .native (.clearRenderTargetView () () 0 transparentBlack) nofun,
    .resourceBarrier () after,
    .native (.close () none) nofun,
    .native (.executeCommandLists [()] {}) nofun]

def sampleRtv : Rtv := ⟨⟨1, 0⟩, 0, 0x57, ⟨64, 64⟩, rfl⟩

/-- What the program knows of its one texture. -/
def sampleDescs : Image → Option ResourceDesc :=
  Function.update (fun _ => none) 0 (some sampleDesc)

theorem inStep_iff_clearScreen :
    InStep (subresources sampleDescs) Layouts.initial (submissions (System.run sampleHeap
      (clearScreen 4 [] [⟨0, some sampleImage, 4, 0⟩])).world.device.trace) := by
  have hexecuted : (System.run sampleHeap (clearScreen 4 [] [⟨0, some sampleImage, 4, 0⟩])).executed =
      [.clear sampleRtv transparentBlack, .transition sampleImage 4 0] := rfl
  have hcreated : (System.run sampleHeap (clearScreen 4 [] [⟨0, some sampleImage, 4, 0⟩])).created =
      Function.update (fun _ => none) 0 (some 4) := rfl
  have hdescs : (System.run sampleHeap (clearScreen 4 [] [⟨0, some sampleImage, 4, 0⟩])).descs =
      sampleDescs := rfl
  rw [← hdescs]
  refine (inStep_iff sampleHeap (clearScreen 4 [] [⟨0, some sampleImage, 4, 0⟩]) ?_).mpr ?_
  · rw [hexecuted, hcreated]
    exact ⟨rfl, ⟨rfl, sampleDesc, rfl, rfl, rfl⟩, trivial⟩
  · rw [hexecuted, hdescs]
    intro sub hreal
    have hclear : Use.Reaches (.clear sampleRtv transparentBlack) sub ↔ sub = Image.first 0 :=
      Iff.rfl
    by_cases hfirst : sub = Image.first 0
    · exact (clearedFirst_cons_self (hclear.mpr hfirst)).mpr rfl
    · rw [clearedFirst_cons_ne (mt hclear.mp hfirst)]
      -- there is nothing but the first level and layer
      refine (clearedFirst_cons_ne ?_).mpr fun _ h => nomatch h
      rintro ⟨himage, hlevel, hlayer⟩
      obtain ⟨image, level, layer⟩ := sub
      cases himage
      cases Nat.lt_one_iff.mp hlevel
      cases Nat.lt_one_iff.mp hlayer
      exact hfirst rfl

/-- A texture that is created in `COMMON` and put into `RENDER_TARGET` is `UNDEFINED` when a barrier
    names `GENERAL`. -/
theorem clearScreen_not_inStep :
    let σ := System.run sampleHeap
      (clearScreen 0 [⟨0, some sampleImage, 0, 4⟩] [⟨0, some sampleImage, 4, 0⟩])
    Contract σ.descs σ.created σ.executed ∧
      ¬ InStep (subresources σ.descs) Layouts.initial (submissions σ.world.device.trace) := by
  intro σ
  have hexecuted : σ.executed = [.transition sampleImage 0 4, .clear sampleRtv transparentBlack,
      .transition sampleImage 4 0] := rfl
  have hcreated : σ.created = Function.update (fun _ => none) 0 (some 0) := rfl
  have hdescs : σ.descs = sampleDescs := rfl
  have hsubmitted : submissions σ.world.device.trace =
      .pipelineBarrier [⟨0, .general, .colorAttachmentOptimal, ⟨1, 1⟩⟩] [] ::
        (clearCommands 0 transparentBlack ++
          [.pipelineBarrier [⟨0, .colorAttachmentOptimal, .general, ⟨1, 1⟩⟩] []]) := rfl
  constructor
  · rw [hexecuted, hcreated, hdescs]
    exact ⟨⟨rfl, sampleDesc, rfl, rfl, rfl⟩, rfl, ⟨rfl, sampleDesc, rfl, rfl, rfl⟩, trivial⟩
  · rw [hsubmitted, hdescs, inStep_barrier (by decide)]
    rintro ⟨hlayout, -⟩
    cases hlayout (Image.first 0) (by decide) (by decide)

end WinCompat.Gpu.D3d12
