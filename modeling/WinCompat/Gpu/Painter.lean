import WinCompat.Gpu.Lifetimes
import WinCompat.Lib.Painter

/-!
# What a sequence of clears and draws leaves

A command buffer, run. Which pixels a draw command covers, and in which colours, is the driver's
business, and may depend on everything that the buffer has before it. A render pass of either
translation clears its attachment when it begins, so every draw wipes what is there. After a sequence
of clears and draws the target is as a painter would leave it exactly when nothing of what the last
draw wiped was to be seen (`painted_iff`).
-/

namespace WinCompat.Gpu

open Lib Lib.Fallible
open Lib.Painter

def Cmd.isDraw : Cmd → Bool
  | .draw .. | .drawIndexed .. => true
  | _ => false

/-- What Vulkan leaves to the device. -/
structure Driver (P C : Type) where
  /-- What a colour becomes in the target. -/
  texel : Color → C
  /-- Which pixels a draw covers after what the command buffer has before it. -/
  raster : List Cmd → Cmd → Stroke P C
  /-- What is left of an image that nobody asked to keep. -/
  garbage : List Cmd → P → C

/-- The images, and the render pass that has begun. -/
structure Canvas (P C : Type) where
  images : Image → P → C
  pass : Option (RenderPass × Framebuffer) := none

/-- Other contents for an image. -/
def Canvas.put {P C : Type} (m : Canvas P C) (image : Image) (pixels : P → C) : Canvas P C :=
  { m with images := Function.update m.images image pixels }

namespace Driver

variable {P C : Type} (d : Driver P C)

/-- A transition from `UNDEFINED` need not keep what is in the image. -/
def transition (done : List Cmd) (m : Canvas P C) (b : ImageBarrier) : Canvas P C :=
  if b.oldLayout = .undefined then m.put b.image (d.garbage done) else m

def load (done : List Cmd) (m : Canvas P C) (image : Image) (clear : Color) : LoadOp → Canvas P C
  | .load => m
  | .clear => m.put image fun _ => d.texel clear
  | .dontCare => m.put image (d.garbage done)

def store (done : List Cmd) (m : Canvas P C) (image : Image) : StoreOp → Canvas P C
  | .store => m
  | .dontCare => m.put image (d.garbage done)

/-- One command, `done` being what the command buffer has before it. -/
def exec (done : List Cmd) (m : Canvas P C) (cmd : Cmd) : Canvas P C :=
  match cmd with
  | .pipelineBarrier images _ => images.foldl (d.transition done) m
  | .clearColorImage image color => m.put image fun _ => d.texel color
  | .beginRenderPass rp fb clear =>
    { d.load done m fb.attachment.image clear rp.loadOp with pass := some (rp, fb) }
  | .draw .. | .drawIndexed .. =>
    match m.pass with
    | none => m
    | some (_, fb) =>
      m.put fb.attachment.image (paint (m.images fb.attachment.image) (d.raster done cmd))
  | .endRenderPass =>
    match m.pass with
    | none => m
    | some (rp, fb) => { d.store done m fb.attachment.image rp.storeOp with pass := none }
  | .bindPipeline _ | .bindVertexBuffers _ _ | .bindIndexBuffer _ _ _ | .setViewport _
  | .setScissor _ | .copyBuffer _ _ _ => m

def run (done : List Cmd) (m : Canvas P C) : List Cmd → Canvas P C
  | [] => m
  | cmd :: cmds => run (done ++ [cmd]) (d.exec done m cmd) cmds

/-- What is in the images after the submissions of a trace. -/
def shown (images : Image → P → C) : Trace → Image → P → C
  | [] => images
  | .submitted cmds :: tr => (d.run [] ⟨shown images tr, none⟩ cmds).images
  | .destroyed _ :: tr => shown images tr
  | .waited :: tr => shown images tr

/-- What the draw commands of a list cover, the last one on top. -/
def covers (done : List Cmd) : List Cmd → Stroke P C
  | [] => fun _ => none
  | cmd :: cmds => fun p =>
    (covers (done ++ [cmd]) cmds p).or
      (if cmd.isDraw then d.raster done cmd p else none)

end Driver

/-! ## Running command buffers -/

section Run

variable {P C : Type} {d : Driver P C} {done cmds new : List Cmd} {m : Canvas P C}

theorem run_cons {cmd : Cmd} :
    d.run done m (cmd :: cmds) = d.run (done ++ [cmd]) (d.exec done m cmd) cmds := rfl

theorem covers_cons {cmd : Cmd} {p : P} : d.covers done (cmd :: cmds) p =
    (d.covers (done ++ [cmd]) cmds p).or (if cmd.isDraw then d.raster done cmd p else none) := rfl

theorem run_append :
    d.run done m (cmds ++ new) = d.run (done ++ cmds) (d.run done m cmds) new := by
  induction cmds generalizing done m with
  | nil => simp [Driver.run]
  | cons cmd cmds ih =>
    rw [List.cons_append, run_cons, ih, run_cons, List.append_assoc, List.singleton_append]

/-- Commands that a pass has between its begin and its end. -/
def Cmd.inPass : Cmd → Bool
  | .bindPipeline _ | .bindVertexBuffers _ _ | .bindIndexBuffer _ _ _ => true
  | .draw .. | .drawIndexed .. => true
  | _ => false

variable (d done) in
theorem exec_inPass {rp : RenderPass} {fb : Framebuffer} {cmd : Cmd}
    (hpass : m.pass = some (rp, fb)) (hcmd : cmd.inPass = true) :
    (d.exec done m cmd).pass = some (rp, fb) ∧
      (d.exec done m cmd).images fb.attachment.image =
        paint (m.images fb.attachment.image)
          (fun p => if cmd.isDraw then d.raster done cmd p else none) := by
  have hput : ∀ cmd : Cmd, (match m.pass with
      | none => m
      | some (_, fb) =>
        m.put fb.attachment.image (paint (m.images fb.attachment.image) (d.raster done cmd))) =
      m.put fb.attachment.image (paint (m.images fb.attachment.image) (d.raster done cmd)) := by
    intro cmd
    rw [hpass]
  cases cmd with
  | bindPipeline pipeline => exact ⟨hpass, rfl⟩
  | bindVertexBuffers buffer offset => exact ⟨hpass, rfl⟩
  | bindIndexBuffer buffer offset type => exact ⟨hpass, rfl⟩
  | draw =>
    unfold Driver.exec
    rw [hput]
    exact ⟨hpass, Function.update_self _ _ _⟩
  | drawIndexed =>
    unfold Driver.exec
    rw [hput]
    exact ⟨hpass, Function.update_self _ _ _⟩
  | _ => cases hcmd

theorem run_body {rp : RenderPass} {fb : Framebuffer} (hpass : m.pass = some (rp, fb))
    (hcmds : ∀ cmd ∈ cmds, cmd.inPass = true) :
    (d.run done m cmds).pass = some (rp, fb) ∧
      (d.run done m cmds).images fb.attachment.image =
        paint (m.images fb.attachment.image) (d.covers done cmds) := by
  induction cmds generalizing done m with
  | nil => exact ⟨hpass, rfl⟩
  | cons cmd cmds ih =>
    obtain ⟨hpass', himage⟩ := exec_inPass d done hpass
      (hcmds cmd List.mem_cons_self)
    obtain ⟨hpass'', himage'⟩ := @ih (done ++ [cmd]) _ hpass'
      fun c hc => hcmds c (List.mem_cons_of_mem cmd hc)
    refine ⟨hpass'', himage'.trans ?_⟩
    rw [himage, paint_paint]
    rfl

theorem covers_append {p : P} : d.covers done (cmds ++ new) p =
    (d.covers (done ++ cmds) new p).or (d.covers done cmds p) := by
  induction cmds generalizing done with
  | nil => simp [Driver.covers]
  | cons cmd cmds ih =>
    rw [List.cons_append, covers_cons, ih, covers_cons, List.append_assoc, List.singleton_append,
      Option.or_assoc]

theorem run_pass {fb : Framebuffer} {rp : RenderPass} {clear : Color}
    (hload : rp.loadOp = .clear) (hstore : rp.storeOp = .store)
    (hcmds : ∀ cmd ∈ cmds, cmd.inPass = true) :
    (d.run done m (.beginRenderPass rp fb clear :: cmds ++ [.endRenderPass])).images
        fb.attachment.image =
      paint (fun _ => d.texel clear)
        (d.covers done (.beginRenderPass rp fb clear :: cmds ++ [.endRenderPass])) := by
  have hbegin : d.exec done m (.beginRenderPass rp fb clear) =
      ⟨(m.put fb.attachment.image fun _ => d.texel clear).images, some (rp, fb)⟩ := by
    simp only [Driver.exec, hload]
    rfl
  have hsplit : d.run done m (.beginRenderPass rp fb clear :: cmds) =
      d.run (done ++ [.beginRenderPass rp fb clear])
        ⟨(m.put fb.attachment.image fun _ => d.texel clear).images, some (rp, fb)⟩ cmds :=
    congrArg (fun m => d.run _ m cmds) hbegin
  have hcovers : d.covers done (.beginRenderPass rp fb clear :: cmds ++ [.endRenderPass]) =
      d.covers (done ++ [.beginRenderPass rp fb clear]) cmds := by
    funext p
    rw [covers_append]
    simp [Driver.covers, Cmd.isDraw]
  obtain ⟨hpass, himage⟩ := @run_body P C d (done ++ [.beginRenderPass rp fb clear]) cmds
    ⟨(m.put fb.attachment.image fun _ => d.texel clear).images, some (rp, fb)⟩ rp fb rfl hcmds
  rw [hcovers, run_append, hsplit]
  simp only [Driver.run, Driver.exec, hpass, hstore, Driver.store]
  refine himage.trans ?_
  unfold Canvas.put
  simp

theorem run_clear {image : Image} {color : Color} :
    (d.run done m (clearCommands image color)).images image = fun _ => d.texel color := by
  simp only [clearCommands, Driver.run, Driver.exec, List.foldl_cons, List.foldl_nil,
    Driver.transition, if_true, if_neg (show Layout.transferDstOptimal ≠ .undefined by decide)]
  exact Function.update_self _ _ _

end Run

/-! ## Direct3D 11 -/

namespace D3d11

/-- What a flush would submit. -/
def DeviceContext.begun (c : DeviceContext) : List Cmd := if c.recording then c.commandBuffer else []

/-- A clear of the target or a draw, with the results of the Vulkan calls that it makes. -/
inductive PaintOp
  | clear (color : Color) (begin : Outcome)
  | draw (vertexCount : BitVec 32) (rasterizer : RasterizerDesc) (o : DeviceContext.Drawing)
  | drawIndexed (indexCount vertexOffset : BitVec 32) (rasterizer : RasterizerDesc)
      (o : DeviceContext.Drawing)

def PaintOp.op (rtv : RenderTargetView) : PaintOp → Op
  | .clear color begin => .clearRenderTargetView rtv color begin
  | .draw vertexCount rasterizer o => .draw vertexCount rasterizer o
  | .drawIndexed indexCount vertexOffset rasterizer o =>
    .drawIndexed indexCount vertexOffset rasterizer o

/-- What an operation adds to what a flush would submit. -/
def recorded (c : DeviceContext) (op : Op) : List Cmd := (c.step op).begun.drop c.begun.length

variable {P C : Type}

/-- What an operation is to paint: nothing if it fails. -/
def layer (d : Driver P C) (rtv : RenderTargetView) (c : DeviceContext) (op : PaintOp) :
    Option (Layer P C) :=
  match ((op.op rtv).run c).1, op with
  | .error _, _ => none
  | .ok (), .clear color _ => some (.clear (d.texel color))
  | .ok (), _ => some (.draw (d.covers c.begun (recorded c (op.op rtv))))

def layers (d : Driver P C) (rtv : RenderTargetView) (c : DeviceContext) :
    List PaintOp → List (Layer P C)
  | [] => []
  | op :: ops => (layer d rtv c op).toList ++ layers d rtv (c.step (op.op rtv)) ops

variable {d : Driver P C} {images : Image → P → C} {rtv : RenderTargetView} {c : DeviceContext}

/-- A context that is recording. -/
structure Ready (d : Driver P C) (images : Image → P → C) (cmds : List Cmd)
    (target : Option BoundTarget) (shown : Image → P → C) (c : DeviceContext) : Prop where
  recording : c.recording = true
  commands : c.commandBuffer = cmds
  target : c.target = target
  shown : d.shown images c.device.trace = shown

/-- Recording the commands is all that was done. -/
structure Records (d : Driver P C) (images : Image → P → C) (c c' : DeviceContext)
    (new : List Cmd) : Prop where
  commands : c'.begun = c.begun ++ new
  target : c'.target = c.target
  shown : d.shown images c'.device.trace = d.shown images c.device.trace

theorem Records.refl : Records d images c c [] := ⟨(List.append_nil _).symm, rfl, rfl⟩

theorem Ready.records {c' : DeviceContext}
    (h : Ready d images c.begun c.target (d.shown images c.device.trace) c') :
    Records d images c c' [] := by
  refine ⟨?_, h.target, h.shown⟩
  rw [List.append_nil, DeviceContext.begun, h.recording]
  exact h.commands

variable (d images) in
theorem beginRecording_cases (c : DeviceContext) (begin : Outcome) :
    (∃ e, DeviceContext.beginRecording begin c = (.error e, c)) ∨
      ∃ c', DeviceContext.beginRecording begin c = (.ok (), c') ∧
        Ready d images c.begun c.target (d.shown images c.device.trace) c' := by
  unfold DeviceContext.beginRecording
  rw [bind_get]
  cases hrecording : c.recording with
  | true =>
    refine Or.inr ⟨c, rfl, hrecording, ?_, rfl, rfl⟩
    simp [DeviceContext.begun, hrecording]
  | false =>
    cases begin with
    | some text => exact Or.inl ⟨.vulkan text, rfl⟩
    | none =>
      refine Or.inr ⟨_, rfl, rfl, ?_, rfl, rfl⟩
      simp [DeviceContext.begun, hrecording]

theorem keeps_buildPipeline_ready {cmds : List Cmd} {target : Option BoundTarget}
    {shown : Image → P → C} (rp : RenderPass) (vs ps : ShaderModule) (extent : Extent)
    (rasterizer : RasterizerDesc) (vb : Option Buffer) (o : DeviceContext.Drawing) :
    Keeps (Ready d images cmds target shown)
      (DeviceContext.buildPipeline rp vs ps extent rasterizer vb o) := by
  apply DeviceContext.keeps_buildPipeline
  · exact fun _ h => ⟨h.recording, h.commands, h.target, h.shown⟩
  · exact fun _ _ h => ⟨h.recording, h.commands, h.target, h.shown⟩

variable (d images rtv) in
theorem clear_cases (c : DeviceContext) (color : Color) (begin : Outcome) :
    let x := DeviceContext.clearRenderTargetView rtv color begin c
    (∃ e, x.1 = .error e ∧ Records d images c x.2 []) ∨
      (x.1 = .ok () ∧ Records d images c x.2 (clearCommands rtv.image color)) := by
  unfold DeviceContext.clearRenderTargetView
  rcases beginRecording_cases d images c begin with ⟨e, hbegin⟩ | ⟨c', hbegin, h⟩
  · rw [bind_error hbegin]
    exact Or.inl ⟨e, rfl, Records.refl⟩
  · rw [bind_ok hbegin]
    refine Or.inr ⟨rfl, ?_, h.target, h.shown⟩
    simp [DeviceContext.begun, DeviceContext.record, h.recording, h.commands]

theorem inPass_pass (c : DeviceContext) {pipeline : Pipeline} {count vertexOffset first : BitVec 32}
    {indexType : Option IndexType} :
    ∀ cmd ∈ .bindPipeline pipeline ::
        (c.vertexBuffer.map fun vb => .bindVertexBuffers vb c.vertexOffset).toList ++
          c.passBody count vertexOffset first indexType, cmd.inPass = true := by
  intro cmd hcmd
  rcases List.mem_append.mp hcmd with hcmd | hcmd
  · rcases List.mem_cons.mp hcmd with rfl | hcmd
    · rfl
    · cases hvb : c.vertexBuffer with
      | none => simp [hvb] at hcmd
      | some vb =>
        simp [hvb] at hcmd
        rw [hcmd]
        rfl
  · unfold DeviceContext.passBody at hcmd
    cases indexType with
    | none =>
      rw [List.mem_singleton.mp hcmd]
      rfl
    | some it =>
      cases hib : c.indexBuffer with
      | none => simp [hib] at hcmd
      | some ib =>
        simp [hib] at hcmd
        rcases hcmd with rfl | rfl
        · rfl
        · rfl

variable (d images) in
/-- A draw fails, or it records a pass over the target. -/
theorem drawInternal_cases (c : DeviceContext) (count vertexOffset first : BitVec 32)
    (indexType : Option IndexType) (rasterizer : RasterizerDesc) (o : DeviceContext.Drawing) :
    let x := DeviceContext.drawInternal count vertexOffset first indexType rasterizer o c
    (∃ e, x.1 = .error e ∧ Records d images c x.2 []) ∨
      (x.1 = .ok () ∧ ∃ t body, c.target = some t ∧ (∀ cmd ∈ body, cmd.inPass = true) ∧
        Records d images c x.2
          (.beginRenderPass t.renderPass t.framebuffer transparentBlack :: body ++
            [.endRenderPass])) := by
  unfold DeviceContext.drawInternal
  rcases beginRecording_cases d images c o.begin with
    ⟨e, hbegin⟩ | ⟨c₁, hbegin, h₁⟩
  · rw [bind_error hbegin]
    exact Or.inl ⟨e, rfl, Records.refl⟩
  · rw [bind_ok hbegin, bind_get]
    cases htarget : c₁.target with
    | none => exact Or.inl ⟨.noRenderTarget, rfl, h₁.records⟩
    | some t =>
      cases c₁.vs with
      | none => exact Or.inl ⟨.noPipeline, rfl, h₁.records⟩
      | some vs =>
        cases c₁.ps with
        | none => exact Or.inl ⟨.noPipeline, rfl, h₁.records⟩
        | some ps =>
          have hkeeps := keeps_buildPipeline_ready t.renderPass vs ps t.extent rasterizer
            c₁.vertexBuffer o c₁ h₁
          cases hbuild : DeviceContext.buildPipeline t.renderPass vs ps t.extent rasterizer
              c₁.vertexBuffer o c₁ with
          | mk result c₂ =>
            rw [hbuild] at hkeeps
            cases result with
            | error e =>
              refine Or.inl ⟨e, ?_⟩
              simp only
              rw [bind_error hbuild]
              exact ⟨rfl, hkeeps.records⟩
            | ok pipeline =>
              right
              simp only
              rw [bind_ok hbuild, bind_modify]
              refine ⟨rfl, t, .bindPipeline pipeline ::
                (c₂.vertexBuffer.map fun vb => .bindVertexBuffers vb c₂.vertexOffset).toList ++
                  c₂.passBody count vertexOffset first indexType, ?_, ?_, ?_, hkeeps.target,
                  hkeeps.shown⟩
              · rw [← h₁.target, htarget]
              · exact inPass_pass c₂
              · have hbegun : ((c₂.record (c₂.passPrologue t pipeline ++
                    c₂.passBody count vertexOffset first indexType ++ [.endRenderPass]))).begun =
                    c₂.commandBuffer ++ (c₂.passPrologue t pipeline ++
                      c₂.passBody count vertexOffset first indexType ++ [.endRenderPass]) :=
                  if_pos hkeeps.recording
                rw [hkeeps.commands] at hbegun
                exact hbegun

theorem layer_ok {op : PaintOp} (h : ((op.op rtv).run c).1 = .ok ()) : layer d rtv c op =
    some (match op with
      | .clear color _ => .clear (d.texel color)
      | _ => .draw (d.covers c.begun (recorded c (op.op rtv)))) := by
  unfold layer
  rw [h]
  cases op with
  | clear color begin => rfl
  | draw count rasterizer o => rfl
  | drawIndexed count vertexOffset rasterizer o => rfl

theorem layer_error {op : PaintOp} {e : Error} (h : ((op.op rtv).run c).1 = .error e) :
    layer d rtv c op = none := by
  unfold layer
  rw [h]

theorem Records.recorded_eq {op : Op} {new : List Cmd} (h : Records d images c (c.step op) new) :
    recorded c op = new := by
  unfold recorded
  rw [h.commands, List.drop_left]

/-- What an operation does, and what becomes of the target when it is run. -/
structure Painted (d : Driver P C) (images : Image → P → C) (rtv : RenderTargetView)
    (c c' : DeviceContext) (ls : List (Layer P C)) : Prop where
  target : c'.target = c.target
  shown : d.shown images c'.device.trace = d.shown images c.device.trace
  pixels : ∀ m, (d.run [] m c'.begun).images rtv.image =
    wiping (d.texel transparentBlack) ((d.run [] m c.begun).images rtv.image) ls

theorem Records.painted_none {c' : DeviceContext} (h : Records d images c c' []) :
    Painted d images rtv c c' [] := by
  refine ⟨h.target, h.shown, ?_⟩
  intro m
  rw [h.commands, List.append_nil]
  rfl

theorem painted_draw {op : PaintOp} {t : BoundTarget} {body : List Cmd}
    (ht : t.framebuffer.attachment.image = rtv.image) (hbody : ∀ cmd ∈ body, cmd.inPass = true)
    (h : Records d images c (c.step (op.op rtv))
      (.beginRenderPass t.renderPass t.framebuffer transparentBlack :: body ++ [.endRenderPass])) :
    Painted d images rtv c (c.step (op.op rtv))
      [.draw (d.covers c.begun (recorded c (op.op rtv)))] := by
  refine ⟨h.target, h.shown, ?_⟩
  intro m
  obtain ⟨id, format, hmade⟩ := t.made
  have hload : t.renderPass.loadOp = .clear := by rw [hmade]; rfl
  have hstore : t.renderPass.storeOp = .store := by rw [hmade]; rfl
  rw [h.recorded_eq, h.commands, run_append, List.nil_append, ← ht]
  exact run_pass hload hstore hbody

variable (d images) in
theorem painted_step (htarget : ∀ t, c.target = some t → t.framebuffer.attachment.image = rtv.image)
    (op : PaintOp) :
    Painted d images rtv c (c.step (op.op rtv)) (layer d rtv c op).toList := by
  have hdraw : ∀ {count vertexOffset first : BitVec 32} {indexType : Option IndexType}
      {rasterizer : RasterizerDesc} {o : DeviceContext.Drawing},
      (op.op rtv).run c =
        DeviceContext.drawInternal count vertexOffset first indexType rasterizer o c →
      (∀ color begin, op ≠ .clear color begin) →
      Painted d images rtv c (c.step (op.op rtv)) (layer d rtv c op).toList := by
    intro count vertexOffset first indexType rasterizer o hrun hop
    have hcases := drawInternal_cases d images c count vertexOffset first indexType
      rasterizer o
    rw [← hrun] at hcases
    rcases hcases with ⟨e, herror, hrecords⟩ | ⟨hok, t, body, ht, hbody, hrecords⟩
    · rw [layer_error herror]
      exact hrecords.painted_none
    · have hlayer : layer d rtv c op = some (.draw (d.covers c.begun (recorded c (op.op rtv)))) := by
        rw [layer_ok hok]
        cases op with
        | clear color begin => exact absurd rfl (hop color begin)
        | draw count rasterizer o => rfl
        | drawIndexed count vertexOffset rasterizer o => rfl
      rw [hlayer]
      exact painted_draw (htarget t ht) hbody hrecords
  cases op with
  | clear color begin =>
    rcases clear_cases d images rtv c color begin with
      ⟨e, herror, hrecords⟩ | ⟨hok, hrecords⟩
    · have hlayer : layer d rtv c (.clear color begin) = none := layer_error herror
      rw [hlayer]
      exact hrecords.painted_none
    · have hrun : ((PaintOp.op rtv (.clear color begin)).run c).1 = .ok () := hok
      rw [layer_ok hrun]
      refine ⟨hrecords.target, hrecords.shown, ?_⟩
      intro m
      have hbegun : (c.step (PaintOp.op rtv (.clear color begin))).begun =
          c.begun ++ clearCommands rtv.image color := hrecords.commands
      rw [hbegun, run_append, run_clear]
      rfl
  | draw count rasterizer o => exact hdraw rfl (by simp)
  | drawIndexed count vertexOffset rasterizer o => exact hdraw (bind_get _) (by simp)

theorem Painted.trans {c₁ c₂ c₃ : DeviceContext} {ks ls : List (Layer P C)}
    (h : Painted d images rtv c₁ c₂ ks) (h' : Painted d images rtv c₂ c₃ ls) :
    Painted d images rtv c₁ c₃ (ks ++ ls) := by
  refine ⟨h'.target.trans h.target, h'.shown.trans h.shown, ?_⟩
  intro m
  rw [h'.pixels, h.pixels, wiping_append]

variable (d images) in
theorem painted_foldl (htarget : ∀ t, c.target = some t → t.framebuffer.attachment.image = rtv.image)
    (ops : List PaintOp) :
    Painted d images rtv c (ops.foldl (fun c op => c.step (op.op rtv)) c) (layers d rtv c ops) := by
  induction ops generalizing c with
  | nil => exact ⟨rfl, rfl, fun _ => rfl⟩
  | cons op ops ih =>
    have hstep := painted_step d images htarget op
    apply hstep.trans
    apply ih
    rw [hstep.target]
    exact htarget

theorem shown_flush (c : DeviceContext) {o : DeviceContext.Flushing} (ho : o.Submits) :
    d.shown images (c.step (.flush o)).device.trace =
      (d.run [] ⟨d.shown images c.device.trace, none⟩ c.begun).images := by
  cases hrecording : c.recording with
  | false =>
    have hsame : c.step (.flush o) = c := by
      rcases flush_cases c o with ⟨heq, -⟩ | ⟨⟨hrec, -⟩, -⟩
      · exact heq
      · rw [hrecording] at hrec
        cases hrec
    rw [hsame, DeviceContext.begun, hrecording]
    rfl
  | true =>
    have hbegun : c.begun = c.commandBuffer := if_pos hrecording
    rw [hbegun]
    rcases flush_cases c o with ⟨-, hnot⟩ | ⟨-, heq | heq | heq⟩
    · exact absurd ⟨hrecording, ho⟩ hnot
    · rw [heq]
      rfl
    · rw [heq]
      rfl
    · rw [heq]
      rfl

theorem flushed_iff (hnothing : c.begun = [])
    (htarget : ∀ t, c.target = some t → t.framebuffer.attachment.image = rtv.image)
    (ops : List PaintOp) {o : DeviceContext.Flushing} (ho : o.Submits) :
    d.shown images ((ops.foldl (fun c op => c.step (op.op rtv)) c).step (.flush o)).device.trace
        rtv.image =
      painter (d.shown images c.device.trace rtv.image) ((layers d rtv c ops).map Layer.stroke) ↔
    Unwiped (d.texel transparentBlack) (d.shown images c.device.trace rtv.image)
      (layers d rtv c ops) := by
  obtain ⟨-, hshown, hpixels⟩ := painted_foldl d images htarget ops
  rw [shown_flush _ ho, hpixels, hnothing, hshown]
  exact wiping_eq_painter_iff

end D3d11

/-! ## Direct3D 12 -/

namespace D3d12

/-- A clear of the target or a draw. -/
inductive PaintOp
  | clear (color : Color)
  | draw (vertexCount instanceCount startVertex startInstance : BitVec 32)
      (createFramebuffer : Outcome)

/-- On the list `i`, the target being what `handle` stands for in the heap. -/
def PaintOp.op {ι κ : Type} (i : ι) (heap : κ) (handle : BitVec 32) : PaintOp → Op ι κ
  | .clear color => .clearRenderTargetView i heap handle color
  | .draw vertexCount instanceCount startVertex startInstance createFramebuffer =>
    .drawInstanced i vertexCount instanceCount startVertex startInstance createFramebuffer

variable {P C ι κ : Type} [DecidableEq ι] [DecidableEq κ]

/-- What an operation adds to the list. -/
def recorded (w : World ι κ) (i : ι) (op : Op ι κ) : List Cmd :=
  ((w.step op).lists i).commandBuffer.drop (w.lists i).commandBuffer.length

/-- What an operation is to paint: nothing if it fails. -/
def layer (d : Driver P C) (i : ι) (heap : κ) (handle : BitVec 32) (w : World ι κ) (op : PaintOp) :
    Option (Layer P C) :=
  match ((op.op i heap handle).run w).1, op with
  | .error _, _ => none
  | .ok (), .clear color => some (.clear (d.texel color))
  | .ok (), _ =>
    some (.draw (d.covers (w.lists i).commandBuffer (recorded w i (op.op i heap handle))))

def layers (d : Driver P C) (i : ι) (heap : κ) (handle : BitVec 32) (w : World ι κ) :
    List PaintOp → List (Layer P C)
  | [] => []
  | op :: ops => (layer d i heap handle w op).toList ++
      layers d i heap handle (w.step (op.op i heap handle)) ops

variable {d : Driver P C} {images : Image → P → C} {i : ι} {heap : κ} {handle : BitVec 32}
  {w w' : World ι κ}

/-- Recording the commands in the list is all that was done. -/
structure Records (d : Driver P C) (images : Image → P → C) (i : ι) (w w' : World ι κ)
    (new : List Cmd) : Prop where
  list : w'.lists i = (w.lists i).record new
  heaps : w'.heaps = w.heaps
  shown : d.shown images w'.device.trace = d.shown images w.device.trace

omit [DecidableEq ι] [DecidableEq κ] in
theorem Records.refl : Records d images i w w [] := by
  refine ⟨?_, rfl, rfl⟩
  simp [GraphicsCommandList.record]

omit [DecidableEq ι] [DecidableEq κ] in
theorem requireRecording_eq (hrecording : (w.lists i).recording = true)
    (hclosed : (w.lists i).closed = false) :
    GraphicsCommandList.requireRecording i w = (.ok (), w) := by
  unfold GraphicsCommandList.requireRecording
  rw [bind_get, hrecording, hclosed]
  rfl

/-- The list is recording, and what it draws on is the image that the handle stands for. -/
structure Ready (i : ι) (heap : κ) (handle : BitVec 32) (image : Image) (w : World ι κ) : Prop where
  recording : (w.lists i).recording = true
  closed : (w.lists i).closed = false
  target : ∀ t, (w.lists i).target = some t → t.image = image
  descriptor : ∀ r message, rtvAt (w.heaps heap) handle message = .ok r → r.image = image

variable {image : Image}

omit [DecidableEq ι] [DecidableEq κ] in
theorem Ready.of_records (h : Ready i heap handle image w) {new : List Cmd}
    (hrecords : Records d images i w w' new) : Ready i heap handle image w' := by
  refine ⟨?_, ?_, ?_, ?_⟩
  · rw [hrecords.list]
    exact h.recording
  · rw [hrecords.list]
    exact h.closed
  · rw [hrecords.list]
    exact h.target
  · rw [hrecords.heaps]
    exact h.descriptor

variable (d images) in
omit [DecidableEq κ] in
theorem clear_cases (h : Ready i heap handle image w) (color : Color) :
    let x := GraphicsCommandList.clearRenderTargetView i heap handle color w
    (∃ e, x.1 = .error e ∧ Records d images i w x.2 []) ∨
      (x.1 = .ok () ∧ Records d images i w x.2 (clearCommands image color)) := by
  unfold GraphicsCommandList.clearRenderTargetView
  rw [bind_ok (requireRecording_eq h.recording h.closed), bind_get]
  cases hr : rtvAt (w.heaps heap) handle
      "clear_render_target_view expects an RTV descriptor (got Empty)" with
  | error e => exact Or.inl ⟨e, rfl, Records.refl⟩
  | ok r =>
    refine Or.inr ⟨rfl, ?_, rfl, rfl⟩
    rw [← h.descriptor r _ hr]
    exact Function.update_self _ _ _

variable (d images) in
omit [DecidableEq κ] in
/-- A draw fails, or it records a pass over the target. -/
theorem draw_cases (h : Ready i heap handle image w)
    (vertexCount instanceCount startVertex startInstance : BitVec 32) (createFramebuffer : Outcome) :
    let x := GraphicsCommandList.drawInstanced i vertexCount instanceCount startVertex startInstance
      createFramebuffer w
    (∃ e, x.1 = .error e ∧ Records d images i w x.2 []) ∨
      (x.1 = .ok () ∧ ∃ t pso framebuffer, (w.lists i).target = some t ∧
        Records d images i w x.2 (GraphicsCommandList.drawCommands t pso framebuffer vertexCount
          instanceCount startVertex startInstance)) := by
  unfold GraphicsCommandList.drawInstanced
  rw [bind_ok (requireRecording_eq h.recording h.closed), bind_get]
  cases htarget : (w.lists i).target with
  | none => exact Or.inl ⟨.noRenderTarget, rfl, Records.refl⟩
  | some t =>
    cases (w.lists i).pipeline with
    | none => exact Or.inl ⟨.noPipeline, rfl, Records.refl⟩
    | some pso =>
      cases createFramebuffer with
      | some text => exact Or.inl ⟨.vulkan text, rfl, Records.refl⟩
      | none =>
        refine Or.inr ⟨rfl, t, pso, w.device.next, rfl, ?_, rfl, rfl⟩
        exact Function.update_self _ _ _

theorem layer_ok {op : PaintOp} (h : ((op.op i heap handle).run w).1 = .ok ()) :
    layer d i heap handle w op = some (match op with
      | .clear color => .clear (d.texel color)
      | _ => .draw (d.covers (w.lists i).commandBuffer (recorded w i (op.op i heap handle)))) := by
  unfold layer
  rw [h]
  cases op with
  | clear color => rfl
  | draw vertexCount instanceCount startVertex startInstance createFramebuffer => rfl

theorem layer_error {op : PaintOp} {e : Error} (h : ((op.op i heap handle).run w).1 = .error e) :
    layer d i heap handle w op = none := by
  unfold layer
  rw [h]

theorem Records.recorded_eq {op : Op ι κ} {new : List Cmd}
    (h : Records d images i w (w.step op) new) : recorded w i op = new := by
  unfold recorded
  rw [h.list]
  exact List.drop_left

/-- What an operation does, and what becomes of the target when it is run. -/
structure Painted (d : Driver P C) (images : Image → P → C) (i : ι) (heap : κ) (handle : BitVec 32)
    (image : Image) (w w' : World ι κ) (ls : List (Layer P C)) : Prop where
  ready : Ready i heap handle image w'
  shown : d.shown images w'.device.trace = d.shown images w.device.trace
  pixels : ∀ m, (d.run [] m (w'.lists i).commandBuffer).images image =
    wiping (d.texel transparentBlack) ((d.run [] m (w.lists i).commandBuffer).images image) ls

omit [DecidableEq ι] [DecidableEq κ] in
theorem Records.painted_none (h : Ready i heap handle image w) (hr : Records d images i w w' []) :
    Painted d images i heap handle image w w' [] := by
  refine ⟨h.of_records hr, hr.shown, ?_⟩
  intro m
  rw [hr.list]
  simp [GraphicsCommandList.record, wiping]

theorem painted_draw (h : Ready i heap handle image w) {op : PaintOp} {t : Rtv}
    {pso : PipelineState} {fb : Nat} {n₁ n₂ n₃ n₄ : BitVec 32} (ht : t.image = image)
    (hr : Records d images i w (w.step (op.op i heap handle))
      (GraphicsCommandList.drawCommands t pso fb n₁ n₂ n₃ n₄)) :
    Painted d images i heap handle image w (w.step (op.op i heap handle))
      [.draw (d.covers (w.lists i).commandBuffer (recorded w i (op.op i heap handle)))] := by
  refine ⟨h.of_records hr, hr.shown, ?_⟩
  intro m
  obtain ⟨id, format, hmade⟩ := pso.made
  have hload : pso.renderPass.loadOp = .clear := by rw [hmade]; rfl
  have hstore : pso.renderPass.storeOp = .store := by rw [hmade]; rfl
  have hbuffer : ((w.step (op.op i heap handle)).lists i).commandBuffer =
      (w.lists i).commandBuffer ++ GraphicsCommandList.drawCommands t pso fb n₁ n₂ n₃ n₄ :=
    congrArg GraphicsCommandList.commandBuffer hr.list
  have hbody : ∀ cmd ∈ [Cmd.bindPipeline pso.pipeline, .draw n₁ n₂ n₃ n₄], cmd.inPass = true := by
    simp [Cmd.inPass]
  rw [hr.recorded_eq, hbuffer, run_append, List.nil_append, ← ht, ← t.ofImage]
  exact @run_pass P C d _ _ _ ⟨fb, pso.renderPass, t.view, t.extent⟩ _ _ hload hstore hbody

variable (d images) in
theorem painted_step (h : Ready i heap handle image w) (op : PaintOp) :
    Painted d images i heap handle image w (w.step (op.op i heap handle))
      (layer d i heap handle w op).toList := by
  cases op with
  | clear color =>
    rcases clear_cases d images h color with
      ⟨e, herror, hrecords⟩ | ⟨hok, hrecords⟩
    · have hlayer : layer d i heap handle w (.clear color) = none := layer_error herror
      rw [hlayer]
      exact hrecords.painted_none h
    · have hrun : ((PaintOp.op i heap handle (.clear color)).run w).1 = .ok () := hok
      rw [layer_ok hrun]
      refine ⟨h.of_records hrecords, hrecords.shown, ?_⟩
      intro m
      have hbuffer : ((w.step (PaintOp.op i heap handle (.clear color))).lists i).commandBuffer =
          (w.lists i).commandBuffer ++ clearCommands image color :=
        congrArg GraphicsCommandList.commandBuffer hrecords.list
      rw [hbuffer, run_append, run_clear]
      rfl
  | draw vertexCount instanceCount startVertex startInstance createFramebuffer =>
    rcases draw_cases d images h vertexCount instanceCount startVertex
      startInstance createFramebuffer with ⟨e, herror, hrecords⟩ | ⟨hok, t, pso, fb, ht, hrecords⟩
    · have hlayer : layer d i heap handle w (.draw vertexCount instanceCount startVertex
          startInstance createFramebuffer) = none := layer_error herror
      rw [hlayer]
      exact hrecords.painted_none h
    · have hrun : ((PaintOp.op i heap handle (.draw vertexCount instanceCount startVertex
          startInstance createFramebuffer)).run w).1 = .ok () := hok
      rw [layer_ok hrun]
      exact painted_draw h (h.target t ht) hrecords

omit [DecidableEq ι] [DecidableEq κ] in
theorem Painted.trans {w₁ w₂ w₃ : World ι κ} {ks ls : List (Layer P C)}
    (h : Painted d images i heap handle image w₁ w₂ ks)
    (h' : Painted d images i heap handle image w₂ w₃ ls) :
    Painted d images i heap handle image w₁ w₃ (ks ++ ls) := by
  refine ⟨h'.ready, h'.shown.trans h.shown, ?_⟩
  intro m
  rw [h'.pixels, h.pixels, wiping_append]

variable (d images) in
theorem painted_foldl (h : Ready i heap handle image w) (ops : List PaintOp) :
    Painted d images i heap handle image w
      (ops.foldl (fun w op => w.step (op.op i heap handle)) w) (layers d i heap handle w ops) := by
  induction ops generalizing w with
  | nil => exact ⟨h, rfl, fun _ => rfl⟩
  | cons op ops ih =>
    have hstep := painted_step d images h op
    exact hstep.trans (ih hstep.ready)

theorem shown_execute (h : Ready i heap handle image w) {o : Executing} (hfence : o.fence = none)
    (hsubmit : o.submit = none) :
    d.shown images ((w.step (.close i none)).step (.executeCommandLists [i] o)).device.trace =
      (d.run [] ⟨d.shown images w.device.trace, none⟩ (w.lists i).commandBuffer).images := by
  have hclose : w.step (.close i none) =
      w.setList i fun l => { l with recording := false, closed := true } := by
    have hstep : w.step (.close i none) = (GraphicsCommandList.close i none w).2 := rfl
    rw [hstep, GraphicsCommandList.close, bind_get]
    simp [h.recording, h.closed, vkErr]
  have hlist : (w.step (.close i none)).lists i =
      { w.lists i with recording := false, closed := true } := by
    rw [hclose]
    exact Function.update_self _ _ _
  have htrace : (w.step (.close i none)).device.trace = w.device.trace := by
    rw [hclose]
    rfl
  have hsubmits : Submits (w.step (.close i none)) [i] o := by
    refine ⟨List.cons_ne_nil _ _, ?_, hfence, hsubmit⟩
    intro j hj
    rw [List.mem_singleton.mp hj, hlist]
  generalize w.step (.close i none) = w' at *
  have hbuffer : ([i].flatMap fun i => (w'.lists i).commandBuffer) = (w.lists i).commandBuffer := by
    rw [List.flatMap_singleton, hlist]
  rcases execute_cases w' [i] o with ⟨-, hnot⟩ | ⟨-, heq | heq⟩
  · exact absurd hsubmits hnot
  · rw [heq, hbuffer, ← htrace]
    rfl
  · rw [heq, hbuffer, ← htrace]
    rfl

theorem executed_iff (h : Ready i heap handle image w) (hnothing : (w.lists i).commandBuffer = [])
    (ops : List PaintOp) {o : Executing} (hfence : o.fence = none) (hsubmit : o.submit = none) :
    d.shown images (((ops.foldl (fun w op => w.step (op.op i heap handle)) w).step
        (.close i none)).step (.executeCommandLists [i] o)).device.trace image =
      painter (d.shown images w.device.trace image)
        ((layers d i heap handle w ops).map Layer.stroke) ↔
    Unwiped (d.texel transparentBlack) (d.shown images w.device.trace image)
      (layers d i heap handle w ops) := by
  obtain ⟨hready, hshown, hpixels⟩ := painted_foldl d images h ops
  rw [shown_execute hready hfence hsubmit, hpixels, hnothing, hshown]
  exact wiping_eq_painter_iff

end D3d12

/-! ## Both -/

/-- After any sequence of clears and draws on one target, recorded from nothing and submitted, the
    target is as a painter would leave it exactly when the last of them is not a draw, or what it does
    not cover was transparent black before. -/
theorem painted_iff (P C : Type) (d : Driver P C) (images : Image → P → C) :
    (∀ (c : D3d11.DeviceContext) (rtv : D3d11.RenderTargetView) (ops : List D3d11.PaintOp)
      (o : D3d11.DeviceContext.Flushing), c.begun = [] →
      (∀ t, c.target = some t → t.framebuffer.attachment.image = rtv.image) → o.Submits →
      (d.shown images ((ops.foldl (fun c op => c.step (op.op rtv)) c).step (.flush o)).device.trace
          rtv.image =
        painter (d.shown images c.device.trace rtv.image)
          ((D3d11.layers d rtv c ops).map Layer.stroke) ↔
      Unwiped (d.texel transparentBlack) (d.shown images c.device.trace rtv.image)
        (D3d11.layers d rtv c ops))) ∧
    ∀ (ι κ : Type) [DecidableEq ι] [DecidableEq κ] (w : D3d12.World ι κ) (i : ι) (heap : κ)
      (handle : BitVec 32) (image : Image) (ops : List D3d12.PaintOp) (o : D3d12.Executing),
      (w.lists i).commandBuffer = [] → D3d12.Ready i heap handle image w → o.fence = none →
      o.submit = none →
      (d.shown images (((ops.foldl (fun w op => w.step (op.op i heap handle)) w).step
          (.close i none)).step (.executeCommandLists [i] o)).device.trace image =
        painter (d.shown images w.device.trace image)
          ((D3d12.layers d i heap handle w ops).map Layer.stroke) ↔
      Unwiped (d.texel transparentBlack) (d.shown images w.device.trace image)
        (D3d12.layers d i heap handle w ops)) := by
  constructor
  · intro c rtv ops o hnothing htarget ho
    exact D3d11.flushed_iff hnothing htarget ops ho
  · intro ι κ _ _ w i heap handle image ops o hnothing hready hfence hsubmit
    exact D3d12.executed_iff hready hnothing ops hfence hsubmit

/-- Two pixels, of which a draw covers one, in white. -/
def halfCovered : Driver Bool Color where
  texel := id
  raster _ _ p := if p then some ⟨0x3F800000, 0x3F800000, 0x3F800000, 0x3F800000⟩ else none
  garbage _ _ := transparentBlack

def red : Color := ⟨0x3F800000, 0, 0, 0x3F800000⟩

/-- A context with a target and shaders. -/
def ready11 : D3d11.DeviceContext :=
  (triangle11.take 3).foldl D3d11.DeviceContext.step { device := { next := 10 } }

/-- A list with a target and a pipeline. -/
def ready12 : D3d12.World Unit Unit :=
  (triangle12.take 2).foldl D3d12.World.step
    ⟨fun _ => {}, fun _ => ⟨.rtv, [.rtv target12]⟩, { next := 10 }⟩

def ops11 : List D3d11.PaintOp := [.draw 3 rasterizer {}, .clear red none]

def ops12 : List D3d12.PaintOp := [.draw 3 1 0 0 none, .clear red]

theorem painted_iff_clear :
    (halfCovered.shown (fun _ _ => transparentBlack)
        ((ops11.foldl (fun c op => c.step (op.op target11)) ready11).step (.flush {})).device.trace 1 =
      painter (fun _ => transparentBlack)
        ((D3d11.layers halfCovered target11 ready11 ops11).map Layer.stroke)) ∧
    (halfCovered.shown (fun _ _ => transparentBlack)
        (((ops12.foldl (fun w op => w.step (op.op () () 0)) ready12).step
          (.close () none)).step (.executeCommandLists [()] {})).device.trace 1 =
      painter (fun _ => transparentBlack)
        ((D3d12.layers halfCovered () () 0 ready12 ops12).map Layer.stroke)) :=
  ⟨((painted_iff Bool Color halfCovered fun _ _ => transparentBlack).1 ready11 target11 ops11 {} rfl
      (by intro t ht; cases ht; rfl) (by decide)).mpr trivial,
    ((painted_iff Bool Color halfCovered fun _ _ => transparentBlack).2 Unit Unit ready12 () () 0 1
      ops12 {} rfl ⟨rfl, rfl, by intro t ht; cases ht; rfl, by intro r _ hr; cases hr; rfl⟩ rfl
      rfl).mpr trivial⟩

/-- A draw after a clear leaves the pixels that it does not cover transparent black. -/
theorem not_painted_draw :
    halfCovered.shown (fun _ _ => transparentBlack)
        ((ops11.reverse.foldl (fun c op => c.step (op.op target11)) ready11).step
          (.flush {})).device.trace 1 ≠
      painter (fun _ => transparentBlack)
        ((D3d11.layers halfCovered target11 ready11 ops11.reverse).map Layer.stroke) ∧
    halfCovered.shown (fun _ _ => transparentBlack)
        (((ops12.reverse.foldl (fun w op => w.step (op.op () () 0)) ready12).step
          (.close () none)).step (.executeCommandLists [()] {})).device.trace 1 ≠
      painter (fun _ => transparentBlack)
        ((D3d12.layers halfCovered () () 0 ready12 ops12.reverse).map Layer.stroke) := by
  constructor
  · intro h
    have hpixel := congrFun h false
    revert hpixel
    decide
  · intro h
    have hpixel := congrFun h false
    revert hpixel
    decide

end WinCompat.Gpu
