import WinCompat.Gpu.Ledger
import WinCompat.Gpu.Lifetimes

/-!
# What an immediate context holds on to

Of what it refers to, a `DeviceContext` has created its target only. The render pass and the framebuffer
of that are there after every run (`DeviceContext.Holds.run`), and so they are after a failure of
`om_set_render_targets`, which takes the old target away before its first step that can fail.
-/

namespace WinCompat.Gpu

open Lib Lib.Fallible

namespace D3d11.DeviceContext

/-- What the context owns. -/
def owned (c : DeviceContext) : List Nat :=
  match c.target with
  | none => []
  | some t => [t.framebuffer.id, t.renderPass.id]

def Holds (c : DeviceContext) : Prop := c.device.Holds c.owned

variable {c : DeviceContext}

theorem Holds.of_eq {c' : DeviceContext} (h : c.Holds) (hdevice : c'.device = c.device)
    (htarget : c'.target = c.target) : c'.Holds := by
  unfold Holds owned at h ⊢
  rw [hdevice, htarget]
  exact h

theorem beginRecording_cases (begin : Outcome) (c : DeviceContext) :
    (c.recording = false ∧ ∃ e, begin = some e ∧
        beginRecording begin c = (.error (.vulkan e), c)) ∨
      (c.recording = false → begin = none) ∧ ∃ c', beginRecording begin c = (.ok (), c') ∧
        c'.device = c.device ∧ c'.target = c.target := by
  unfold beginRecording
  rw [bind_get]
  cases hrecording : c.recording with
  | true => exact Or.inr ⟨Bool.noConfusion, c, rfl, rfl, rfl⟩
  | false =>
    cases begin with
    | some e => exact Or.inl ⟨rfl, e, rfl, rfl⟩
    | none => exact Or.inr ⟨fun _ => rfl, _, rfl, rfl, rfl⟩

theorem target_takeTarget : c.takeTarget.target = none := by
  cases htarget : c.target with
  | none => simp [takeTarget, htarget]
  | some t => simp [takeTarget, htarget, DeviceContext.destroy]

theorem next_takeTarget : c.takeTarget.device.next = c.device.next := by
  cases htarget : c.target with
  | none => simp [takeTarget, htarget]
  | some t => simp [takeTarget, htarget, DeviceContext.destroy]

/-- Only what the context owned is gone. -/
theorem destroys_takeTarget {id : Nat} (hid : id ∉ c.owned) :
    c.takeTarget.device.destroys id = c.device.destroys id := by
  cases htarget : c.target with
  | none => simp [takeTarget, htarget]
  | some t =>
    unfold owned at hid
    rw [htarget, List.mem_cons, List.mem_singleton, not_or] at hid
    have hfb : t.framebuffer.id ≠ id := Ne.symm hid.1
    have hrp : t.renderPass.id ≠ id := Ne.symm hid.2
    simp [takeTarget, htarget, DeviceContext.destroy, Obj.id, hfb, hrp]

theorem Holds.takeTarget (h : c.Holds) : c.takeTarget.Holds := by
  constructor
  · intro id hid
    rw [next_takeTarget] at hid
    have hother : id ∉ c.owned := fun hmem => absurd (h.ne_next id hmem) (Nat.not_lt.mpr hid)
    exact (destroys_takeTarget hother).trans (h.tidy id hid)
  · intro id hid
    rw [owned, target_takeTarget] at hid
    exact absurd hid List.not_mem_nil

/-! ## Runs -/

theorem Holds.omSetRenderTargets (h : c.Holds) (rtv : RenderTargetView) (o : SetTarget) :
    (DeviceContext.omSetRenderTargets rtv o c).2.Holds := by
  unfold DeviceContext.omSetRenderTargets
  rcases beginRecording_cases o.begin c with ⟨-, e, -, heq⟩ | ⟨-, c₁, heq, hdevice, htarget⟩
  · rw [bind_error heq]
    exact h
  · rw [bind_ok heq, bind_modify]
    have htaken := (h.of_eq hdevice htarget).takeTarget
    cases o.renderPass with
    | some e => exact htaken
    | none =>
      cases o.framebuffer with
      | some e => exact htaken.fresh.mono (List.subset_cons_self _ _)
      | none =>
        refine htaken.fresh.fresh.mono ?_
        exact List.cons_subset_cons _ (List.cons_subset_cons _ (List.nil_subset _))

/-- What a draw creates is not the target. -/
theorem Holds.destroy_new (h : c.Holds) {o : Obj} (hmade : o.id < c.device.next)
    (hother : o.id ∉ c.owned) : (c.destroy o).Holds := Vk.Holds.destroy h hmade hother

theorem Holds.fresh (h : c.Holds) : c.fresh.2.Holds :=
  Vk.Holds.mono (Vk.Holds.fresh h) (List.subset_cons_self _ _)

theorem Holds.drawInternal (h : c.Holds) (count vertexOffset first : BitVec 32)
    (indexType : Option IndexType) (rasterizer : RasterizerDesc) (o : Drawing) :
    (DeviceContext.drawInternal count vertexOffset first indexType rasterizer o c).2.Holds := by
  unfold DeviceContext.drawInternal
  rcases beginRecording_cases o.begin c with ⟨-, e, -, heq⟩ | ⟨-, c₁, heq, hdevice, htarget⟩
  · rw [bind_error heq]
    exact h
  · rw [bind_ok heq, bind_get]
    have h₁ : c₁.Holds := h.of_eq hdevice htarget
    have hnew : ∀ n, c₁.device.next ≤ n → n ∉ c₁.owned := fun n hn hmem =>
      absurd (h₁.ne_next n hmem) (Nat.not_lt.mpr hn)
    cases ht : c₁.target with
    | none => exact h₁
    | some t =>
      cases c₁.vs with
      | none => exact h₁
      | some vs =>
        cases c₁.ps with
        | none => exact h₁
        | some ps =>
          unfold buildPipeline
          cases o.layout with
          | some e => exact h₁
          | none =>
            have hlayout : ∀ c : DeviceContext, c.Holds → c₁.device.next < c.device.next →
                c.owned = c₁.owned → (c.destroy (.pipelineLayout c₁.device.next)).Holds :=
              fun c hc hlt howned => hc.destroy_new hlt (howned ▸ hnew _ (Nat.le_refl _))
            cases o.pipelines with
            | error text => exact hlayout _ h₁.fresh (Nat.lt_succ_self _) rfl
            | ok n =>
              cases n with
              | zero => exact h₁.fresh
              | succ n =>
                have hdone := hlayout _ h₁.fresh.fresh
                  (Nat.lt_succ_of_lt (Nat.lt_succ_self _)) rfl
                exact hdone.destroy_new (Nat.lt_succ_self _) (hnew _ (Nat.le_succ _))

theorem Holds.set {p : Prop} [Decidable p] {f : DeviceContext → DeviceContext} (h : c.Holds)
    (hdevice : (f c).device = c.device) (htarget : (f c).target = c.target) :
    (if p then f c else c).Holds := by
  by_cases hp : p
  · rw [if_pos hp]
    exact h.of_eq hdevice htarget
  · rw [if_neg hp]
    exact h

theorem Holds.flush (h : c.Holds) (o : Flushing) : (c.step (.flush o)).Holds := by
  have hsubmitted : (c.log (.submitted c.commandBuffer)).Holds :=
    Vk.Holds.log h fun _ => rfl
  have hwaited : ((c.log (.submitted c.commandBuffer)).log .waited).Holds :=
    Vk.Holds.log hsubmitted fun _ => rfl
  rcases flush_cases c o with ⟨hstep, -⟩ | ⟨-, hstep | hstep | hstep⟩
  · rw [hstep]
    exact h
  · rw [hstep]
    exact hsubmitted
  · rw [hstep]
    exact hwaited
  · rw [hstep]
    exact hwaited.of_eq rfl rfl

theorem Holds.step (h : c.Holds) (op : Op) : (c.step op).Holds := by
  cases op with
  | omSetRenderTargets rtv o => exact h.omSetRenderTargets rtv o
  | clearRenderTargetView rtv color begin =>
    show (DeviceContext.clearRenderTargetView rtv color begin c).2.Holds
    unfold DeviceContext.clearRenderTargetView
    rcases beginRecording_cases begin c with ⟨-, e, -, heq⟩ | ⟨-, c₁, heq, hdevice, htarget⟩
    · rw [bind_error heq]
      exact h
    · rw [bind_ok heq]
      exact h.of_eq hdevice htarget
  | vsSetShader shader => exact h.set (f := fun c => { c with vs := some shader.module }) rfl rfl
  | psSetShader shader => exact h.set (f := fun c => { c with ps := some shader.module }) rfl rfl
  | iaSetVertexBuffers buffer offset =>
    exact h.set
      (f := fun c => { c with vertexBuffer := some buffer.buffer, vertexOffset := offset }) rfl rfl
  | iaSetIndexBuffer buffer offset type =>
    exact h.set
      (f := fun c => { c with
        indexBuffer := some buffer.buffer, indexOffset := offset, indexType := type }) rfl rfl
  | draw count rasterizer o => exact h.drawInternal _ _ _ _ _ _
  | drawIndexed count vertexOffset rasterizer o => exact h.drawInternal _ _ _ _ _ _
  | flush o => exact h.flush o

/-- A context keeps its target until it takes it away itself. -/
theorem Holds.run (h : c.Holds) (ops : List Op) : (ops.foldl DeviceContext.step c).Holds := by
  induction ops generalizing c with
  | nil => exact h
  | cons op ops ih => exact ih (h.step op)

/-- From the making of the context on, whatever is called and whatever of it fails, the render pass
    and the framebuffer of its target have been created and not destroyed. -/
theorem target_kept (next : Nat) (ops : List Op) :
    (ops.foldl DeviceContext.step { device := { next } }).Holds :=
  Holds.run ⟨fun _ _ => rfl, fun _ hid => absurd hid List.not_mem_nil⟩ ops

end D3d11.DeviceContext

end WinCompat.Gpu
