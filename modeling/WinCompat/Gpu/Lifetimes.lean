import WinCompat.Gpu.D3d11
import WinCompat.Gpu.D3d12

/-!
# What recorded commands refer to

A draw of either translation records commands on an object that it destroys before it returns: its
pipeline in Direct3D 11, its framebuffer in Direct3D 12. All other commands refer to images, and to the
buffers of barriers, which nobody here destroys. So a run is sound exactly when it submits no draw
(`sound_iff_undrawn`).
-/

namespace WinCompat.Gpu

open Lib Lib.Fallible

def Obj.IsBuffer : Obj → Prop
  | .buffer _ => True
  | _ => False

def Cmd.beginsPass : Cmd → Bool
  | .beginRenderPass .. => true
  | _ => false

/-- A draw was recorded. -/
def Draws (cmds : List Cmd) : Prop := cmds.any Cmd.beginsPass = true

instance (cmds : List Cmd) : Decidable (Draws cmds) := inferInstanceAs (Decidable (_ = true))

/-- What is recorded refers to buffers only, unless a draw is recorded; then something is already
    gone. -/
structure Fits (tr : Trace) (cmds : List Cmd) : Prop where
  drawn : Draws cmds → ∃ o ∈ refsOf cmds, Event.destroyed o ∈ tr
  undrawn : ¬Draws cmds → ∀ o ∈ refsOf cmds, o.IsBuffer

/-- Nothing has gone wrong, and nothing that is pending can. -/
structure Clean (tr : Trace) : Prop where
  sound : Sound tr
  quiet : ∀ o ∈ refsOf (pending tr), o.IsBuffer

def KeepsBuffers (tr : Trace) : Prop := ∀ b, Event.destroyed (.buffer b) ∉ tr

variable {tr tr' : Trace} {cmds new : List Cmd} {o : Obj} {e : Event}

/-! ## Traces -/

theorem draws_append : Draws (cmds ++ new) ↔ Draws cmds ∨ Draws new := by
  unfold Draws
  rw [List.any_append, Bool.or_eq_true]

theorem refsOf_append : refsOf (cmds ++ new) = refsOf cmds ++ refsOf new := List.flatMap_append

theorem Fits.nil : Fits tr [] := by
  constructor
  · intro hdraws
    cases hdraws
  · intro _ o ho
    exact absurd ho List.not_mem_nil

theorem Fits.log (h : Fits tr cmds) (e : Event) : Fits (e :: tr) cmds := by
  constructor
  · intro hdraws
    obtain ⟨o, ho, hgone⟩ := h.drawn hdraws
    exact ⟨o, ho, List.mem_cons_of_mem e hgone⟩
  · exact h.undrawn

/-- Something that is not a draw. -/
theorem Fits.of_undrawn (hdraws : ¬Draws cmds) (hrefs : ∀ o ∈ refsOf cmds, o.IsBuffer) :
    Fits tr cmds :=
  ⟨fun h => absurd h hdraws, fun _ => hrefs⟩

theorem Fits.append (h : Fits tr cmds) (h' : Fits tr new) : Fits tr (cmds ++ new) := by
  constructor
  · intro hany
    rw [refsOf_append]
    rcases draws_append.mp hany with hdraws | hdraws
    · obtain ⟨o, ho, hgone⟩ := h.drawn hdraws
      exact ⟨o, List.mem_append_left _ ho, hgone⟩
    · obtain ⟨o, ho, hgone⟩ := h'.drawn hdraws
      exact ⟨o, List.mem_append_right _ ho, hgone⟩
  · intro hnone o ho
    rw [refsOf_append] at ho
    rcases List.mem_append.mp ho with ho | ho
    · exact h.undrawn (fun hd => hnone (draws_append.mpr (Or.inl hd))) o ho
    · exact h'.undrawn (fun hd => hnone (draws_append.mpr (Or.inr hd))) o ho

theorem Fits.flatMap {ι : Type} {f : ι → List Cmd} (h : ∀ i, Fits tr (f i)) (l : List ι) :
    Fits tr (l.flatMap f) := by
  induction l with
  | nil => exact Fits.nil
  | cons i l ih =>
    rw [List.flatMap_cons]
    exact (h i).append ih

theorem draws_flatMap {ι : Type} {f : ι → List Cmd} {l : List ι} :
    Draws (l.flatMap f) ↔ ∃ i ∈ l, Draws (f i) := by
  induction l with
  | nil => simp [Draws]
  | cons i l ih =>
    rw [List.flatMap_cons, draws_append, ih]
    simp

theorem Fits.append_draw (hdraws : Draws new) (ho : o ∈ refsOf new) :
    Fits (.destroyed o :: tr) (cmds ++ new) := by
  have hany : Draws (cmds ++ new) := draws_append.mpr (Or.inr hdraws)
  constructor
  · intro _
    rw [refsOf_append]
    exact ⟨o, List.mem_append_right _ ho, List.mem_cons_self⟩
  · intro hnone
    exact absurd hany hnone

theorem Clean.destroyed (h : Clean tr) (ho : ¬o.IsBuffer) : Clean (.destroyed o :: tr) :=
  ⟨⟨fun hpending => ho (h.quiet o hpending), h.sound⟩, h.quiet⟩

theorem Clean.waited (h : Clean tr) : Clean (.waited :: tr) :=
  ⟨h.sound, fun _ ho => absurd ho List.not_mem_nil⟩

theorem Clean.submitted (h : Clean tr) (hbuffers : KeepsBuffers tr)
    (hrefs : ∀ o ∈ refsOf cmds, o.IsBuffer) : Clean (.submitted cmds :: tr) := by
  constructor
  · refine ⟨?_, h.sound⟩
    intro o ho hgone
    cases o with
    | buffer b => exact hbuffers b hgone
    | _ => exact hrefs _ ho
  · intro o ho
    have hsplit : refsOf (pending (.submitted cmds :: tr)) = refsOf cmds ++ refsOf (pending tr) :=
      refsOf_append
    rw [hsplit] at ho
    rcases List.mem_append.mp ho with ho | ho
    · exact hrefs o ho
    · exact h.quiet o ho

theorem KeepsBuffers.destroyed (h : KeepsBuffers tr) (ho : ¬o.IsBuffer) :
    KeepsBuffers (.destroyed o :: tr) := by
  intro b hgone
  rcases List.mem_cons.mp hgone with heq | hgone
  · cases heq
    exact ho trivial
  · exact h b hgone

theorem not_sound_submitted (h : Fits tr cmds) (hdraws : Draws cmds) :
    ¬Sound (.submitted cmds :: tr) := by
  intro hsound
  obtain ⟨o, ho, hgone⟩ := h.drawn hdraws
  exact hsound.1 o ho hgone

theorem Sound.tail (h : Sound (e :: tr)) : Sound tr := by
  cases e with
  | destroyed o => exact h.2
  | submitted cmds => exact h.2
  | waited => exact h

theorem Sound.of_suffix (hsuffix : tr <:+ tr') (h : Sound tr') : Sound tr := by
  obtain ⟨evs, rfl⟩ := hsuffix
  induction evs with
  | nil => exact h
  | cons e evs ih => exact ih h.tail

theorem not_draws_clearCommands {image : Image} {color : Color} :
    ¬Draws (clearCommands image color) := by
  intro h
  cases h

theorem refs_clearCommands {image : Image} {color : Color} :
    ∀ o ∈ refsOf (clearCommands image color), o.IsBuffer := fun _ h => absurd h List.not_mem_nil

/-! ## Runs of operations -/

section Runs

variable {σ α : Type} {step : σ → α → σ} {ok : σ → α → Prop}

/-- Every operation of the list passes the test in the state that it is run in. -/
def Each (step : σ → α → σ) (ok : σ → α → Prop) : σ → List α → Prop
  | _, [] => True
  | s, a :: l => ok s a ∧ Each step ok (step s a) l

/-- What is sound after an operation that passes, and not after one that does not, is sound after a
    list of them exactly when all pass. -/
theorem sound_foldl_iff (trace : σ → Trace) (I : σ → Prop) (hinv : ∀ s a, I s → I (step s a))
    (hsuffix : ∀ s a, I s → trace s <:+ trace (step s a))
    (hgood : ∀ s a, I s → ok s a → Clean (trace s) → Clean (trace (step s a)))
    (hbad : ∀ s a, I s → ¬ok s a → ¬Sound (trace (step s a)))
    {s : σ} (hs : I s) (hclean : Clean (trace s)) (l : List α) :
    Sound (trace (l.foldl step s)) ↔ Each step ok s l := by
  have hrun : ∀ (l : List α) (s : σ), I s → trace s <:+ trace (l.foldl step s) := by
    intro l
    induction l with
    | nil => exact fun s _ => List.suffix_rfl
    | cons a l ih => exact fun s hs => (hsuffix s a hs).trans (ih (step s a) (hinv s a hs))
  induction l generalizing s with
  | nil => exact iff_of_true hclean.sound trivial
  | cons a l ih =>
    rw [List.foldl_cons]
    by_cases hok : ok s a
    · have hrest := ih (hinv s a hs) (hgood s a hs hok hclean)
      exact hrest.trans (and_iff_right hok).symm
    · apply iff_of_false
      · exact fun hsound => hbad s a hs hok (Sound.of_suffix (hrun l (step s a) (hinv s a hs)) hsound)
      · exact fun heach => hok heach.1

end Runs

/-! ## Direct3D 11 -/

namespace D3d11

/-- No draw is submitted. -/
def Undrawn (c : DeviceContext) : Op → Prop
  | .flush o => c.recording = true → o.Submits → ¬Draws c.commandBuffer
  | _ => True

/-- What the context has recorded fits the objects that there are. -/
structure Inv (c : DeviceContext) : Prop where
  fits : Fits c.device.trace c.commandBuffer
  buffers : KeepsBuffers c.device.trace

/-- What the operations keep that submit nothing: `B` says whether all went well before. -/
structure Calm (tr : Trace) (B : Prop) (c : DeviceContext) : Prop where
  inv : Inv c
  suffix : tr <:+ c.device.trace
  clean : B → Clean c.device.trace

variable {B : Prop} {c : DeviceContext}

theorem Calm.destroy (h : Calm tr B c) (ho : ¬o.IsBuffer) : Calm tr B (c.destroy o) where
  inv := ⟨h.inv.fits.log _, h.inv.buffers.destroyed ho⟩
  suffix := h.suffix.trans (List.suffix_cons _ _)
  clean hB := (h.clean hB).destroyed ho

theorem Calm.takeTarget (h : Calm tr B c) : Calm tr B c.takeTarget := by
  unfold DeviceContext.takeTarget
  cases c.target with
  | none => exact h
  | some t =>
    have hdetached : Calm tr B { c with target := none } :=
      ⟨⟨h.inv.fits, h.inv.buffers⟩, h.suffix, h.clean⟩
    exact (hdetached.destroy id).destroy id

theorem closed_calm : DeviceContext.Closed (Calm tr B) where
  begin _ h := ⟨⟨Fits.nil, h.inv.buffers⟩, h.suffix, h.clean⟩
  fresh _ h := ⟨⟨h.inv.fits, h.inv.buffers⟩, h.suffix, h.clean⟩
  takeTarget _ h := h.takeTarget
  layout _ _ h := h.destroy id

theorem keeps_clearRenderTargetView (rtv : RenderTargetView) (color : Color) (begin : Outcome) :
    Keeps (Calm tr B) (DeviceContext.clearRenderTargetView rtv color begin) := by
  refine Keeps.bind (closed_calm.beginRecording _) fun _ => ?_
  intro c h
  have hrecord : Fits c.device.trace (c.commandBuffer ++ clearCommands rtv.image color) :=
    h.inv.fits.append (Fits.of_undrawn not_draws_clearCommands refs_clearCommands)
  exact ⟨⟨hrecord, h.inv.buffers⟩, h.suffix, h.clean⟩

theorem keeps_drawInternal (count vertexOffset first : BitVec 32) (indexType : Option IndexType)
    (rasterizer : RasterizerDesc) (o : DeviceContext.Drawing) :
    Keeps (Calm tr B)
      (DeviceContext.drawInternal count vertexOffset first indexType rasterizer o) := by
  refine closed_calm.drawInternal _ _ _ _ _ _ fun c t pipeline h => ?_
  have hdrawn : Fits (.destroyed (.pipeline pipeline.id) :: c.device.trace)
      (c.commandBuffer ++ (c.passPrologue t pipeline ++
        c.passBody count vertexOffset first indexType ++ [.endRenderPass])) :=
    Fits.append_draw rfl (by simp [refsOf, DeviceContext.passPrologue, Cmd.refs])
  exact ⟨⟨hdrawn, h.inv.buffers.destroyed id⟩, h.suffix.trans (List.suffix_cons _ _),
    fun hB => (h.clean hB).destroyed id⟩

/-- What neither records nor touches the device. -/
theorem keeps_set {p : Prop} [Decidable p] {f : DeviceContext → DeviceContext}
    (hdevice : ∀ c, (f c).device = c.device) (hbuffer : ∀ c, (f c).commandBuffer = c.commandBuffer) :
    Keeps (Calm tr B) (modify fun c => if p then f c else c : Context Unit) := by
  intro c h
  show Calm tr B (if p then f c else c)
  by_cases hp : p
  · rw [if_pos hp]
    refine ⟨⟨?_, ?_⟩, ?_, ?_⟩
    · rw [hdevice, hbuffer]
      exact h.inv.fits
    · rw [hdevice]
      exact h.inv.buffers
    · rw [hdevice]
      exact h.suffix
    · rw [hdevice]
      exact h.clean
  · rw [if_neg hp]
    exact h

theorem keeps_run (op : Op) (hop : ∀ o, op ≠ .flush o) : Keeps (Calm tr B) op.run := by
  cases op with
  | omSetRenderTargets rtv o =>
    exact closed_calm.omSetRenderTargets rtv o fun _ _ _ h =>
      ⟨⟨h.inv.fits, h.inv.buffers⟩, h.suffix, h.clean⟩
  | clearRenderTargetView rtv color begin => exact keeps_clearRenderTargetView rtv color begin
  | vsSetShader shader => exact keeps_set (fun _ => rfl) fun _ => rfl
  | psSetShader shader => exact keeps_set (fun _ => rfl) fun _ => rfl
  | iaSetVertexBuffers buffer offset => exact keeps_set (fun _ => rfl) fun _ => rfl
  | iaSetIndexBuffer buffer offset type => exact keeps_set (fun _ => rfl) fun _ => rfl
  | draw count rasterizer o => exact keeps_drawInternal _ _ _ _ _ _
  | drawIndexed count vertexOffset rasterizer o =>
    apply keeps_get
    exact fun c h => keeps_drawInternal _ _ _ _ _ _ c h
  | flush o => exact absurd rfl (hop o)

/-- A flush does nothing, or it submits what is recorded, and if it waited for that it may reset the
    command buffer. -/
theorem flush_cases (c : DeviceContext) (o : DeviceContext.Flushing) :
    (c.step (.flush o) = c ∧ ¬(c.recording = true ∧ o.Submits)) ∨
      (c.recording = true ∧ o.Submits) ∧
        (c.step (.flush o) = c.log (.submitted c.commandBuffer) ∨
          c.step (.flush o) = (c.log (.submitted c.commandBuffer)).log .waited ∨
          c.step (.flush o) = { (c.log (.submitted c.commandBuffer)).log .waited with
            commandBuffer := [], recording := false, drew := false }) := by
  have hstep : c.step (.flush o) = (DeviceContext.flush o c).2 := rfl
  unfold DeviceContext.flush at hstep
  rw [bind_get] at hstep
  cases hrecording : c.recording with
  | false =>
    rw [hrecording] at hstep
    exact Or.inl ⟨hstep, fun h => Bool.false_ne_true h.1⟩
  | true =>
    rw [hrecording] at hstep
    obtain ⟨finish, fence, submit, wait, reset⟩ := o
    have hfails : ∀ {o : DeviceContext.Flushing} (text : String),
        o.finish = some text ∨ o.fence = some text ∨ o.submit = some text → ¬o.Submits := by
      rintro o text h ⟨hfinish, hfence, hsubmit⟩
      simp [hfinish, hfence, hsubmit] at h
    cases finish with
    | some text => exact Or.inl ⟨by simpa [vkErr] using hstep, fun h => hfails text (by simp) h.2⟩
    | none =>
      cases fence with
      | some text => exact Or.inl ⟨by simpa [vkErr] using hstep, fun h => hfails text (by simp) h.2⟩
      | none =>
        cases submit with
        | some text =>
          exact Or.inl ⟨by simpa [vkErr] using hstep, fun h => hfails text (by simp) h.2⟩
        | none =>
          refine Or.inr ⟨⟨rfl, rfl, rfl, rfl⟩, ?_⟩
          cases wait with
          | some text => exact Or.inl (by simpa [vkErr] using hstep)
          | none =>
            cases reset with
            | some text => exact Or.inr (Or.inl (by simpa [vkErr] using hstep))
            | none => exact Or.inr (Or.inr (by simpa [vkErr] using hstep))

theorem Inv.flush (h : Inv c) (o : DeviceContext.Flushing) : Inv (c.step (.flush o)) := by
  have hsubmitted : Fits (.submitted c.commandBuffer :: c.device.trace) c.commandBuffer :=
    h.fits.log _
  have hbuffers : KeepsBuffers (.submitted c.commandBuffer :: c.device.trace) := by
    simpa [KeepsBuffers] using h.buffers
  have hbuffers' : KeepsBuffers (.waited :: .submitted c.commandBuffer :: c.device.trace) := by
    simpa [KeepsBuffers] using h.buffers
  rcases flush_cases c o with ⟨heq, -⟩ | ⟨-, heq | heq | heq⟩
  · rw [heq]
    exact h
  · rw [heq]
    exact ⟨hsubmitted, hbuffers⟩
  · rw [heq]
    exact ⟨hsubmitted.log .waited, hbuffers'⟩
  · rw [heq]
    exact ⟨Fits.nil, hbuffers'⟩

theorem suffix_flush (c : DeviceContext) (o : DeviceContext.Flushing) :
    c.device.trace <:+ (c.step (.flush o)).device.trace := by
  rcases flush_cases c o with ⟨heq, -⟩ | ⟨-, heq | heq | heq⟩
  · exact heq.symm ▸ List.suffix_rfl
  · rw [heq]
    exact List.suffix_cons _ _
  · rw [heq]
    exact (List.suffix_cons _ _).trans (List.suffix_cons _ _)
  · rw [heq]
    exact (List.suffix_cons _ _).trans (List.suffix_cons _ _)

theorem clean_flush (h : Inv c) {o : DeviceContext.Flushing} (hok : Undrawn c (.flush o))
    (hclean : Clean c.device.trace) : Clean (c.step (.flush o)).device.trace := by
  rcases flush_cases c o with ⟨heq, -⟩ | ⟨⟨hrecording, hsubmits⟩, hcases⟩
  · rw [heq]
    exact hclean
  · have hsubmitted : Clean (.submitted c.commandBuffer :: c.device.trace) :=
      hclean.submitted h.buffers (h.fits.undrawn (hok hrecording hsubmits))
    rcases hcases with heq | heq | heq
    · rw [heq]
      exact hsubmitted
    · rw [heq]
      exact hsubmitted.waited
    · rw [heq]
      exact hsubmitted.waited

theorem not_sound_flush (h : Inv c) {o : DeviceContext.Flushing} (hbad : ¬Undrawn c (.flush o)) :
    ¬Sound (c.step (.flush o)).device.trace := by
  simp only [Undrawn, Classical.not_imp, not_not] at hbad
  obtain ⟨hrecording, hsubmits, hdraws⟩ := hbad
  have hsubmitted : ¬Sound (.submitted c.commandBuffer :: c.device.trace) :=
    not_sound_submitted h.fits hdraws
  rcases flush_cases c o with ⟨-, hnot⟩ | ⟨-, heq | heq | heq⟩
  · exact absurd ⟨hrecording, hsubmits⟩ hnot
  · rw [heq]
    exact hsubmitted
  · rw [heq]
    exact hsubmitted
  · rw [heq]
    exact hsubmitted

theorem calm_step (h : Inv c) {op : Op} (hop : ∀ o, op ≠ .flush o) :
    Calm c.device.trace (Clean c.device.trace) (c.step op) :=
  keeps_run op hop c ⟨h, List.suffix_rfl, id⟩

theorem sound_iff (h : Inv c) (hclean : Clean c.device.trace) (ops : List Op) :
    Sound (ops.foldl DeviceContext.step c).device.trace ↔ Each DeviceContext.step Undrawn c ops := by
  apply sound_foldl_iff (fun c => c.device.trace) Inv _ _ _ _ h hclean
  · intro c op h
    cases op with
    | flush o => exact h.flush o
    | _ => exact (calm_step h (by simp)).inv
  · intro c op h
    cases op with
    | flush o => exact suffix_flush c o
    | _ => exact (calm_step h (by simp)).suffix
  · intro c op h hok hclean
    cases op with
    | flush o => exact clean_flush h hok hclean
    | _ => exact (calm_step h (by simp)).clean hclean
  · intro c op h hbad
    cases op with
    | flush o => exact not_sound_flush h hbad
    | _ => exact absurd trivial hbad

end D3d11

/-! ## Direct3D 12 -/

namespace D3d12

variable {ι κ : Type}

/-- The execution gets as far as submitting. -/
def Submits (w : World ι κ) (lists : List ι) (o : Executing) : Prop :=
  lists ≠ [] ∧ (∀ i ∈ lists, (w.lists i).closed = true) ∧ o.fence = none ∧ o.submit = none

/-- No draw is submitted. -/
def Undrawn (w : World ι κ) : Op ι κ → Prop
  | .executeCommandLists lists o =>
    Submits w lists o → ∀ i ∈ lists, ¬Draws (w.lists i).commandBuffer
  | _ => True

/-- The same for each list's command buffer. -/
structure Inv (w : World ι κ) : Prop where
  fits : ∀ i, Fits w.device.trace (w.lists i).commandBuffer
  buffers : KeepsBuffers w.device.trace

/-- What the operations keep that submit nothing: `B` says whether all went well before. -/
structure Calm (tr : Trace) (B : Prop) (w : World ι κ) : Prop where
  inv : Inv w
  suffix : tr <:+ w.device.trace
  clean : B → Clean w.device.trace

variable {B : Prop} {w : World ι κ} {i : ι}

theorem Calm.destroy (h : Calm tr B w) (ho : ¬o.IsBuffer) : Calm tr B (w.destroy o) where
  inv := ⟨fun i => (h.inv.fits i).log _, h.inv.buffers.destroyed ho⟩
  suffix := h.suffix.trans (List.suffix_cons _ _)
  clean hB := (h.clean hB).destroyed ho

/-- Kept by all that neither records nor submits. -/
structure Stable [DecidableEq ι] (I : World ι κ → Prop) : Prop where
  fresh : ∀ w, I w → I w.fresh.2
  destroy : ∀ w (o : Obj), ¬o.IsBuffer → I w → I (w.destroy o)
  heaps : ∀ w heaps, I w → I { w with heaps }
  setList : ∀ w i f, (∀ l, (f l).commandBuffer = l.commandBuffer) → I w → I (w.setList i f)

variable {I : World ι κ → Prop}

theorem keeps_requireRecording :
    Keeps I (GraphicsCommandList.requireRecording i : Device ι κ Unit) := by
  apply keeps_get
  intro w h
  split_ifs
  · exact h
  · exact h
  · exact h
  · exact h

theorem keeps_liftExcept {α : Type} (r : Except Error α) :
    Keeps I (liftExcept r : Device ι κ α) := by
  cases r with
  | ok a => exact keeps_pure a
  | error e => exact keeps_throw e

/-! ### Lists -/

section Lists

variable [DecidableEq ι]

variable {f : GraphicsCommandList → GraphicsCommandList}

theorem Calm.setList (h : Calm tr B w) (hf : Fits w.device.trace (f (w.lists i)).commandBuffer) :
    Calm tr B (w.setList i f) := by
  refine ⟨⟨?_, h.inv.buffers⟩, h.suffix, h.clean⟩
  intro j
  unfold World.setList
  by_cases hj : j = i
  · subst hj
    simp only [Function.update_self]
    exact hf
  · simp only [Function.update_of_ne hj]
    exact h.inv.fits j

theorem stable_calm : Stable (Calm tr B : World ι κ → Prop) where
  fresh _ h := ⟨⟨h.inv.fits, h.inv.buffers⟩, h.suffix, h.clean⟩
  destroy _ _ ho h := h.destroy ho
  heaps _ _ h := ⟨⟨h.inv.fits, h.inv.buffers⟩, h.suffix, h.clean⟩
  setList w i f hf h := by
    apply h.setList
    rw [hf]
    exact h.inv.fits i

/-! ### What records nothing -/

theorem Stable.keeps_fresh (hI : Stable I) : Keeps I (run World.fresh : Device ι κ Nat) :=
  hI.fresh

theorem Stable.keeps_setList (hI : Stable I) (hf : ∀ l, (f l).commandBuffer = l.commandBuffer) :
    Keeps I (modify fun w => w.setList i f : Device ι κ Unit) :=
  keeps_modify fun w h => hI.setList w i f hf h

theorem Stable.keeps_close (hI : Stable I) (finish : Outcome) :
    Keeps I (GraphicsCommandList.close i finish : Device ι κ Unit) := by
  apply keeps_get
  intro w h
  have hrest : Keeps I (do
      check (vkErr finish)
      modify fun w => w.setList i fun l => { l with recording := false, closed := true }
      : Device ι κ Unit) :=
    Keeps.bind (keeps_check _) fun _ => hI.keeps_setList fun _ => rfl
  split_ifs
  · exact h
  · exact h
  · exact hrest w h

theorem Stable.keeps_setRenderTargets (hI : Stable I) (heap : κ) (handles : List (BitVec 32)) :
    Keeps I (GraphicsCommandList.setRenderTargets i heap handles : Device ι κ Unit) := by
  apply keeps_get
  intro w h
  cases handles with
  | nil => exact h
  | cons first rest =>
    refine Keeps.bind (keeps_liftExcept _) (fun r => ?_) w h
    exact hI.keeps_setList fun _ => rfl

theorem Stable.keeps_createRenderTargetView [DecidableEq κ] (hI : Stable I) (resource : Resource)
    (heap : κ) (index : BitVec 32) (createView : Outcome) :
    Keeps I (createRenderTargetView resource heap index createView : Device ι κ Unit) := by
  apply keeps_get
  intro w h
  split_ifs
  · exact h
  · cases resource with
    | buffer b => exact h
    | image image format extent =>
      refine Keeps.bind (keeps_check _) (fun _ => ?_) w h
      refine Keeps.bind hI.keeps_fresh fun view => ?_
      refine Keeps.bind (keeps_liftExcept _) fun old => ?_
      have hstore : ∀ heaps : World ι κ → κ → DescriptorHeap, Keeps I
          (modify fun w => { w with heaps := heaps w } : Device ι κ Unit) := fun heaps =>
        keeps_modify fun w h => hI.heaps w (heaps w) h
      cases old with
      | empty => exact hstore _
      | rtv r =>
        refine Keeps.bind (keeps_modify fun w h => hI.destroy w _ id h) fun _ => ?_
        exact hstore _

/-! ### What records -/

/-- Recording what is not a draw. -/
theorem keeps_record (cmds : List Cmd) (hf : ∀ l, (f l).commandBuffer = l.commandBuffer ++ cmds)
    (hdraws : ¬Draws cmds) (hrefs : ∀ o ∈ refsOf cmds, o.IsBuffer) :
    Keeps (Calm tr B) (modify fun w => w.setList i f : Device ι κ Unit) := by
  apply keeps_modify
  intro w h
  apply h.setList
  rw [hf]
  exact (h.inv.fits i).append (Fits.of_undrawn hdraws hrefs)

theorem keeps_reset (o : GraphicsCommandList.Resetting) :
    Keeps (Calm tr B) (GraphicsCommandList.reset i o : Device ι κ Unit) := by
  refine Keeps.bind (keeps_modify fun w h => h.setList Fits.nil) fun _ => ?_
  cases o.allocate with
  | error text => exact keeps_throw _
  | ok n =>
    cases n with
    | zero => exact keeps_throw _
    | succ n => exact Keeps.bind (keeps_check _) fun _ => stable_calm.keeps_setList fun _ => rfl

theorem keeps_clearRenderTargetView (heap : κ) (handle : BitVec 32) (color : Color) :
    Keeps (Calm tr B)
      (GraphicsCommandList.clearRenderTargetView i heap handle color : Device ι κ Unit) := by
  refine Keeps.bind keeps_requireRecording fun _ => ?_
  apply keeps_get
  intro w h
  refine Keeps.bind (keeps_liftExcept _) (fun r => ?_) w h
  exact keeps_record _ (fun _ => rfl) not_draws_clearCommands refs_clearCommands

theorem keeps_resourceBarrier (barriers : List ResourceBarrier) :
    Keeps (Calm tr B) (GraphicsCommandList.resourceBarrier i barriers : Device ι κ Unit) := by
  refine Keeps.bind keeps_requireRecording fun _ => ?_
  apply keeps_record _ (fun _ => rfl)
  · simp only [GraphicsCommandList.barrierCommands, Draws]
    split_ifs
    · simp
    · simp [Cmd.beginsPass]
    · simp [Cmd.beginsPass]
    · simp [Cmd.beginsPass]
  · -- barriers refer to the buffers that they are on
    intro o ho
    obtain ⟨cmd, hcmd, ho⟩ := List.mem_flatMap.mp ho
    simp only [GraphicsCommandList.barrierCommands] at hcmd
    have hbarrier : ∃ images buffers, cmd = .pipelineBarrier images buffers := by
      rcases List.mem_append.mp hcmd with hcmd | hcmd
      · split_ifs at hcmd
        · cases hcmd
        · exact ⟨_, _, List.mem_singleton.mp hcmd⟩
      · split_ifs at hcmd
        · cases hcmd
        · exact ⟨_, _, List.mem_singleton.mp hcmd⟩
    obtain ⟨images, buffers, rfl⟩ := hbarrier
    obtain ⟨b, -, rfl⟩ := List.mem_map.mp ho
    trivial

theorem keeps_drawInstanced (vertexCount instanceCount startVertex startInstance : BitVec 32)
    (createFramebuffer : Outcome) :
    Keeps (Calm tr B) (GraphicsCommandList.drawInstanced i vertexCount instanceCount startVertex
      startInstance createFramebuffer : Device ι κ Unit) := by
  refine Keeps.bind keeps_requireRecording fun _ => ?_
  apply keeps_get
  intro w h
  cases (w.lists i).target with
  | none => exact h
  | some target =>
    cases (w.lists i).pipeline with
    | none => exact h
    | some pso =>
      refine Keeps.bind (keeps_check _) (fun _ => ?_) w h
      refine Keeps.bind stable_calm.keeps_fresh fun framebuffer => ?_
      intro w h
      -- the commands are recorded, and the framebuffer of their pass is destroyed
      have hdestroyed : Calm tr B (w.destroy (.framebuffer framebuffer)) := h.destroy id
      have hdrawn : Fits (.destroyed (.framebuffer framebuffer) :: w.device.trace)
          ((w.lists i).commandBuffer ++ GraphicsCommandList.drawCommands target pso framebuffer
            vertexCount instanceCount startVertex startInstance) :=
        Fits.append_draw rfl (by simp [refsOf, GraphicsCommandList.drawCommands, Cmd.refs])
      exact hdestroyed.setList (f := fun l => l.record _) hdrawn

end Lists

/-! ### Runs -/

variable [DecidableEq ι] [DecidableEq κ]

theorem keeps_run (op : Op ι κ) (hop : ∀ lists o, op ≠ .executeCommandLists lists o) :
    Keeps (Calm tr B) op.run := by
  cases op with
  | close i finish => exact stable_calm.keeps_close finish
  | reset i o => exact keeps_reset o
  | setPipelineState i pso => exact stable_calm.keeps_setList fun _ => rfl
  | setRenderTargets i heap handles => exact stable_calm.keeps_setRenderTargets heap handles
  | clearRenderTargetView i heap handle color => exact keeps_clearRenderTargetView heap handle color
  | setViewport i viewport =>
    refine Keeps.bind keeps_requireRecording fun _ => ?_
    exact keeps_record [.setViewport viewport] (fun _ => rfl) (by simp [Draws, Cmd.beginsPass])
      fun _ h => absurd h List.not_mem_nil
  | setScissorRect i scissor =>
    refine Keeps.bind keeps_requireRecording fun _ => ?_
    exact keeps_record [.setScissor scissor] (fun _ => rfl) (by simp [Draws, Cmd.beginsPass])
      fun _ h => absurd h List.not_mem_nil
  | resourceBarrier i barriers => exact keeps_resourceBarrier barriers
  | drawInstanced i vertexCount instanceCount startVertex startInstance createFramebuffer =>
    exact keeps_drawInstanced _ _ _ _ _
  | executeCommandLists lists o => exact absurd rfl (hop lists o)
  | createRenderTargetView resource heap index createView =>
    exact stable_calm.keeps_createRenderTargetView _ _ _ _

theorem execute_cases (w : World ι κ) (lists : List ι) (o : Executing) :
    (w.step (.executeCommandLists lists o) = w ∧ ¬Submits w lists o) ∨
      Submits w lists o ∧
        (w.step (.executeCommandLists lists o) =
            w.log (.submitted (lists.flatMap fun i => (w.lists i).commandBuffer)) ∨
          w.step (.executeCommandLists lists o) =
            (w.log (.submitted (lists.flatMap fun i => (w.lists i).commandBuffer))).log .waited) := by
  have hstep : w.step (.executeCommandLists lists o) = (executeCommandLists lists o w).2 := rfl
  unfold executeCommandLists at hstep
  rw [bind_get] at hstep
  by_cases hnil : lists = []
  · rw [if_pos hnil] at hstep
    exact Or.inl ⟨hstep, fun h => h.1 hnil⟩
  · rw [if_neg hnil] at hstep
    by_cases hopen : lists.any fun i => !(w.lists i).closed
    · rw [if_pos hopen] at hstep
      refine Or.inl ⟨by simpa using hstep, fun h => ?_⟩
      obtain ⟨i, hi, hclosed⟩ := List.any_eq_true.mp hopen
      simp [h.2.1 i hi] at hclosed
    · rw [if_neg hopen] at hstep
      obtain ⟨fence, submit, wait⟩ := o
      cases fence with
      | some text =>
        refine Or.inl ⟨by simpa [vkErr] using hstep, fun h => ?_⟩
        cases h.2.2.1
      | none =>
        cases submit with
        | some text =>
          refine Or.inl ⟨by simpa [vkErr] using hstep, fun h => ?_⟩
          cases h.2.2.2
        | none =>
          refine Or.inr ⟨⟨hnil, by simpa using hopen, rfl, rfl⟩, ?_⟩
          cases wait with
          | some text => exact Or.inl (by simpa [vkErr] using hstep)
          | none => exact Or.inr (by simpa [vkErr] using hstep)

variable {lists : List ι} {x : Executing}

theorem Inv.execute (h : Inv w) : Inv (w.step (.executeCommandLists lists x)) := by
  rcases execute_cases w lists x with ⟨heq, -⟩ | ⟨-, heq | heq⟩
  · rw [heq]
    exact h
  · rw [heq]
    exact ⟨fun i => (h.fits i).log _, by simpa [KeepsBuffers, World.log] using h.buffers⟩
  · rw [heq]
    exact ⟨fun i => ((h.fits i).log _).log _, by simpa [KeepsBuffers, World.log] using h.buffers⟩

theorem suffix_execute :
    w.device.trace <:+ (w.step (.executeCommandLists lists x)).device.trace := by
  rcases execute_cases w lists x with ⟨heq, -⟩ | ⟨-, heq | heq⟩
  · exact heq.symm ▸ List.suffix_rfl
  · rw [heq]
    exact List.suffix_cons _ _
  · rw [heq]
    exact (List.suffix_cons _ _).trans (List.suffix_cons _ _)

theorem clean_execute (h : Inv w) (hok : Undrawn w (.executeCommandLists lists x))
    (hclean : Clean w.device.trace) :
    Clean (w.step (.executeCommandLists lists x)).device.trace := by
  rcases execute_cases w lists x with ⟨heq, -⟩ | ⟨hsubmits, hcases⟩
  · rw [heq]
    exact hclean
  · have hundrawn : ¬Draws (lists.flatMap fun i => (w.lists i).commandBuffer) := by
      rw [draws_flatMap]
      rintro ⟨i, hi, hdraws⟩
      exact hok hsubmits i hi hdraws
    have hsubmitted :
        Clean (.submitted (lists.flatMap fun i => (w.lists i).commandBuffer) :: w.device.trace) :=
      hclean.submitted h.buffers ((Fits.flatMap h.fits lists).undrawn hundrawn)
    rcases hcases with heq | heq
    · rw [heq]
      exact hsubmitted
    · rw [heq]
      exact hsubmitted.waited

theorem not_sound_execute (h : Inv w) (hbad : ¬Undrawn w (.executeCommandLists lists x)) :
    ¬Sound (w.step (.executeCommandLists lists x)).device.trace := by
  simp only [Undrawn, Classical.not_imp, not_forall, not_not] at hbad
  obtain ⟨hsubmits, i, hi, hdraws⟩ := hbad
  have hsubmitted :
      ¬Sound (.submitted (lists.flatMap fun i => (w.lists i).commandBuffer) :: w.device.trace) :=
    not_sound_submitted (Fits.flatMap h.fits lists) (draws_flatMap.mpr ⟨i, hi, hdraws⟩)
  rcases execute_cases w lists x with ⟨-, hnot⟩ | ⟨-, heq | heq⟩
  · exact absurd hsubmits hnot
  · rw [heq]
    exact hsubmitted
  · rw [heq]
    exact hsubmitted

theorem calm_step (h : Inv w) {op : Op ι κ} (hop : ∀ lists o, op ≠ .executeCommandLists lists o) :
    Calm w.device.trace (Clean w.device.trace) (w.step op) :=
  keeps_run op hop w ⟨h, List.suffix_rfl, id⟩

theorem sound_iff (h : Inv w) (hclean : Clean w.device.trace) (ops : List (Op ι κ)) :
    Sound (ops.foldl World.step w).device.trace ↔ Each World.step Undrawn w ops := by
  apply sound_foldl_iff (fun w => w.device.trace) Inv _ _ _ _ h hclean
  · intro w op h
    cases op with
    | executeCommandLists lists o => exact h.execute
    | _ => exact (calm_step h (by simp)).inv
  · intro w op h
    cases op with
    | executeCommandLists lists o => exact suffix_execute
    | _ => exact (calm_step h (by simp)).suffix
  · intro w op h hok hclean
    cases op with
    | executeCommandLists lists o => exact clean_execute h hok hclean
    | _ => exact (calm_step h (by simp)).clean hclean
  · intro w op h hbad
    cases op with
    | executeCommandLists lists o => exact not_sound_execute h hbad
    | _ => exact absurd trivial hbad

end D3d12

/-! ## Both -/

theorem Clean.nil : Clean [] := ⟨trivial, fun _ ho => absurd ho List.not_mem_nil⟩

/-- In every run of operations, of a Direct3D 11 context and of the command lists of a Direct3D 12
    device, nothing that a submission refers to was destroyed before it was waited for exactly when no
    draw is submitted. -/
theorem sound_iff_undrawn (next : Nat) :
    (∀ ops : List D3d11.Op,
      Sound (ops.foldl D3d11.DeviceContext.step { device := { next := next } }).device.trace ↔
        Each D3d11.DeviceContext.step D3d11.Undrawn { device := { next := next } } ops) ∧
    ∀ (ι κ : Type) [DecidableEq ι] [DecidableEq κ] (heaps : κ → D3d12.DescriptorHeap)
      (ops : List (D3d12.Op ι κ)),
      Sound (ops.foldl D3d12.World.step ⟨fun _ => {}, heaps, { next := next }⟩).device.trace ↔
        Each D3d12.World.step D3d12.Undrawn ⟨fun _ => {}, heaps, { next := next }⟩ ops := by
  constructor
  · intro ops
    exact D3d11.sound_iff ⟨Fits.nil, fun _ h => absurd h List.not_mem_nil⟩ Clean.nil ops
  · intro ι κ _ _ heaps ops
    exact D3d12.sound_iff ⟨fun _ => Fits.nil, fun _ h => absurd h List.not_mem_nil⟩ Clean.nil ops

/-- A 640 by 480 target. -/
def target11 : D3d11.RenderTargetView := ⟨⟨1, 1⟩, 1, 44, ⟨640, 480⟩, rfl⟩

def target12 : D3d12.Rtv := ⟨⟨1, 1⟩, 1, 44, ⟨640, 480⟩, rfl⟩

def rasterizer : RasterizerDesc := ⟨.solid, .back, false⟩

def pso : D3d12.PipelineState where
  pipeline := ⟨3, 2, makeRenderPass 4 44, [], rasterizer, none, false⟩
  renderPass := makeRenderPass 4 44
  made := ⟨4, 44, rfl⟩

def triangle11 : List D3d11.Op :=
  [.omSetRenderTargets target11 {}, .vsSetShader ⟨1, .vertex⟩, .psSetShader ⟨2, .pixel⟩,
    .draw 3 rasterizer {}, .flush {}]

def triangle12 : List (D3d12.Op Unit Unit) :=
  [.setPipelineState () pso, .setRenderTargets () () [0], .drawInstanced () 3 1 0 0 none,
    .close () none, .executeCommandLists [()] {}]

/-- One triangle, drawn and submitted, is enough. -/
theorem not_sound_triangle :
    ¬Sound (triangle11.foldl D3d11.DeviceContext.step { device := { next := 10 } }).device.trace ∧
    ¬Sound (triangle12.foldl D3d12.World.step
      ⟨fun _ => {}, fun _ => ⟨.rtv, [.rtv target12]⟩, { next := 10 }⟩).device.trace := by
  decide

end WinCompat.Gpu
