import WinCompat.Gpu.Vulkan

/-!
# Image layouts

A barrier and a render pass name the layout in which they expect a subresource of an image, and the
one that they leave it in. A subresource begins in `UNDEFINED`. Commands are in step with the layouts
if each is in the one that is named, or `UNDEFINED` is named where nothing of its content is needed
any more.
-/

namespace WinCompat.Gpu

/-- A level and a layer of an image. -/
structure Subresource where
  image : Image
  level : Nat
  layer : Nat
  deriving DecidableEq

abbrev Layouts := Subresource → Layout

/-- Where images are when they have been created. -/
def Layouts.initial : Layouts := fun _ => .undefined

def SubresourceRange.Has (r : SubresourceRange) (sub : Subresource) : Prop :=
  sub.level < r.levelCount ∧ sub.layer < r.layerCount

instance (r : SubresourceRange) (sub : Subresource) : Decidable (r.Has sub) :=
  inferInstanceAs (Decidable (_ ∧ _))

def ImageBarrier.Covers (b : ImageBarrier) (sub : Subresource) : Prop :=
  sub.image = b.image ∧ b.range.Has sub

instance (b : ImageBarrier) (sub : Subresource) : Decidable (b.Covers sub) :=
  inferInstanceAs (Decidable (_ ∧ _))

def ImageBarrier.leave (ls : Layouts) (b : ImageBarrier) : Layouts :=
  fun sub => if b.Covers sub then b.newLayout else ls sub

/-- What clears and render targets are about: the first level and layer. -/
def Image.first (image : Image) : Subresource := ⟨image, 0, 0⟩

def Cmd.touches (sub : Subresource) : Cmd → Bool
  | .pipelineBarrier images _ => images.any fun b => b.Covers sub
  | .clearColorImage image _ => image.first = sub
  | .beginRenderPass _ fb _ => fb.attachment.image.first = sub
  | _ => false

/-- The next command on the subresource overwrites all of it. -/
def Overwritten (sub : Subresource) (rest : List Cmd) : Prop :=
  ∃ image color, rest.find? (Cmd.touches sub) = some (.clearColorImage image color)

namespace Cmd

/-- A render pass leaves its attachment in the final layout when it ends, and no command within one
    is on an image. -/
def leave (ls : Layouts) : Cmd → Layouts
  | .pipelineBarrier images _ => images.foldl ImageBarrier.leave ls
  | .beginRenderPass rp fb _ => Function.update ls fb.attachment.image.first rp.finalLayout
  | _ => ls

/-- What there is of the images is in the layouts that the command names; `real` says what there is
    of each, and `rest` is what comes after the command. -/
def Expects (real : Image → SubresourceRange) (ls : Layouts) (rest : List Cmd) : Cmd → Prop
  | .pipelineBarrier images _ => ∀ b ∈ images, ∀ sub, (real b.image).Has sub → b.Covers sub →
      b.oldLayout = ls sub ∨ b.oldLayout = .undefined ∧ Overwritten sub rest
  | .beginRenderPass rp fb _ =>
      (real fb.attachment.image).Has fb.attachment.image.first →
        rp.initialLayout = ls fb.attachment.image.first ∨
          rp.initialLayout = .undefined ∧ rp.loadOp = .clear
  | _ => True

end Cmd

def InStep (real : Image → SubresourceRange) (ls : Layouts) : List Cmd → Prop
  | [] => True
  | cmd :: rest => cmd.Expects real ls rest ∧ InStep real (cmd.leave ls) rest

/-- All that was submitted, oldest first. -/
def submissions : Trace → List Cmd
  | [] => []
  | .submitted cmds :: tr => submissions tr ++ cmds
  | .destroyed _ :: tr | .waited :: tr => submissions tr

variable {real : Image → SubresourceRange} {ls : Layouts} {rest : List Cmd} {image : Image}
  {sub : Subresource}

/-! ## What the translations record -/

theorem covers_single {old new : Layout} :
    ImageBarrier.Covers ⟨image, old, new, ⟨1, 1⟩⟩ sub ↔ sub = image.first := by
  obtain ⟨image', level, layer⟩ := sub
  simp [ImageBarrier.Covers, SubresourceRange.Has, Image.first]

theorem leave_single {old new : Layout} :
    ImageBarrier.leave ls ⟨image, old, new, ⟨1, 1⟩⟩ = Function.update ls image.first new := by
  funext sub
  by_cases hsub : sub = image.first
  · rw [ImageBarrier.leave, if_pos (covers_single.mpr hsub), hsub, Function.update_self]
  · rw [ImageBarrier.leave, if_neg (mt covers_single.mp hsub), Function.update_of_ne hsub]

theorem inStep_clearCommands {color : Color} :
    InStep real ls (clearCommands image color ++ rest) ↔
      InStep real (Function.update ls image.first .colorAttachmentOptimal) rest := by
  have hoverwritten : Overwritten image.first
      (.clearColorImage image color :: .pipelineBarrier
        [⟨image, .transferDstOptimal, .colorAttachmentOptimal, ⟨1, 1⟩⟩] [] :: rest) :=
    ⟨image, color, by simp [Cmd.touches]⟩
  simp only [clearCommands, List.cons_append, List.nil_append, InStep, Cmd.leave, Cmd.Expects,
    List.foldl_cons, List.foldl_nil, List.forall_mem_singleton, leave_single,
    Function.update_idem, covers_single, true_and]
  constructor
  · exact fun h => h.2.2
  · intro h
    refine ⟨?_, ?_, h⟩
    · rintro sub - rfl
      exact Or.inr hoverwritten
    · rintro sub - rfl
      rw [Function.update_self]
      exact Or.inl rfl

theorem inStep_barrier {b : ImageBarrier} (hold : b.oldLayout ≠ .undefined) :
    InStep real ls (.pipelineBarrier [b] [] :: rest) ↔
      (∀ sub, (real b.image).Has sub → b.Covers sub → b.oldLayout = ls sub) ∧
        InStep real (b.leave ls) rest := by
  simp [InStep, Cmd.Expects, Cmd.leave, hold]

theorem inStep_cons_of_unnamed {cmd : Cmd} (hexpects : ∀ ls rest, cmd.Expects real ls rest)
    (hleave : ∀ ls, cmd.leave ls = ls) : InStep real ls (cmd :: rest) ↔ InStep real ls rest := by
  rw [InStep, hleave]
  exact and_iff_right (hexpects ls rest)

end WinCompat.Gpu
