import Mathlib.Data.BitVec

/-!
# Painting

A stroke is a partial function from pixels to colours, and painting it on an image leaves the pixels
it does not cover as they were. After a list of strokes each pixel has the colour of the last stroke
that covers it (`painter_of_last`).

`wiping` is what becomes of the list when every stroke of a marked kind first wipes the image. The two
agree exactly where nothing is left to see of what was wiped (`wiping_eq_painter_iff`).
-/

namespace WinCompat.Lib.Painter

universe u v

variable {P : Type u} {C : Type v}

abbrev Stroke (P : Type u) (C : Type v) := P → Option C

/-- An image with a stroke painted on it. -/
def paint (img : P → C) (w : Stroke P C) : P → C := fun p => (w p).getD (img p)

def painter (img : P → C) (ws : List (Stroke P C)) : P → C := ws.foldl paint img

variable {img : P → C} {w : Stroke P C} {ws pre post : List (Stroke P C)} {p : P} {c : C}

theorem paint_paint {f g : Stroke P C} :
    paint (paint img f) g = paint img fun p => (g p).or (f p) := by
  funext p
  cases hp : g p with
  | none => simp [paint, hp]
  | some c => simp [paint, hp]

theorem painter_nil : painter img [] = img := rfl

theorem painter_cons : painter img (w :: ws) = painter (paint img w) ws := rfl

theorem painter_append {ws' : List (Stroke P C)} :
    painter img (ws ++ ws') = painter (painter img ws) ws' :=
  List.foldl_append

theorem painter_concat : painter img (ws ++ [w]) = paint (painter img ws) w :=
  painter_append

/-- A pixel has nothing from its neighbours. -/
theorem painter_congr {img' : P → C} (h : img p = img' p) :
    painter img ws p = painter img' ws p := by
  induction ws generalizing img img' with
  | nil => exact h
  | cons w ws ih =>
    apply ih
    unfold paint
    rw [h]

theorem painter_of_uncovered (h : ∀ w ∈ ws, w p = none) : painter img ws p = img p := by
  induction ws generalizing img with
  | nil => rfl
  | cons w ws ih =>
    have hrest : painter (paint img w) ws p = paint img w p :=
      ih fun w' hw' => h w' (List.mem_cons_of_mem w hw')
    calc painter img (w :: ws) p = paint img w p := hrest
      _ = img p := by simp [paint, h w List.mem_cons_self]

theorem painter_of_last (hsplit : ws = pre ++ w :: post) (hw : w p = some c)
    (hpost : ∀ w' ∈ post, w' p = none) : painter img ws p = c := by
  have hrest : painter (paint (painter img pre) w) post p = paint (painter img pre) w p :=
    painter_of_uncovered hpost
  have hfold : painter img ws = painter (paint (painter img pre) w) post := by
    rw [hsplit, painter_append]
    rfl
  rw [hfold, hrest, paint, hw]
  rfl

/-! ## Strokes that wipe -/

/-- A clear covers everything; a draw covers what it covers. -/
inductive Layer (P : Type u) (C : Type v)
  | clear (c : C)
  | draw (f : Stroke P C)

def Layer.stroke : Layer P C → Stroke P C
  | .clear c => fun _ => some c
  | .draw f => f

/-- An image after the layers, every draw having wiped it before. -/
def wiping (background : C) (img : P → C) (ls : List (Layer P C)) : P → C :=
  ls.foldl (fun _ l =>
    match l with
    | .clear c => fun _ => c
    | .draw f => paint (fun _ => background) f) img

/-- The layers do not end in a draw, or each pixel that the last draw leaves was last painted in the
    background colour. -/
def Unwiped (background : C) (img : P → C) (ls : List (Layer P C)) : Prop :=
  match ls.getLast? with
  | some (.draw f) =>
    ∀ p, f p = none → painter img (ls.dropLast.map Layer.stroke) p = background
  | _ => True

variable {background : C}

theorem wiping_append {ks ls : List (Layer P C)} :
    wiping background img (ks ++ ls) = wiping background (wiping background img ks) ls :=
  List.foldl_append

theorem wiping_concat {ls : List (Layer P C)} {l : Layer P C} :
    wiping background img (ls ++ [l]) =
      match l with
      | .clear c => fun _ => c
      | .draw f => paint (fun _ => background) f := by
  rw [wiping_append]
  rfl

theorem wiping_eq_painter_iff {ls : List (Layer P C)} :
    wiping background img ls = painter img (ls.map Layer.stroke) ↔ Unwiped background img ls := by
  induction ls using List.reverseRecOn with
  | nil => exact iff_of_true rfl trivial
  | append_singleton ls l _ =>
    unfold Unwiped
    rw [wiping_concat, List.map_append, List.map_singleton, painter_concat, List.getLast?_concat,
      List.dropLast_concat]
    cases l with
    | clear c => exact iff_of_true rfl trivial
    | draw f =>
      constructor
      · intro h p hp
        have hpixel := congrFun h p
        simp only [paint, Layer.stroke, hp, Option.getD_none] at hpixel
        exact hpixel.symm
      · intro h
        funext p
        cases hp : f p with
        | none => simp [paint, Layer.stroke, hp, h p hp]
        | some c => simp [paint, Layer.stroke, hp]

end WinCompat.Lib.Painter
