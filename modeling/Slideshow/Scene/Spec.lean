import Slideshow.Options.Basic
import Slideshow.Filter.Expression

/-! # Scenes

What has to be known before slides are put together: the kind of scene, its timing and frame, and
the directions in which zooms and wipes go. -/

namespace Slideshow

/-- The kinds of scenes. -/
inductive SceneKind where
  | plain
  | panZoom
  | fade (panZoom : Bool)
  | slideWipe
  | slideWipePanZoom
deriving Repr, DecidableEq

namespace SceneKind

/-- The kind that options ask for; a transition without duration is a hard cut. -/
def ofOptions {α : Type} [Scalar α] (o : SceneOptions α) : SceneKind :=
  let zooms := o.effect = .panZoom
  let cut := if zooms then panZoom else plain
  if Scalar.less (Scalar.ofNat 0) o.transitionDuration then
    match o.transition with
    | .none => cut
    | .fade => .fade zooms
    | .slideWipe => if zooms then .slideWipePanZoom else .slideWipe
    | .slideWipeWithPanZoom => .slideWipePanZoom
  else cut

/-- Whether consecutive slides share a stretch of time. -/
def overlaps : SceneKind → Bool
  | .slideWipe | .slideWipePanZoom => true
  | .plain | .panZoom | .fade _ => false

/-- Whether slides are zoomed. -/
def zooms : SceneKind → Bool
  | .panZoom | .fade true | .slideWipePanZoom => true
  | .plain | .fade false | .slideWipe => false

end SceneKind

/-- Everything that decides how slides are put together. -/
structure SceneSpec (α : Type) where
  kind : SceneKind
  sceneDuration : α
  transitionDuration : α
  width : Nat
  height : Nat
  /-- Whether the first slide repeats one that was shown before. -/
  continuation : Bool
  maxZoom : α
  zoom : Variants ZoomDirection
  wipe : Variants WipeDirection
deriving Repr, DecidableEq

namespace SceneSpec

variable {α : Type} [Scalar α]

/-- The zoom directions of a mode. -/
def zoomVariants (mode : ZoomMode) (words : Words) : Variants ZoomDirection × Words :=
  match mode with
  | .alternate => (.alternate ZoomDirection.all, words)
  | .inward => (.fixed .inward, words)
  | .outward => (.fixed .outward, words)
  | .random => (Variants.random ZoomDirection.all words).getD (.fixed .inward, words)

/-- The wipe directions of a mode. -/
def wipeVariants (mode : WipeMode) (words : Words) : Variants WipeDirection × Words :=
  match mode with
  | .alternate => (.alternate WipeDirection.all, words)
  | .leftToRight => (.fixed .leftToRight, words)
  | .topToBottom => (.fixed .topToBottom, words)
  | .rightToLeft => (.fixed .rightToLeft, words)
  | .bottomToTop => (.fixed .bottomToTop, words)
  | .random => (Variants.random WipeDirection.all words).getD (.fixed .leftToRight, words)

/-- The scene that options ask for in a frame. Random directions are drawn here, for zooms before
wipes. -/
def ofOptions (o : SceneOptions α) (size : Nat × Nat) (words : Words) : SceneSpec α :=
  let (zoom, words) := zoomVariants o.zoomDirection words
  let (wipe, _) := wipeVariants o.wipeDirection words
  { kind := .ofOptions o
    sceneDuration := o.sceneDuration
    transitionDuration := o.transitionDuration
    width := size.1
    height := size.2
    continuation := o.batchContinuation.isContinuation
    maxZoom := PanZoom.standardMaxZoom
    zoom, wipe }

/-- Seconds for which a slide is seen without another one. -/
def visible (s : SceneSpec α) : α :=
  if s.kind.overlaps then s.sceneDuration - s.transitionDuration else s.sceneDuration

/-- The frames over which a zoom is spread. -/
def panZoomFrames (s : SceneSpec α) : Nat :=
  Scalar.ceilNat maxWord32 (s.visible * Scalar.ofNat framesPerSecond)

/-- Whether the first slide is needed. A repeated slide is needed only as what the second one moves
over. -/
def usesOverlapSlide (s : SceneSpec α) : Bool := !s.continuation || s.kind.overlaps

/-- The zoom of a slide. -/
def panZoom (s : SceneSpec α) : PanZoom α :=
  ⟨s.maxZoom, s.panZoomFrames, s.width, s.height, s.zoom⟩

end SceneSpec

end Slideshow
