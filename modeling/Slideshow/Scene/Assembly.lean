import Slideshow.Scene.Spec
import Slideshow.Filter.Compile

/-! # Putting slides together

Every slide becomes a stream of the same length and frame. Cut and faded slides follow one another.
Slides that move over one another are cut into a lead, a body and a tail:

    slide i:   [ lead | body ............ | tail ]
               0      T                 S-T      S

The tail of a slide and the lead of the next one are overlaid into one transition, and what is shown
is body 0, transition 0, body 1, transition 1 and so on up to the last body. The first slide has no
lead and the last one no tail. When the first slide was shown before, only its tail is used. -/

namespace Slideshow

/-- Slides put together: the graph, its picture, and how long it lasts. -/
structure Scene (α : Type) where
  graph : Graph
  video : Label
  duration : α
deriving Repr

/-- A stretch of a slide, from a start up to a stop. -/
structure Window (α : Type) where
  start : α
  stop : α
deriving Repr, DecidableEq

/-- How long a stretch is. -/
def Window.length {α : Type} [Scalar α] (w : Window α) : α := w.stop - w.start

/-- The stretches that one slide gives. -/
structure SlideWindows (α : Type) where
  lead : Option (Window α)
  body : Option (Window α)
  tail : Option (Window α)
deriving Repr, DecidableEq

/-- The streams cut out of one slide. -/
structure SlideCuts where
  lead : Option Label
  body : Option Label
  tail : Option Label
deriving Repr, DecidableEq

namespace SlideWindows

variable {α : Type} [Scalar α]

/-- The stretches of a slide among several. -/
def ofSlide (s : SceneSpec α) (slides i : Nat) : SlideWindows α :=
  let zero : α := Scalar.ofNat 0
  let edge := s.sceneDuration - s.transitionDuration
  let hasLead := 0 < i
  let hasTail := i + 1 < slides
  let start := if hasLead then s.transitionDuration else zero
  let stop := if hasTail then edge else s.sceneDuration
  let shown := s.continuation && i = 0 && 1 < slides
  { lead := if hasLead then some ⟨zero, s.transitionDuration⟩ else none
    body := if !shown && Scalar.less start stop then some ⟨start, stop⟩ else none
    tail := if hasTail then some ⟨edge, s.sceneDuration⟩ else none }

/-- How many stretches there are. -/
def count (w : SlideWindows α) : Nat :=
  w.lead.toList.length + w.body.toList.length + w.tail.toList.length

end SlideWindows

namespace Scene

variable {α : Type} [Scalar α]

/-- The only stream of a last stage. -/
def single : List Label → Graph.Build Label
  | [l] => pure l
  | ls => throw (.arity .terminalStage 1 ls.length)

/-- The input pictures. -/
def inputs (slides : Nat) : List Label := (List.range slides).map Label.video

/-- Joins pictures at the end of a graph. -/
def join (streams : List Label) : Graph.Build Label := do
  let labels ← Graph.labeler "cat"
  single (← (Filter.concat labels .video streams.length : Filter α).appendTo streams)

/-- Slides one after another. -/
def assembleCut (s : SceneSpec α) (slides : Nat) : Graph.Build (Label × α) := do
  let labels ← Graph.labeler "scn"
  let zoom : List (Expression α) := if s.kind.zooms then [.panZoom s.panZoom] else []
  let fade : List (Expression α) := match s.kind with
    | .fade _ => [.fade s.transitionDuration s.sceneDuration]
    | _ => []
  let parts := [.scale s.width s.height] ++ zoom ++ [.trim s.sceneDuration] ++ fade ++ [.normalize]
  let scenes ← (Filter.combine labels parts 0).appendTo (inputs slides)
  let video ← join (α := α) scenes
  return (video, Scalar.ofNat slides * s.sceneDuration)

/-- Cuts a stretch out of a copy of a slide and zooms it if asked to. -/
def cut (input : Label) (w : Window α) (zoom : Option (PanZoom α)) (slide : Nat) :
    Graph.Build Label := do
  let labels ← Graph.labeler "seg"
  let zoomed : List (Expression α) := match zoom with
    | some z => [.panZoom z, .trim w.length, .normalize]
    | none => []
  let parts := [.segment w.start w.stop, .normalize] ++ zoomed
  single (← (Filter.combine labels parts slide).appendTo [input])

/-- Cuts a stretch, if there is one, out of the next copy; gives the copies left. -/
def cutNext (copies : List Label) (w : Option (Window α)) (zoom : Option (PanZoom α))
    (slide : Nat) : Graph.Build (Option Label × List Label) :=
  match w with
  | none => pure (none, copies)
  | some w =>
    match copies with
    | [] => throw (.arity .segmentSplit 1 0)
    | copy :: rest => do return (some (← cut copy w zoom slide), rest)

/-- Cuts a slide into its stretches. -/
def cutSlide (s : SceneSpec α) (slides i : Nat) (scene : Label) : Graph.Build SlideCuts := do
  let windows := SlideWindows.ofSlide s slides i
  let copies ←
    if 1 < windows.count then do
      let labels ← Graph.labeler "spl"
      (Filter.split labels .video windows.count : Filter α).appendTo [scene]
    else pure [scene]
  let zoom := if s.kind = .slideWipePanZoom then some s.panZoom else none
  let (lead, copies) ← cutNext copies windows.lead none i
  let (body, copies) ← cutNext copies windows.body zoom i
  let (tail, _) ← cutNext copies windows.tail none i
  return ⟨lead, body, tail⟩

/-- Cuts all slides, the first of them at position `i`. -/
def cutSlides (s : SceneSpec α) (slides i : Nat) : List Label → Graph.Build (List SlideCuts)
  | [] => pure []
  | scene :: rest => do
    let first ← cutSlide s slides i scene
    return first :: (← cutSlides s slides (i + 1) rest)

/-- A stream that has to be there. -/
def present : Option Label → Graph.Build Label
  | some l => pure l
  | none => throw (.noInputs .overlayWipe)

/-- The tail of every slide but the last, each followed by the lead of the next slide. -/
def boundaryPairs : List SlideCuts → Graph.Build (List Label)
  | a :: b :: rest => do
    let tail ← present a.tail
    let lead ← present b.lead
    return tail :: lead :: (← boundaryPairs (b :: rest))
  | _ => pure []

/-- Bodies and transitions in turn. -/
def interleave : List (Option Label) → List Label → List Label
  | [], _ => []
  | body :: bodies, [] => body.toList ++ interleave bodies []
  | body :: bodies, transition :: rest => body.toList ++ transition :: interleave bodies rest

/-- How long the bodies last together. -/
def bodiesDuration (s : SceneSpec α) (slides : Nat) : α :=
  (List.range slides).foldl (fun sum i =>
    match (SlideWindows.ofSlide s slides i).body with
    | some w => sum + w.length
    | none => sum) (Scalar.ofNat 0)

/-- Slides moving over one another. -/
def assembleWipe (s : SceneSpec α) (slides : Nat) : Graph.Build (Label × α) := do
  let labels ← Graph.labeler "scn"
  let parts : List (Expression α) := [.scale s.width s.height, .trim s.sceneDuration, .normalize]
  let scenes ← (Filter.combine labels parts 0).appendTo (inputs slides)
  let cuts ← cutSlides s slides 0 scenes
  let pairs ← boundaryPairs cuts
  let transitions ←
    if pairs.isEmpty then pure []
    else do
      let labels ← Graph.labeler "wip"
      (Filter.overlayWipe labels s.transitionDuration s.wipe).appendTo pairs
  let video ← join (α := α) (interleave (cuts.map SlideCuts.body) transitions)
  return (video, bodiesDuration s slides + Scalar.ofNat transitions.length * s.transitionDuration)

/-- Puts the pictures of the first `slides` inputs together. -/
def assemble (s : SceneSpec α) (slides : Nat) : Except GraphError (Scene α) :=
  if slides = 0 then .error (.noInputs .scene)
  else if s.kind.overlaps &&
      Scalar.atMost s.sceneDuration (Scalar.ofNat 2 * s.transitionDuration) then
    let thousand : α := Scalar.ofNat 1000
    .error (.wipeTooLong (Scalar.nearestNat maxWord64 (s.transitionDuration * thousand))
      (Scalar.nearestNat maxWord64 (s.sceneDuration * thousand)))
  else
    let build := if s.kind.overlaps then assembleWipe s slides else assembleCut s slides
    match build.run {} with
    | (.ok (video, duration), graph) => .ok ⟨graph, video, duration⟩
    | (.error e, _) => .error e

end Scene

end Slideshow
