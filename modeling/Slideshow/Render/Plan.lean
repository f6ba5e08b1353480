import Slideshow.Media.Error
import Slideshow.Audio.Fit
import Slideshow.Scene.Assembly
import Slideshow.Render.Command

/-! # Render plans

A plan binds a filter graph to files. Slides are put together into a video, parts of a video are
joined, and a finished video gets a track without being encoded again. -/

namespace Slideshow

/-- How a slide is given to the renderer. -/
inductive SlideKind where
  /-- A picture, shown as long as a scene lasts. -/
  | still
  /-- A video, used as it is. -/
  | segment
deriving Repr, DecidableEq

/-- One file of the timeline. -/
structure Slide where
  path : String
  kind : SlideKind
deriving Repr, DecidableEq

/-- A slide as an input. -/
def Slide.input {α : Type} [Scalar α] (s : Slide) (sceneDuration : α) : CommandInput :=
  match s.kind with
  | .still => .still s.path framesPerSecond sceneDuration
  | .segment => .file s.path

/-- A render that is ready to run. -/
structure RenderPlan (α : Type) where
  inputs : List CommandInput
  graph : Graph
  video : Label
  audio : Option Label
  /-- Whether the video is copied and not encoded. -/
  copyVideo : Bool
  /-- How long the output will be, where the graph tells. -/
  duration : Option α
deriving Repr

namespace RenderPlan

variable {α : Type} [Scalar α]

/-- The slides that a scene needs: all, or all but a repeated first one. -/
def neededSlides (slides : List Slide) (spec : SceneSpec α) : List Slide :=
  if !spec.usesOverlapSlide && 1 < slides.length then slides.drop 1 else slides

/-- Slides put together into a video. -/
def slideshow (slides : List Slide) (spec : SceneSpec α) : Except MediaError (RenderPlan α) := do
  let slides := neededSlides slides spec
  let scene ← (Scene.assemble spec slides.length).mapError .graph
  return { inputs := slides.map fun s => s.input spec.sceneDuration
           graph := scene.graph
           video := scene.video
           audio := none
           copyVideo := false
           duration := some scene.duration }

/-- The operations that join a number of pictures. -/
def joinParts (count : Nat) : Graph.Build (List Label) := do
  let labels ← Graph.labeler "join"
  (Filter.concat labels .video count : Filter α).appendTo (Scene.inputs count)

/-- Parts of a video, one after another. -/
def concat (segments : List String) : Except MediaError (RenderPlan α) :=
  if segments.isEmpty then .error (.invalidMedia "no segments to join")
  else match (joinParts (α := α) segments.length).run {} with
    | (.error e, _) => .error (.graph e)
    | (.ok [video], graph) =>
      .ok { inputs := segments.map .file, graph, video, audio := none, copyVideo := false
            duration := none }
    | (.ok outputs, _) =>
      .error (.internal ("expected one output stream, got " ++ Decimal.natText outputs.length))

/-- A video with a track fitted to `target` seconds under it. -/
def remuxWithAudio (video track : String) (native target : α) :
    Except MediaError (RenderPlan α × AudioFit α) :=
  match (AudioFit.apply (Label.audio 1) native target).run {} with
  | (.error e, _) => .error (.graph e)
  | (.ok (audio, fit), graph) =>
    .ok ({ inputs := [.file video, .file track], graph, video := Label.video 0, audio := some audio
           copyVideo := true, duration := some target }, fit)

/-- The plan with a track fitted to its own duration. -/
def withAudio (plan : RenderPlan α) (track : String) (native : α) :
    Except MediaError (RenderPlan α × AudioFit α) :=
  match plan.duration with
  | none => .error (.internal "audio needs a plan with a known duration")
  | some target =>
    match (AudioFit.apply (Label.audio plan.inputs.length) native target).run plan.graph with
    | (.error e, _) => .error (.graph e)
    | (.ok (audio, fit), graph) =>
      .ok ({ plan with inputs := plan.inputs ++ [.file track], graph, audio := some audio }, fit)

/-- The command that runs a plan. -/
def toCommand (plan : RenderPlan α) (output : String) (encoding : EncodingConfig) : RenderCommand :=
  let command := (RenderCommand.new output).addInputs plan.inputs
    |>.filterComplex plan.graph.render
    |>.map plan.video.mapArg
  let command := match plan.audio with
    | some audio => command.map audio.mapArg
    | none => command
  let command :=
    if plan.copyVideo then command.videoCodec "copy" else command.addArgs encoding.videoArgs
  let command := if plan.audio.isSome then command.addArgs encoding.audioArgs else command
  command.addArgs ["-movflags", "+faststart"]

end RenderPlan

end Slideshow
