import Slideshow.Local.Directory
import Slideshow.Worker.Handle

/-! # Rendering a directory

The pictures of a directory become a video without queue, record store or object storage. -/

namespace Slideshow.Local

variable {α : Type} [Scalar α]

/-- The options with both sides of the frame fixed by the first picture. -/
def fixSize (options : SceneOptions α) (first : String) : Task α (SceneOptions α) := do
  if options.needsSourceSize then
    let frame ← Task.frameSize first
    let (width, height) := options.resolveSize (some frame)
    return { options with width := some width, height := some height }
  else return options

/-- Renders pictures into a file, with a track if the options ask for it; gives the length of the
video. A track that cannot be fetched is an error here. -/
def renderPictures (w : Workplace) (pictures : List String) (output : String)
    (options : SceneOptions α) : Task α α := do
  match pictures with
  | [] => throw (.invalidRequest .empty)
  | first :: _ =>
    let options ← fixSize options first
    let plan ← Task.ofMedia (Worker.slideshowPlan pictures options w.words)
    let length := plan.duration.getD (Scalar.ofNat 0)
    let plan ←
      if options.audio then do
        match ← Worker.trackFor w length with
        | some (track, native) =>
          let (plan, _) ← Task.ofMedia (plan.withAudio track native)
          pure plan
        | none => pure plan
      else pure plan
    Task.render plan output
    return length

/-- Renders the pictures of a directory. -/
def renderDirectory (w : Workplace) (directory : String) (entries : List DirectoryEntry)
    (output : String) (options : SceneOptions α) : Task α α :=
  renderPictures w ((imageNames entries).map fun name => directory ++ "/" ++ name) output options

end Slideshow.Local
