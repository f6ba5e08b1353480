import Slideshow.Audio.Catalog
import Slideshow.Media.Probe
import Slideshow.Render.Plan
import Slideshow.Render.Progress
import Slideshow.Report.Basic

/-! # Reports of scenes and renders -/

namespace Slideshow.Report

variable {α : Type}

instance : Report Label := ⟨fun l => out l.name⟩
instance : Report Operation := ⟨fun op => out op.text⟩

instance : Report (AudioFit Float) where
  out fit := .object
    [item "repetitions" fit.repetitions, item "duration" fit.duration,
     item "fade_start" fit.fadeStart, item "fade_length" fit.fadeLength]

instance : Report (Scene Float) where
  out scene := .object
    [item "ops" scene.graph.ops, item "video" scene.video.mapArg, item "duration" scene.duration,
     item "traced" (scene.graph.traceInputs scene.video).length]

instance : Report ZoomDirection where
  out
    | .inward => .string "In"
    | .outward => .string "Out"

instance : Report WipeDirection where
  out
    | .leftToRight => .string "LeftToRight"
    | .topToBottom => .string "TopToBottom"
    | .rightToLeft => .string "RightToLeft"
    | .bottomToTop => .string "BottomToTop"

instance [Report α] : Report (Variants α) where
  out
    | .fixed d => .object [item "fixed" d]
    | .alternate ds => .object [item "alternate" ds]

/-- The text of a catalog. -/
instance : Report (AudioCatalog Float) := ⟨fun c => .string c.toJson.compact⟩

instance : Report MediaInfo where
  out i := .object
    [item "duration" i.duration, item "width" i.width, item "height" i.height,
     item "codec" i.codec]

/-- The report of how far a render of `total` seconds has come. -/
def progress (total : Float) (p : Progress) : Json :=
  .object
    [item "frame" p.frame, item "fps" p.fps, item "out_time_ms" p.outTimeMs,
     item "out_time" p.outTime, item "speed" p.speed, item "is_complete" p.isComplete,
     item "percent" (p.percentage total)]

end Slideshow.Report
