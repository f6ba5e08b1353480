import Slideshow.Json.Decoder
import Slideshow.Options.Basic

/-! # Scene options as a JSON document

Every member may be left out; some names have an older spelling that is still read. Widths and
heights that were not asked for are not written. -/

namespace Slideshow

open Json (Decoder Record)

def Effect.text : Effect → String
  | .none => "none"
  | .panZoom => "pan-zoom"

def Effect.names : List (Effect × List String) :=
  [(.none, ["none"]), (.panZoom, ["pan-zoom", "zoompan"])]

def Transition.text : Transition → String
  | .none => "none"
  | .fade => "fade"
  | .slideWipe => "slide-wipe"
  | .slideWipeWithPanZoom => "slide-wipe-with-pan-zoom"

def Transition.names : List (Transition × List String) :=
  [(.none, ["none"]), (.fade, ["fade", "fadeinout"]), (.slideWipe, ["slide-wipe", "slidein"]),
   (.slideWipeWithPanZoom, ["slide-wipe-with-pan-zoom", "slidein-zoompan"])]

def WipeMode.text : WipeMode → String
  | .alternate => "alternate"
  | .random => "random"
  | .leftToRight => "left-to-right"
  | .topToBottom => "top-to-bottom"
  | .rightToLeft => "right-to-left"
  | .bottomToTop => "bottom-to-top"

def WipeMode.names : List (WipeMode × List String) :=
  [.alternate, .random, .leftToRight, .topToBottom, .rightToLeft, .bottomToTop].map
    fun mode => (mode, [mode.text])

def ZoomMode.text : ZoomMode → String
  | .alternate => "alternate"
  | .random => "random"
  | .inward => "in"
  | .outward => "out"

def ZoomMode.names : List (ZoomMode × List String) :=
  [.alternate, .random, .inward, .outward].map fun mode => (mode, [mode.text])

def BatchContinuation.text : BatchContinuation → String
  | .none => "none"
  | .initial => "initial"
  | .continuation => "continuation"

def BatchContinuation.names : List (BatchContinuation × List String) :=
  [.none, .initial, .continuation].map fun place => (place, [place.text])

namespace SceneOptions

def record : Record (SceneOptions Float) :=
  let o : SceneOptions Float := standard
  pure SceneOptions.mk
    <*> .defaulted "scene_duration" .float o.sceneDuration
    <*> .defaulted "transition_duration" .float o.transitionDuration
    <*> .optional "width" (.unsigned 32)
    <*> .optional "height" (.unsigned 32)
    <*> .defaulted "effect" (.enumeration Effect.names) o.effect
    <*> .defaulted "transition" (.enumeration Transition.names) o.transition
    <*> .defaulted "wipe_direction" (.enumeration WipeMode.names) o.wipeDirection
    <*> .defaulted "zoom_direction" (.enumeration ZoomMode.names) o.zoomDirection
    <*> .defaulted "audio" .bool o.audio
    <*> .defaulted "batch_continuation" (.enumeration BatchContinuation.names) o.batchContinuation
    <*> .defaulted "batch_mode" .bool o.batchMode

def decoder : Decoder (SceneOptions Float) := record.decoder "SceneOptions"

def toJson (o : SceneOptions Float) : Json :=
  .object <|
    [("scene_duration", .real o.sceneDuration), ("transition_duration", .real o.transitionDuration)]
    ++ Json.member? "width" (o.width.map fun n => .integer n)
    ++ Json.member? "height" (o.height.map fun n => .integer n)
    ++ [("effect", .string o.effect.text),
      ("transition", .string o.transition.text),
      ("wipe_direction", .string o.wipeDirection.text),
      ("zoom_direction", .string o.zoomDirection.text),
      ("audio", .bool o.audio),
      ("batch_continuation", .string o.batchContinuation.text),
      ("batch_mode", .bool o.batchMode)]

end SceneOptions

end Slideshow
