import Slideshow.Render.Plan
import Mathlib.Data.List.Basic

/-! # Reading a command back

The renderer is told first to overwrite the output. Then it reads options with one value each, and
last the output. -/

namespace Slideshow

namespace RenderCommand

/-- Options with their values. -/
def pairs : List String → List (String × String)
  | option :: value :: rest => (option, value) :: pairs rest
  | _ => []

/-- Options with their values, one after another. -/
def flat (settings : List (String × String)) : List String :=
  settings.flatMap fun setting => [setting.1, setting.2]

theorem pairs_flat (settings : List (String × String)) (output : String) :
    pairs (flat settings ++ [output]) = settings := by
  induction settings with
  | nil => rfl
  | cons setting settings ih => exact congrArg (setting :: ·) ih

@[simp] theorem flat_append (xs ys : List (String × String)) :
    flat (xs ++ ys) = flat xs ++ flat ys := List.flatMap_append

/-- The values that an option has among the arguments. -/
def values (args : List String) (option : String) : List String :=
  ((pairs (args.drop 1)).filter fun setting => setting.1 = option).map Prod.snd

end RenderCommand

open RenderCommand

/-- The options of an input come with values, and none of them names a file or speaks of the
output. -/
structure CommandInput.Plain (input : CommandInput) : Prop where
  paired : flat (pairs input.options) = input.options
  own : ∀ setting ∈ pairs input.options, setting.1 ∈ ["-loop", "-framerate", "-t"]

theorem CommandInput.plain_file (path : String) : (CommandInput.file path).Plain where
  paired := rfl
  own := by simp [CommandInput.file, pairs]

theorem Slide.plain_input {α : Type} [Scalar α] (slide : Slide) (seconds : α) :
    (slide.input seconds).Plain := by
  unfold Slide.input
  cases slide.kind with
  | still => exact ⟨rfl, by simp [CommandInput.still, pairs]⟩
  | segment => exact CommandInput.plain_file slide.path

namespace RenderPlan

variable {α : Type} {plan : RenderPlan α}

/-- The streams that are mapped into the output. -/
def mapped (plan : RenderPlan α) : List Label := plan.video :: plan.audio.toList

/-- The options of the command that runs a plan. -/
def settings (plan : RenderPlan α) (encoding : EncodingConfig) : List (String × String) :=
  [("-v", "error"), ("-progress", "pipe:2")] ++
    plan.inputs.flatMap (fun input => pairs input.options ++ [("-i", input.path)]) ++
    [("-filter_complex", plan.graph.render)] ++
    plan.mapped.map (fun l => ("-map", l.mapArg)) ++
    (if plan.copyVideo then [("-c:v", "copy")]
      else [("-c:v", encoding.codec), ("-preset", encoding.preset), ("-crf", toString encoding.crf),
        ("-pix_fmt", encoding.pixelFormat), ("-r", toString framesPerSecond)]) ++
    (if plan.audio.isSome then [("-c:a", encoding.audioCodec), ("-b:a", encoding.audioBitrate)]
      else []) ++
    [("-movflags", "+faststart")]

theorem flat_inputs {inputs : List CommandInput} (h : ∀ input ∈ inputs, input.Plain) :
    flat (inputs.flatMap fun input => pairs input.options ++ [("-i", input.path)]) =
      inputs.flatMap inputArgs := by
  induction inputs with
  | nil => rfl
  | cons input inputs ih =>
      have hrest := ih fun i hi => h i (List.mem_cons_of_mem _ hi)
      rw [List.flatMap_cons, flat_append, flat_append, hrest, (h input List.mem_cons_self).paired]
      rfl

/-- The arguments are the options and the output. -/
theorem args_toCommand (h : ∀ input ∈ plan.inputs, input.Plain) (output : String)
    (encoding : EncodingConfig) : (plan.toCommand output encoding).args =
      "-y" :: (flat (plan.settings encoding) ++ [output]) := by
  unfold settings toCommand mapped
  simp only [flat_append, flat_inputs h]
  cases plan.audio <;> cases plan.copyVideo <;>
    simp [flat, args, RenderCommand.new, addInputs, filterComplex, RenderCommand.map, videoCodec,
      addArgs, EncodingConfig.audioArgs, EncodingConfig.videoArgs]

end RenderPlan

end Slideshow
