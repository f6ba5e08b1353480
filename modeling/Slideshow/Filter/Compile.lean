import Slideshow.Filter.Expression

/-! # Filters

A filter takes a list of streams and compiles to the operations that turn them into others. Filters
that change the number of streams (splitting, joining, overlaying) stand beside those that treat
every stream alike, and chains of both. -/

namespace Slideshow

/-- Whether streams are pictures or sounds. -/
inductive StreamKind where
  | video
  | audio
deriving Repr, DecidableEq

/-- What can be done to a list of streams. -/
inductive Filter (α : Type) where
  /-- Copies of every stream. -/
  | split (labels : Labeler) (kind : StreamKind) (copies : Nat)
  /-- Copies of one sound, to be joined. -/
  | audioLoop (labels : Labeler) (repetitions : Nat)
  /-- All streams one after another. -/
  | concat (labels : Labeler) (kind : StreamKind) (count : Nat)
  /-- Of each pair of streams, the second moves over the first. -/
  | overlayWipe (labels : Labeler) (duration : α) (directions : Variants WipeDirection)
  /-- The same parts for every stream; `first` is the position of the first one. -/
  | combine (labels : Labeler) (parts : List (Expression α)) (first : Nat)
  /-- One filter after another. -/
  | chain (stages : List (Filter α))
deriving Repr

namespace Filter

variable {α : Type} [Scalar α]

/-- The operation that copies a stream. -/
def splitName : StreamKind → String
  | .video => "split"
  | .audio => "asplit"

/-- Copies every stream. -/
def compileSplit (labels : Labeler) (kind : StreamKind) (copies : Nat) (inputs : List Label) :
    Except GraphError Stage :=
  if inputs.isEmpty then .error (.noInputs .split)
  else if copies = 0 then .error .noOutputs
  else
    let ops : List Operation := inputs.zipIdx.map fun (input, i) =>
      { inputs := [input]
        expression := splitName kind ++ "=" ++ Decimal.natText copies
        outputs := (List.range copies).map fun c => labels.label (i * copies + c) }
    .ok ⟨ops, ops.flatMap Operation.outputs⟩

/-- Joins streams. -/
def compileConcat (labels : Labeler) (kind : StreamKind) (count : Nat) (inputs : List Label) :
    Except GraphError Stage :=
  if inputs.isEmpty then .error (.noInputs .concat)
  else if inputs.length ≠ count then .error (.arity .concat count inputs.length)
  else
    let kinds := match kind with
      | .video => ":v=1:a=0"
      | .audio => ":v=0:a=1"
    let output := labels.label 0
    .ok ⟨[⟨inputs, "concat=n=" ++ Decimal.natText count ++ kinds, [output]⟩], [output]⟩

/-- Where the moving picture is after `t` seconds. -/
def position (duration : α) : WipeDirection → String
  | .leftToRight => "x='min(-w+t*w/" ++ Scalar.filterText duration ++ ",0)':y=0"
  | .topToBottom => "x=0:y='min(-h+t*h/" ++ Scalar.filterText duration ++ ",0)'"
  | .rightToLeft => "x='max(w-t*w/" ++ Scalar.filterText duration ++ ",0)':y=0"
  | .bottomToTop => "x=0:y='max(h-t*h/" ++ Scalar.filterText duration ++ ",0)'"

/-- Overlays the pairs of a list, the first of them at position `i`. -/
def overlayPairs (labels : Labeler) (duration : α) (directions : Variants WipeDirection) (i : Nat) :
    List Label → Except GraphError (List Operation)
  | below :: above :: rest => do
    let direction ← directions.pick i
    let op : Operation :=
      { inputs := [below, above]
        expression := "overlay=" ++ position duration direction ++ ":shortest=1"
        outputs := [labels.label i] }
    return op :: (← overlayPairs labels duration directions (i + 1) rest)
  | _ => .ok []

/-- Overlays pairs of streams. -/
def compileOverlay (labels : Labeler) (duration : α) (directions : Variants WipeDirection)
    (inputs : List Label) : Except GraphError Stage :=
  if inputs.isEmpty then .error (.noInputs .overlayWipe)
  else if inputs.length % 2 ≠ 0 then .error (.arity .overlayWipe (inputs.length + 1) inputs.length)
  else do
    let ops ← overlayPairs labels duration directions 0 inputs
    return ⟨ops, ops.flatMap Operation.outputs⟩

/-- Treats every stream alike. -/
def compileCombine (labels : Labeler) (parts : List (Expression α)) (first : Nat)
    (inputs : List Label) : Except GraphError Stage :=
  if inputs.isEmpty then .error (.noInputs .combine)
  else if parts.isEmpty then .error .noOutputs
  else do
    let ops ← inputs.zipIdx.mapM fun (input, i) => do
      let expression ← (Expression.sequence parts).text (first + i)
      return ({ inputs := [input], expression, outputs := [labels.label i] } : Operation)
    return ⟨ops, ops.flatMap Operation.outputs⟩

mutual

/-- The operations of a filter on some streams. -/
def compile (inputs : List Label) : Filter α → Except GraphError Stage
  | .split labels kind copies => compileSplit labels kind copies inputs
  | .audioLoop labels repetitions =>
    if inputs.length ≠ 1 then .error (.arity .audioLoop 1 inputs.length)
    else compileSplit labels .audio repetitions inputs
  | .concat labels kind count => compileConcat labels kind count inputs
  | .overlayWipe labels duration directions => compileOverlay labels duration directions inputs
  | .combine labels parts first => compileCombine labels parts first inputs
  | .chain stages => compileChain inputs stages

/-- Each filter takes the streams that the one before it left. -/
def compileChain (inputs : List Label) : List (Filter α) → Except GraphError Stage
  | [] => .ok ⟨[], inputs⟩
  | stage :: rest => do
    let first ← stage.compile inputs
    let last ← compileChain first.outputs rest
    return ⟨first.ops ++ last.ops, last.outputs⟩

end

/-- Compiles a filter and adds its operations to the graph. -/
def appendTo (filter : Filter α) (inputs : List Label) : Graph.Build (List Label) := do
  let stage ← (filter.compile inputs : Except GraphError Stage)
  Graph.append stage

end Filter

end Slideshow
