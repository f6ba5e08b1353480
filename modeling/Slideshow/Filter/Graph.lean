import Slideshow.Decimal.Layout

/-! # Filter graphs

A filter graph is the ordered list of operations that a renderer runs. Every operation takes
labelled streams and gives new ones. The graph refuses an operation that takes a stream which no
operation has given yet, takes a stream twice, or gives a label that is already used. -/

namespace Slideshow

/-- The name of a stream. -/
structure Label where
  name : String
deriving Repr, DecidableEq

namespace Label

/-- The picture of an input. -/
def video (input : Nat) : Label := ⟨Decimal.natText input ++ ":v"⟩

/-- The sound of an input. -/
def audio (input : Nat) : Label := ⟨Decimal.natText input ++ ":a"⟩

/-- Whether the stream belongs to an input and not to an operation. -/
def isInput (l : Label) : Bool := l.name.toList.contains ':'

/-- The stream between brackets. -/
def bracketed (l : Label) : String := "[" ++ l.name ++ "]"

/-- The stream as an argument that maps it into the output. -/
def mapArg (l : Label) : String := if l.isInput then l.name else l.bracketed

end Label

/-- The labels of one filter: a stem, and the stem with a number for all streams but the first. -/
structure Labeler where
  stem : String
deriving Repr, DecidableEq

/-- The label of a stream. -/
def Labeler.label (l : Labeler) (i : Nat) : Label :=
  if i = 0 then ⟨l.stem⟩ else ⟨l.stem ++ "_" ++ Decimal.natText i⟩

/-- What an error names as the place where it arose. -/
inductive Primitive where
  | operation
  | scene
  | split
  | audioLoop
  | concat
  | overlayWipe
  | combine
  | segmentSplit
  | terminalStage
deriving Repr, DecidableEq

def Primitive.text : Primitive → String
  | .operation => "operation"
  | .scene => "scene"
  | .split => "split"
  | .audioLoop => "audio loop"
  | .concat => "concat"
  | .overlayWipe => "overlay wipe"
  | .combine => "combine"
  | .segmentSplit => "segment split"
  | .terminalStage => "terminal stage"

/-- Why a graph cannot be built. -/
inductive GraphError where
  | noInputs (primitive : Primitive)
  | arity (primitive : Primitive) (expected actual : Nat)
  | duplicateLabel (label : String)
  | unknownLabel (label : String)
  | labelReused (label : String)
  | noOutputs
  | wipeTooLong (transitionMs sceneMs : Nat)
  /-- A variant was to be chosen where there is none. -/
  | noVariants
deriving Repr, DecidableEq

def GraphError.kind : GraphError → String
  | .noInputs _ => "NoInputs"
  | .arity _ _ _ => "Arity"
  | .duplicateLabel _ => "DuplicateLabel"
  | .unknownLabel _ => "UnknownLabel"
  | .labelReused _ => "LabelReused"
  | .noOutputs => "NoOutputs"
  | .wipeTooLong _ _ => "WipeTooLong"
  | .noVariants => "NoVariants"

def GraphError.message : GraphError → String
  | .noInputs primitive => primitive.text ++ " received no input streams"
  | .arity primitive expected actual =>
    primitive.text ++ " expects " ++ Decimal.natText expected ++ " input streams, got " ++
      Decimal.natText actual
  | .duplicateLabel label => "Stream label '" ++ label ++ "' is produced twice"
  | .unknownLabel label => "Stream label '" ++ label ++ "' is consumed before it is produced"
  | .labelReused label => "Stream label '" ++ label ++ "' is consumed twice"
  | .noOutputs => "Operation has no outputs"
  | .wipeTooLong transitionMs sceneMs =>
    "Wipe of " ++ Decimal.natText transitionMs ++ "ms leaves no room in a " ++
      Decimal.natText sceneMs ++ "ms slide"
  | .noVariants => "There is no variant to choose"

/-- One operation of a graph. -/
structure Operation where
  inputs : List Label
  expression : String
  outputs : List Label
deriving Repr, DecidableEq

/-- The inputs, the expression and the outputs, one after another. -/
def Operation.text (op : Operation) : String :=
  String.join (op.inputs.map Label.bracketed) ++ op.expression ++
    String.join (op.outputs.map Label.bracketed)

/-- What a filter compiles to: operations, and the streams they leave. -/
structure Stage where
  ops : List Operation
  outputs : List Label
deriving Repr, DecidableEq

/-- The operations recorded so far, and the labels they have used. A label stays used when an
operation that named it was refused. -/
structure Graph where
  ops : List Operation := []
  produced : List Label := []
  consumed : List Label := []
  /-- How many labelers were handed out. -/
  stages : Nat := 0
deriving Repr, DecidableEq

namespace Graph

/-- Building a graph: what was recorded before an error stays recorded. -/
abbrev Build := ExceptT GraphError (StateM Graph)

/-- A labeler with a stem that no other labeler of this graph has. -/
def labeler (stem : String) : StateM Graph Labeler := fun g =>
  (⟨stem ++ Decimal.natText g.stages⟩, { g with stages := g.stages + 1 })

/-- Takes streams, one after another. -/
def consume : List Label → Graph → Except GraphError Unit × Graph
  | [], g => (.ok (), g)
  | l :: rest, g =>
    if l.isInput then consume rest g
    else if !g.produced.contains l then (.error (.unknownLabel l.name), g)
    else if g.consumed.contains l then (.error (.labelReused l.name), g)
    else consume rest { g with consumed := l :: g.consumed }

/-- Gives streams, one after another. -/
def produce : List Label → Graph → Except GraphError Unit × Graph
  | [], g => (.ok (), g)
  | l :: rest, g =>
    if l.isInput || g.produced.contains l then (.error (.duplicateLabel l.name), g)
    else produce rest { g with produced := l :: g.produced }

/-- Adds an operation after checking its labels. -/
def push (op : Operation) : Build Unit := fun g =>
  if op.inputs.isEmpty then (.error (.noInputs .operation), g)
  else if op.outputs.isEmpty then (.error .noOutputs, g)
  else
    match consume op.inputs g with
    | (.error e, g) => (.error e, g)
    | (.ok (), g) =>
      match produce op.outputs g with
      | (.error e, g) => (.error e, g)
      | (.ok (), g) => (.ok (), { g with ops := g.ops ++ [op] })

/-- Adds operations until one is refused. -/
def pushAll : List Operation → Build Unit
  | [] => pure ()
  | op :: rest => do
    push op
    pushAll rest

/-- Adds the operations of a stage and gives its streams. -/
def append (stage : Stage) : Build (List Label) := do
  pushAll stage.ops
  return stage.outputs

/-- The text of a graph. -/
def render (g : Graph) : String := ";".intercalate (g.ops.map Operation.text)

end Graph

/-! ## Tracing streams back -/

/-- How far the search for the inputs of a stream has come. -/
structure Search where
  /-- Streams that are still to be followed, the next one first. -/
  pending : List Label
  /-- Streams that were followed. -/
  seen : List Label := []
  /-- The inputs among them. -/
  found : List Label := []
deriving Repr, DecidableEq

namespace Search

/-- The operation that gives a stream, the last one if there are several. -/
def producer? (ops : List Operation) (l : Label) : Option Operation :=
  ops.reverse.find? fun op => op.outputs.contains l

/-- Follows the next stream to what its operation takes, unless it was followed before. -/
def step (ops : List Operation) (s : Search) : Search :=
  match s.pending with
  | [] => s
  | l :: pending =>
    if s.seen.contains l then { s with pending }
    else if l.isInput then { pending, seen := l :: s.seen, found := l :: s.found }
    else
      match producer? ops l with
      | some op => { s with pending := op.inputs.reverse ++ pending, seen := l :: s.seen }
      | none => { s with pending, seen := l :: s.seen }

/-- How many streams may still be found pending when each stream that was not seen asks for all
that its operation takes. -/
def owed (seen : List Label) : List Operation → Nat
  | [] => 0
  | op :: rest =>
    (op.outputs.filter fun l => !seen.contains l).length * op.inputs.length + owed seen rest

/-- A bound on the streams that are still to be followed. -/
def budget (ops : List Operation) (s : Search) : Nat := s.pending.length + owed s.seen ops

theorem filter_seen_cons (l : Label) (seen outputs : List Label) :
    (outputs.filter fun l' => !(l :: seen).contains l') =
      (outputs.filter fun l' => !seen.contains l').filter fun l' => l' != l := by
  rw [List.filter_filter]
  refine List.filter_congr fun l' _ => ?_
  rw [List.contains_cons, Bool.not_or, bne]

/-- Nothing more is owed once a stream was seen. -/
theorem owed_cons_le (l : Label) (seen : List Label) (ops : List Operation) :
    owed (l :: seen) ops ≤ owed seen ops := by
  induction ops with
  | nil => exact Nat.le_refl _
  | cons op rest ih =>
    rw [owed, owed, filter_seen_cons]
    exact Nat.add_le_add (Nat.mul_le_mul_right _ (List.length_filter_le ..)) ih

/-- What the operation of a stream takes is owed until the stream was seen. -/
theorem owed_cons_add_le {l : Label} {seen : List Label} {op : Operation} {ops : List Operation}
    (hop : op ∈ ops) (hl : l ∈ op.outputs) (hnew : l ∉ seen) :
    owed (l :: seen) ops + op.inputs.length ≤ owed seen ops := by
  induction ops with
  | nil => cases hop
  | cons op' rest ih =>
    rw [owed, owed, filter_seen_cons]
    rcases List.mem_cons.mp hop with rfl | hop
    · have hfewer : ((op.outputs.filter fun l' => !seen.contains l').filter
          fun l' => l' != l).length < (op.outputs.filter fun l' => !seen.contains l').length :=
        List.length_filter_lt_length_iff_exists.mpr ⟨l, by simp [hl, hnew], by simp⟩
      have hproduct := Nat.mul_le_mul_right op.inputs.length hfewer
      rw [Nat.succ_mul] at hproduct
      have := owed_cons_le l seen rest
      omega
    · have := ih hop
      have hproduct := Nat.mul_le_mul_right op'.inputs.length (List.length_filter_le
        (fun l' => l' != l) (op'.outputs.filter fun l' => !seen.contains l'))
      omega

/-- Every step of a search that is not over makes the bound smaller. -/
theorem budget_step_lt {ops : List Operation} {s : Search} (h : s.pending.isEmpty = false) :
    (s.step ops).budget ops < s.budget ops := by
  unfold step
  split
  · rename_i hnil
    simp [hnil] at h
  · rename_i l pending hpending
    have hle := owed_cons_le l s.seen ops
    split
    · simp [budget, hpending]
    · rename_i hseen
      split
      · simp only [budget, hpending, List.length_cons]
        omega
      · split
        · rename_i op hop
          have hmem := List.mem_reverse.mp (List.mem_of_find?_eq_some hop)
          have hout : l ∈ op.outputs := by simpa using List.find?_some hop
          have hpaid := owed_cons_add_le hmem hout (by simpa using hseen)
          simp only [budget, hpending, List.length_cons, List.length_append, List.length_reverse]
          omega
        · simp only [budget, hpending, List.length_cons]
          omega

/-- Follows streams until none is pending. -/
def run (ops : List Operation) (s : Search) : Search :=
  if s.pending.isEmpty then s else (s.step ops).run ops
termination_by s.budget ops
decreasing_by exact budget_step_lt (by simpa using ‹¬ s.pending.isEmpty = true›)

end Search

/-- The input streams that a stream depends on, in order of their names. -/
def Graph.traceInputs (g : Graph) (l : Label) : List Label :=
  let search := Search.run g.ops { pending := [l] }
  (search.found.map Label.name).mergeSort.map Label.mk

end Slideshow
