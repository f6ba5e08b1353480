import Slideshow.Render.Progress

/-! # Running the renderer

A run can be cancelled and has a time limit; whatever happens first decides how it ends. A run that
was cancelled before it started reports nothing. -/

namespace Slideshow

/-- How the renderer behaves when it is run. -/
structure ToolBehaviour where
  /-- Whether there is a renderer at all. -/
  available : Bool
  /-- What it writes at the start. -/
  messages : String
  /-- Seconds for which it goes on after that. -/
  seconds : Float
  /-- The exit code, unless it is killed from outside. -/
  exitCode : Option Int
  /-- Whether it creates its output. -/
  createsOutput : Bool

/-- What a caller allows. -/
structure RunLimits where
  /-- Seconds after which the renderer is stopped. -/
  timeout : Option Nat
  /-- Whether the run was cancelled before it started. -/
  cancelled : Bool

/-- How a run of the renderer ended. -/
inductive RunEnd where
  /-- It exited, with a code unless it was killed from outside. -/
  | exited (code : Option Int)
  | timedOut (seconds : Nat)
  | cancelled
  /-- There was nothing to run. -/
  | missing
deriving Repr, DecidableEq

/-- The result of a run whose messages were gathered. -/
def RunEnd.result (runEnd : RunEnd) (messages : Messages) : Except MediaError Unit :=
  match runEnd with
  | .exited code =>
    if code = some 0 then .ok ()
    else .error (.renderFailed "FFmpeg exited with non-zero status" messages.tailText code)
  | .timedOut seconds => .error (.timedOut seconds)
  | .cancelled => .error .cancelled
  | .missing => .error .rendererMissing

namespace ToolBehaviour

/-- How a run ends. -/
def runEnd (tool : ToolBehaviour) (limits : RunLimits) : RunEnd :=
  if !tool.available then .missing
  else if limits.cancelled then .cancelled
  else match limits.timeout with
    | some t => if Float.ofNat t < tool.seconds then .timedOut t else .exited tool.exitCode
    | none => .exited tool.exitCode

/-- The messages that are read before a run ends: none if it ends at once. -/
def messagesRead (tool : ToolBehaviour) (limits : RunLimits) : Messages :=
  match tool.runEnd limits with
  | .exited _ => .ofLines (linesOf tool.messages)
  | .timedOut t => if t = 0 then {} else .ofLines (linesOf tool.messages)
  | .cancelled | .missing => {}

/-- The result of a run. -/
def result (tool : ToolBehaviour) (limits : RunLimits) : Except MediaError Unit :=
  (tool.runEnd limits).result (tool.messagesRead limits)

/-- Whether the output is there after a run. -/
def leavesOutput (tool : ToolBehaviour) (limits : RunLimits) : Bool :=
  tool.createsOutput && match tool.runEnd limits with
    | .exited _ | .timedOut _ => true
    | .cancelled | .missing => false

/-- The result of a render into a file: an error if the run failed or left no output. -/
def renderResult (tool : ToolBehaviour) (limits : RunLimits) (output : String) :
    Except MediaError Unit := do
  tool.result limits
  if !tool.leavesOutput limits then throw (.fileNotFound output)

end ToolBehaviour

end Slideshow
