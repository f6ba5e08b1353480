import Slideshow.Scalar
import Slideshow.Encoding

/-! # Command lines of the renderer

A command names its inputs, each after the options that belong to it, then what is done with them,
and last the output. -/

namespace Slideshow

/-- An input with the options in front of it. -/
structure CommandInput where
  options : List String
  path : String
deriving Repr, DecidableEq

namespace CommandInput

/-- A file as it is. -/
def file (path : String) : CommandInput := ⟨[], path⟩

/-- A picture shown for some seconds. -/
def still {α : Type} [Scalar α] (path : String) (fps : Nat) (seconds : α) : CommandInput :=
  ⟨["-loop", "1", "-framerate", Decimal.natText fps, "-t", Scalar.inputText seconds], path⟩

end CommandInput

/-- A command under construction. -/
structure RenderCommand where
  inputs : List CommandInput
  outputArgs : List String
  output : String
  logLevel : String
deriving Repr, DecidableEq

namespace RenderCommand

/-- A command without inputs. -/
def new (output : String) : RenderCommand := ⟨[], [], output, "error"⟩

/-- Adds inputs. -/
def addInputs (c : RenderCommand) (inputs : List CommandInput) : RenderCommand :=
  { c with inputs := c.inputs ++ inputs }

/-- Adds arguments for the output. -/
def addArgs (c : RenderCommand) (args : List String) : RenderCommand :=
  { c with outputArgs := c.outputArgs ++ args }

def filterComplex (c : RenderCommand) (graph : String) : RenderCommand :=
  c.addArgs ["-filter_complex", graph]

/-- Maps a stream into the output. -/
def map (c : RenderCommand) (stream : String) : RenderCommand := c.addArgs ["-map", stream]

def videoCodec (c : RenderCommand) (codec : String) : RenderCommand := c.addArgs ["-c:v", codec]

def audioCodec (c : RenderCommand) (codec : String) : RenderCommand := c.addArgs ["-c:a", codec]

/-- Ends the output with its shortest stream. -/
def shortest (c : RenderCommand) : RenderCommand := c.addArgs ["-shortest"]

/-- Sets how much the renderer says. -/
def withLogLevel (c : RenderCommand) (level : String) : RenderCommand :=
  { c with logLevel := level }

/-- The arguments that name an input. -/
def inputArgs (input : CommandInput) : List String := input.options ++ ["-i", input.path]

/-- All arguments. An output that exists is overwritten, and progress is reported among the
messages. -/
def args (c : RenderCommand) : List String :=
  ["-y", "-v", c.logLevel, "-progress", "pipe:2"] ++ c.inputs.flatMap inputArgs ++ c.outputArgs ++
    [c.output]

end RenderCommand

end Slideshow
