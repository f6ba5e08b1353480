import Slideshow.Decimal.Reader
import Slideshow.Media.Error
import Slideshow.Text.Blank

/-! # Progress of a render

Among its messages the renderer reports progress as lines of a key and a value. Those lines feed the
reports; of all others the last ones are kept to explain a failure. -/

namespace Slideshow

/-- How far a render has come. -/
structure Progress where
  frame : Nat := 0
  fps : Float := 0.0
  /-- Milliseconds of output. -/
  outTimeMs : Int := 0
  /-- The same as the renderer writes it. -/
  outTime : String := ""
  speed : Float := 0.0
  isComplete : Bool := false

namespace Progress

/-- The share of a length in seconds, in percent, at most 100. -/
def percentage (p : Progress) (totalSeconds : Float) : Float :=
  if totalSeconds ≤ 0.0 then 0.0
  else
    let share := Float.ofInt p.outTimeMs / 1000.0 / totalSeconds * 100.0
    if share.isNaN || 100.0 < share then 100.0 else share

/-- The keys that a progress line may have. -/
def keys : List String :=
  ["frame", "fps", "stream_0_0_q", "bitrate", "total_size", "out_time_us", "out_time_ms",
   "out_time", "dup_frames", "drop_frames", "speed", "progress"]

/-- Key and value of a line, at its first equals sign. -/
def split? (line : String) : Option (String × String) :=
  (Text.cut? '=' (Text.trimmed line.toList)).map fun (key, value) =>
    (String.ofList key, String.ofList value)

/-- Whether a line reports progress. -/
def isProgressLine (line : String) : Bool :=
  match split? line with
  | some (key, _) => keys.contains key
  | none => false

/-- A 64-bit signed integer. -/
def int64? (text : String) : Option Int :=
  (Decimal.int? text).filter fun n => Int64.minValue.toInt ≤ n && n ≤ Int64.maxValue.toInt

/-- A speed such as `1.5x`. -/
def speed? (text : String) : Option Float :=
  match text.toList.reverse with
  | 'x' :: rest => Decimal.float? (String.ofList (Text.trimmed rest.reverse))
  | _ => none

/-- What is known after a key and its value; a value that cannot be read changes nothing. -/
def update (p : Progress) (key value : String) : Progress :=
  match key with
  | "out_time_ms" | "out_time_us" =>
    match int64? value with
    | some us => { p with outTimeMs := us.tdiv 1000 }
    | none => p
  | "out_time" => { p with outTime := value }
  | "frame" =>
    match Decimal.natBelow? UInt64.size value with
    | some n => { p with frame := n }
    | none => p
  | "fps" =>
    match Decimal.float? value with
    | some x => { p with fps := x }
    | none => p
  | "speed" =>
    match speed? value with
    | some x => { p with speed := x }
    | none => p
  | "progress" => if value = "end" then { p with isComplete := true } else p
  | _ => p

/-- What is known after a line, and the report if the line asks for one. -/
def read (p : Progress) (line : String) : Progress × Option Progress :=
  match split? line with
  | some (key, value) =>
    let p := p.update key value
    (p, if key = "progress" then some p else none)
  | none => (p, none)

end Progress

/-! ## The messages of a run -/

/-- What was gathered from the messages of a render. -/
structure Messages where
  current : Progress := {}
  /-- Reports in order. -/
  reports : List Progress := []
  /-- The last other lines. -/
  tail : List String := []

namespace Messages

/-- How many lines are kept. -/
def tailLines : Nat := 20

/-- Takes in a line. -/
def add (m : Messages) (line : String) : Messages :=
  if Progress.isProgressLine line then
    let (current, report) := m.current.read line
    { m with current, reports := m.reports ++ report.toList }
  else
    let kept := if m.tail.length = tailLines then m.tail.drop 1 else m.tail
    { m with tail := kept ++ [line] }

/-- Takes in lines. -/
def ofLines (lines : List String) : Messages := lines.foldl add {}

/-- The kept lines, none if that is no text at all. -/
def tailText (m : Messages) : Option String :=
  let text := "\n".intercalate m.tail
  if text.isEmpty then none else some text

end Messages

/-- The lines of a text; the last one may lack its end. A carriage return before the end of a line
belongs to the end. -/
def linesOf (text : String) : List String :=
  let pieces := text.splitOn "\n"
  let pieces := if pieces.getLast? = some "" then pieces.dropLast else pieces
  pieces.map fun line => match line.toList.reverse with
    | '\r' :: rest => String.ofList rest.reverse
    | _ => line

end Slideshow
