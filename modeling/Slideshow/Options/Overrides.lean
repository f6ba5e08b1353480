import Slideshow.Options.Document
import Slideshow.Text.Blank

/-! # Options from assignments

Options may be given as arguments `key=value`. A value that is JSON is taken as such and any other
as a string; the last assignment to a key counts. -/

namespace Slideshow.SceneOptions

/-- The value after the equals sign. -/
def overrideValue (text : String) : Json :=
  match Json.parse? text with
  | .ok value => value.sorted
  | .error _ => .string text

/-- The member that an argument assigns. -/
def readOverride (argument : String) : Except Invalid (String × Json) :=
  match Text.cut? '=' argument.toList with
  | some (key, value) =>
    .ok (String.ofList (Text.trimmed key), overrideValue (String.ofList value))
  | none => .error (.notAssignment argument)

/-- The options that some arguments ask for. -/
def ofOverrides (arguments : List String) : Except Invalid (SceneOptions Float) := do
  let members ← arguments.mapM readOverride
  let options ← (decoder.ofValue (Json.object members).sorted).mapError fun e =>
    .unreadable e.reason
  options.validate
  return options

end Slideshow.SceneOptions
