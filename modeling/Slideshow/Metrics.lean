/-! # Counters

What happens is counted under a name and some labels. Counters are shown in the order of their
texts, and only those that were touched. -/

namespace Slideshow

/-- A counter. -/
structure Counter where
  name : String
  labels : List (String × String) := []
deriving Repr, DecidableEq

namespace Counter

/-- A label and its value. -/
def labelText (label : String × String) : String := label.1 ++ "=\"" ++ label.2 ++ "\""

/-- Name and labels. -/
def text (c : Counter) : String :=
  if c.labels.isEmpty then c.name
  else c.name ++ "\x7b" ++ ",".intercalate (c.labels.map labelText) ++ "\x7d"

/-- A line for every counter among the counted events, sorted. -/
def lines (events : List Counter) : List String :=
  (events.eraseDups.map fun c => c.text ++ " " ++ toString (events.count c)).mergeSort (· ≤ ·)

end Counter

end Slideshow
