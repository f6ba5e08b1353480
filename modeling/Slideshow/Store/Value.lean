import Slideshow.Scalar
import Slideshow.Timestamp
import Slideshow.Decimal.Reader

/-! # Values of the document store

A document holds values of a few kinds. Whole numbers are texts; arrays and maps may be written
without content. -/

namespace Slideshow

/-- A value in a document. -/
inductive StoreValue where
  | null
  | boolean (value : Bool)
  /-- A whole number as text. -/
  | integer (text : String)
  | double (value : Float)
  | timestamp (text : String)
  | string (value : String)
  | array (values : Option (List StoreValue))
  | map (fields : Option (List (String × StoreValue)))
deriving Inhabited

namespace StoreValue

/-- A field of a map. -/
def field? (name : String) : StoreValue → Option StoreValue
  | map (some fields) => fields.lookup name
  | _ => none

/-- The elements of an array. -/
def elements : StoreValue → List StoreValue
  | array (some values) => values
  | _ => []

/-! ## From values of the program -/

/-- A number. -/
def ofNat (n : Nat) : StoreValue := integer (Decimal.natText n)

/-- A signed number. -/
def ofInt (n : Int) : StoreValue :=
  integer ((if n < 0 then "-" else "") ++ Decimal.natText n.natAbs)

/-- A point in time. -/
def ofTimestamp (t : Timestamp) : StoreValue := timestamp t.offsetText

/-- A list of texts. -/
def ofStrings (texts : List String) : StoreValue := array (some (texts.map string))

/-! ## To values of the program -/

/-- A text. -/
def string? : StoreValue → Option String
  | string s => some s
  | _ => none

/-- A truth value. -/
def bool? : StoreValue → Option Bool
  | boolean b => some b
  | _ => none

/-- The whole part of a double, kept within signed 64-bit integers. -/
def truncate (x : Float) : Int :=
  if x < 0.0 then -(clampFloat (Nat.pow 2 63) (-x) : Int) else clampFloat (Nat.pow 2 63 - 1) x

/-- A signed 64-bit integer. -/
def int? : StoreValue → Option Int
  | integer s =>
    (Decimal.int? s).filter fun n => Int64.minValue.toInt ≤ n && n ≤ Int64.maxValue.toInt
  | double x => some (truncate x)
  | _ => none

/-- An unsigned 32-bit integer. -/
def word? : StoreValue → Option Nat
  | integer s => Decimal.natBelow? UInt32.size s
  | double x => some (clampFloat maxWord32 x)
  | _ => none

/-- A double. -/
def float? : StoreValue → Option Float
  | double x => some x
  | integer s => Decimal.float? s
  | _ => none

/-- A point in time. -/
def timestamp? : StoreValue → Option Timestamp
  | timestamp s => (Timestamp.parse false s).toOption
  | _ => none

end StoreValue

end Slideshow
