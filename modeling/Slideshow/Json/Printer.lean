import Slideshow.Decimal.Layout
import Slideshow.Text.Quoted
import Slideshow.Json.Basic

/-! # Writing JSON

The compact form: no blanks, members in their order, strings with the fewest escapes. -/

namespace Slideshow.Json

/-- Numbers in JSON: a point always shows that a number is not an integer, and magnitudes below
`1e-5` or from `1e16` on are written with a signed exponent. -/
def numberLayout : Decimal.Layout := ⟨.even, some (-5, 15), true⟩

/-- A number; JSON has no text for infinities and for what is not a number. -/
def realText (x : Float) : String :=
  if x.isFinite then numberLayout.text x else "null"

/-- A character inside a string. Only quotation marks, backslashes and control characters are
escaped. -/
def escapeChar (c : Char) : List Char :=
  if c = '"' then ['\\', '"']
  else if c = '\\' then ['\\', '\\']
  else if 0x20 ≤ c.toNat then [c]
  else if c = '\n' then ['\\', 'n']
  else if c = '\r' then ['\\', 'r']
  else if c = '\t' then ['\\', 't']
  else if c.toNat = 8 then ['\\', 'b']
  else if c.toNat = 12 then ['\\', 'f']
  else
    let digits := Text.hexDigits c.toNat
    ['\\', 'u'] ++ List.replicate (4 - digits.length) '0' ++ digits

/-- A string with its quotation marks. -/
def stringText (s : String) : List Char :=
  '"' :: (s.toList.flatMap escapeChar ++ ['"'])

mutual

/-- The compact text of a value. -/
def render : Json → List Char
  | .null => "null".toList
  | .bool b => if b then "true".toList else "false".toList
  | .integer n => (if n < 0 then ['-'] else []) ++ Nat.toDigits 10 n.natAbs
  | .real x => (realText x).toList
  | .string s => stringText s
  | .array items => '[' :: (renderItems items ++ [']'])
  | .object members => '\x7b' :: (renderMembers members ++ ['\x7d'])

/-- The items of an array, separated by commas. -/
def renderItems : List Json → List Char
  | [] => []
  | [item] => item.render
  | item :: rest => item.render ++ ',' :: renderItems rest

/-- The members of an object, separated by commas. -/
def renderMembers : List (String × Json) → List Char
  | [] => []
  | [(key, value)] => stringText key ++ ':' :: value.render
  | (key, value) :: rest => stringText key ++ ':' :: (value.render ++ ',' :: renderMembers rest)

end

/-- The compact text of a value, as a string. -/
def compact (value : Json) : String := String.ofList value.render

end Slideshow.Json
