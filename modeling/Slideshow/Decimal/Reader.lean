import Slideshow.Decimal.Binary

/-! # Reading numbers

A decimal numeral is a run of digits, an optional fraction and an optional exponent. `Numeral.value`
rounds it to the nearest double. -/

namespace Slideshow.Decimal

/-- The numeral `digits * 10 ^ exponent`, with its sign apart. -/
structure Numeral where
  negative : Bool
  digits : Nat
  exponent : Int
deriving Repr, DecidableEq

/-- The value of a run of decimal digits. -/
def digitsValue (cs : List Char) : Nat :=
  cs.foldl (fun n c => 10 * n + (c.toNat - '0'.toNat)) 0

/-- The double nearest to a numeral. Numerals far outside the range of doubles are infinite or zero
whatever their digits are. -/
def Numeral.value (n : Numeral) : Float :=
  let lead : Int := (Nat.toDigits 10 n.digits).length + n.exponent
  let magnitude : Float :=
    if n.digits = 0 || lead < -330 then 0.0
    else if 310 < lead then 1.0 / 0.0
    else if n.exponent < 0 then Float.ofScientific n.digits true n.exponent.natAbs
    else Float.ofScientific n.digits false n.exponent.toNat
  if n.negative then -magnitude else magnitude

/-- A sign in front of the rest. -/
def takeSign : List Char → Bool × List Char
  | '-' :: rest => (true, rest)
  | '+' :: rest => (false, rest)
  | rest => (false, rest)

/-- The exponent part `e12` of a numeral, up to the end of the text. -/
def exponentValue? : List Char → Option Int
  | [] => some 0
  | c :: rest =>
    if c = 'e' || c = 'E' then
      let (negative, digits) := takeSign rest
      if digits.isEmpty || !digits.all Char.isDigit then none
      else some (if negative then -(digitsValue digits : Int) else digitsValue digits)
    else none

/-- A numeral without sign: digits on at least one side of an optional point, then an optional
exponent. -/
def numeral? (negative : Bool) (cs : List Char) : Option Numeral :=
  let whole := cs.takeWhile Char.isDigit
  let rest := cs.dropWhile Char.isDigit
  let (fraction, rest) := match rest with
    | '.' :: more => (more.takeWhile Char.isDigit, more.dropWhile Char.isDigit)
    | _ => ([], rest)
  if whole.isEmpty && fraction.isEmpty then none
  else
    (exponentValue? rest).map fun e =>
      ⟨negative, digitsValue (whole ++ fraction), e - fraction.length⟩

/-- Reads a number given as text: a numeral, or the name of a special value in any case. -/
def float? (text : String) : Option Float :=
  let (negative, cs) := takeSign text.toList
  let word := String.ofList (cs.map Char.toLower)
  let special : Option Float :=
    if word = "nan" then some (0.0 / 0.0)
    else if word = "inf" || word = "infinity" then some (1.0 / 0.0)
    else none
  match special with
  | some x => some (if negative then -x else x)
  | none => (numeral? negative cs).map Numeral.value

/-- Reads an unsigned decimal number: digits only, after at most one plus sign. -/
def nat? (text : String) : Option Nat :=
  let cs := match text.toList with
    | '+' :: rest => rest
    | cs => cs
  if cs.isEmpty || !cs.all Char.isDigit then none else some (digitsValue cs)

/-- Reads a signed decimal number: digits only, after at most one sign. -/
def int? (text : String) : Option Int :=
  let (negative, cs) := takeSign text.toList
  if cs.isEmpty || !cs.all Char.isDigit then none
  else some (if negative then -(digitsValue cs : Int) else digitsValue cs)

/-- Reads an unsigned number below `limit`. -/
def natBelow? (limit : Nat) (text : String) : Option Nat :=
  (nat? text).filter (· < limit)

end Slideshow.Decimal
