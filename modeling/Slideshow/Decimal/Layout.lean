import Slideshow.Decimal.Shortest

/-! # How numbers are written

A `Layout` holds the decisions that turn chosen digits into text. Two formats differ only in that
record. -/

namespace Slideshow.Decimal

/-- The decisions of a number format. -/
structure Layout where
  /-- Which of two equally near shortest decimals is taken. -/
  tie : Tie
  /-- The decimal exponents of the leading digit that are written without an exponent; `none` when
  all are. -/
  positional : Option (Int × Int)
  /-- Whether whole numbers keep a zero after the point. -/
  keepsPoint : Bool

/-- Decimal digits of a natural number. -/
def natText (n : Nat) : String := String.ofList (Nat.toDigits 10 n)

/-- Zeros to fill up a number. -/
def zeros (n : Nat) : List Char := List.replicate n '0'

/-- Digits with a point, and no exponent. -/
def positionalText (keepsPoint : Bool) (d : Digits) : List Char :=
  let cs := Nat.toDigits 10 d.digits
  let point : Int := cs.length + d.exponent
  if 0 ≤ d.exponent then
    cs ++ zeros d.exponent.toNat ++ (if keepsPoint then ['.', '0'] else [])
  else if 0 < point then
    cs.take point.toNat ++ '.' :: cs.drop point.toNat
  else
    '0' :: '.' :: (zeros (-point).toNat ++ cs)

/-- One digit, a point if more follow, and the exponent with its sign. -/
def exponentText (d : Digits) : List Char :=
  let cs := Nat.toDigits 10 d.digits
  let lead : Int := cs.length + d.exponent - 1
  let sign := if lead < 0 then '-' else '+'
  let tail := cs.drop 1
  cs.take 1 ++ (if tail.isEmpty then [] else '.' :: tail) ++ 'e' :: sign ::
    Nat.toDigits 10 lead.natAbs

/-- The text of digits under a layout. -/
def Layout.digitsText (layout : Layout) (d : Digits) : List Char :=
  let lead : Int := (Nat.toDigits 10 d.digits).length + d.exponent - 1
  match layout.positional with
  | some (low, high) =>
    if d.digits = 0 || (low ≤ lead && lead ≤ high) then positionalText layout.keepsPoint d
    else exponentText d
  | none => positionalText layout.keepsPoint d

/-- The text of a double under a layout. -/
def Layout.text (layout : Layout) (x : Float) : String :=
  match Parts.ofFloat x with
  | .notANumber => "NaN"
  | .infinite negative => if negative then "-inf" else "inf"
  | .finite negative b =>
    String.ofList <|
      (if negative then ['-'] else []) ++ layout.digitsText (Digits.shortest layout.tie b)

/-- Numbers inside command lines: always positional, whole numbers without a point. -/
def plain : Layout := ⟨.up, none, false⟩

/-- A natural number of thousandths and the like, with the given number of places. -/
def placesText (places n : Nat) : List Char :=
  let cs := Nat.toDigits 10 n
  let cs := zeros (places + 1 - cs.length) ++ cs
  let whole := cs.take (cs.length - places)
  if places = 0 then whole else whole ++ '.' :: cs.drop (cs.length - places)

/-- A double with a fixed number of places: the exact value is rounded, a half to the even
neighbour. -/
def fixedText (places : Nat) (x : Float) : String :=
  match Parts.ofFloat x with
  | .notANumber => "NaN"
  | .infinite negative => if negative then "-inf" else "inf"
  | .finite negative b =>
    let num := b.mantissa * Nat.pow 2 b.exponent.toNat * Nat.pow 10 places
    let n := roundDiv .even num (Nat.pow 2 (-b.exponent).toNat)
    String.ofList ((if negative then ['-'] else []) ++ placesText places n)

end Slideshow.Decimal
