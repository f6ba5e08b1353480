import Slideshow.Decimal.Layout

/-! # The numbers durations are measured in

A timeline is computed with doubles and reasoned about with exact rationals. `Scalar` is what both
provide: arithmetic, comparison, rounding to whole numbers, and the two texts in which durations
reach a command line. -/

namespace Slideshow

/-- Numbers that measure durations, lengths and ratios. -/
class Scalar (α : Type) extends Add α, Sub α, Mul α, Div α where
  /-- A natural number. -/
  ofNat : Nat → α
  /-- Whether one number is smaller than another. -/
  less : α → α → Bool
  /-- Whether one number is at most another. -/
  atMost : α → α → Bool
  /-- Whether this is an ordinary number, neither infinite nor undefined. -/
  isFinite : α → Bool
  /-- The smaller of two numbers, the other one if either is undefined. -/
  smaller : α → α → α
  /-- The nearest natural number, a half rounded up; at least zero and at most the limit. -/
  nearestNat : Nat → α → Nat
  /-- The least natural number that is not smaller; at most the limit. -/
  ceilNat : Nat → α → Nat
  /-- The text with at most six decimals that filter expressions use. -/
  filterText : α → String
  /-- The text with exactly three decimals that input options use. -/
  inputText : α → String

namespace Scalar

/-- Whether a number is zero, of either sign. -/
def isZero {α : Type} [Scalar α] (x : α) : Bool := atMost x (ofNat 0) && atMost (ofNat 0) x

end Scalar

/-- The largest 32-bit word. -/
def maxWord32 : Nat := UInt32.size - 1

/-- The largest 64-bit word. -/
def maxWord64 : Nat := UInt64.size - 1

/-! ## Doubles -/

/-- The natural number that a division makes of the fraction a double stands for, kept between zero
and a limit; zero when there is none. -/
def divideFloat (divide : Nat → Nat → Nat) (limit : Nat) (x : Float) : Nat :=
  match Decimal.Parts.ofFloat x with
  | .notANumber => 0
  | .infinite negative => if negative then 0 else limit
  | .finite negative b =>
    if negative then 0
    else min limit (divide (b.mantissa * Nat.pow 2 b.exponent.toNat)
      (Nat.pow 2 (-b.exponent).toNat))

/-- The natural number before the point of a double, kept between zero and a limit; zero when there
is none. -/
def clampFloat (limit : Nat) (x : Float) : Nat := divideFloat (fun n d => n / d) limit x

/-- The integral double nearest to a double, a half away from zero. -/
def roundFloat (x : Float) : Float :=
  match Decimal.Parts.ofFloat x with
  | .finite negative b =>
    -- a double without places is the nearest one itself
    if b.exponent < 0 then
      let n := Decimal.roundDiv .up b.mantissa (Nat.pow 2 (-b.exponent).toNat)
      if negative then -Float.ofNat n else Float.ofNat n
    else x
  | _ => x

/-- A double in a filter expression: rounded to six decimals by scaling, and never a negative
zero. -/
def floatFilterText (x : Float) : String :=
  let rounded := roundFloat (x * 1000000.0) / 1000000.0
  if rounded == 0.0 then "0" else Decimal.plain.text rounded

instance : Scalar Float where
  ofNat := Float.ofNat
  less a b := a < b
  atMost a b := a ≤ b
  isFinite := Float.isFinite
  smaller a b := if a.isNaN then b else if b < a then b else a
  nearestNat := divideFloat (Decimal.roundDiv .up)
  ceilNat := divideFloat fun n d => (n + d - 1) / d
  filterText := floatFilterText
  inputText := Decimal.fixedText 3

/-! ## Exact numbers -/

/-- The integer nearest to a rational, a half away from zero. -/
def nearestInt (x : Rat) : Int :=
  if x < 0 then -((-x + 1 / 2).floor) else (x + 1 / 2).floor

/-- A number of millionths as a decimal without superfluous zeros. -/
def millionthsText (n : Int) : String :=
  let magnitude := n.natAbs
  let fraction := (Decimal.placesText 6 magnitude).reverse.dropWhile (· = '0')
  let digits := (match fraction with
    | '.' :: whole => whole
    | cs => cs).reverse
  String.ofList ((if n < 0 then ['-'] else []) ++ digits)

instance : Scalar Rat where
  ofNat n := (n : Rat)
  less a b := a < b
  atMost a b := a ≤ b
  isFinite _ := true
  smaller a b := if b < a then b else a
  nearestNat limit x := min limit (nearestInt x).toNat
  ceilNat limit x := min limit x.ceil.toNat
  filterText x := millionthsText (nearestInt (x * 1000000))
  inputText x :=
    let negative := x < 0
    let magnitude := if negative then -x else x
    let n := Decimal.roundDiv .even (magnitude.num.toNat * 1000) magnitude.den
    String.ofList ((if negative then ['-'] else []) ++ Decimal.placesText 3 n)

end Slideshow
