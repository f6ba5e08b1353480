/-! # Binary numbers at their exact value

A double is either not a number, infinite, or a signed product `mantissa * 2 ^ exponent`.
The text of a number is chosen from that exact value, so everything here is integer arithmetic. -/

namespace Slideshow.Decimal

/-- The magnitude of a finite double: `mantissa * 2 ^ exponent`. -/
structure Binary where
  mantissa : Nat
  exponent : Int
  /-- The next smaller double is half as far away as the next larger one. -/
  narrowBelow : Bool := false
deriving Repr, DecidableEq

/-- What a double stands for. -/
inductive Parts where
  | notANumber
  | infinite (negative : Bool)
  | finite (negative : Bool) (magnitude : Binary)
deriving Repr, DecidableEq

/-- The parts named by the 64 bits of a double: a sign bit, eleven exponent bits and 52 bits of
fraction. -/
def Parts.ofBits (bits : UInt64) : Parts :=
  let n : Nat := bits.toNat
  let negative := n / Nat.pow 2 63 == 1
  let biased : Nat := n / Nat.pow 2 52 % Nat.pow 2 11
  let fraction : Nat := n % Nat.pow 2 52
  if biased = 2047 then
    if fraction = 0 then .infinite negative else .notANumber
  else if biased = 0 then
    .finite negative ⟨fraction, -1074, false⟩
  else
    .finite negative ⟨fraction + Nat.pow 2 52, (biased : Int) - 1075, fraction = 0 && 1 < biased⟩

/-- The parts of a double. -/
def Parts.ofFloat (x : Float) : Parts := ofBits x.toBits

/-- Which of two equally near neighbours a rounding takes. -/
inductive Tie where
  /-- The larger neighbour. -/
  | up
  /-- The neighbour with an even last digit. -/
  | even
deriving Repr, DecidableEq

/-- Between `low` and `low + 1`, the one that a rounding takes when the value exceeds `low` by the
fraction `twice / (2 * whole)`. -/
def Tie.choose (tie : Tie) (low twice whole : Nat) : Nat :=
  if twice < whole then low
  else if whole < twice then low + 1
  else match tie with
    | .up => low + 1
    | .even => if low % 2 = 0 then low else low + 1

/-- The integer nearest to `num / den`. -/
def roundDiv (tie : Tie) (num den : Nat) : Nat :=
  tie.choose (num / den) (2 * (num % den)) den

end Slideshow.Decimal
