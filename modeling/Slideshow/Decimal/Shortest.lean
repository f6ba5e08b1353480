import Slideshow.Decimal.Binary

/-! # The fewest digits that read back

Every double stands for an interval of reals: those nearer to it than to its neighbours, the ends
included when its mantissa is even. `Digits.shortest` takes the coarsest decimal grid that has a
point in that interval, and on that grid the point nearest to the value. -/

namespace Slideshow.Decimal

/-- The decimal `digits * 10 ^ exponent`. -/
structure Digits where
  digits : Nat
  exponent : Int
deriving Repr, DecidableEq

namespace Binary

/-- The value measured on the grid `10 ^ e`: four times the numerator of `value / 10 ^ e` is
`4 * mantissa * unit`, over the denominator. -/
def onGrid (b : Binary) (e : Int) : Nat × Nat :=
  (Nat.pow 2 (b.exponent - 2).toNat * Nat.pow 10 (-e).toNat,
    Nat.pow 2 (2 - b.exponent).toNat * Nat.pow 10 e.toNat)

/-- Whether the grid point `d * 10 ^ e` is read back as this number. -/
def readsBack (b : Binary) (d : Nat) (e : Int) : Bool :=
  let (unit, den) := b.onGrid e
  let low := (4 * b.mantissa - (if b.narrowBelow then 1 else 2)) * unit
  let high := (4 * b.mantissa + 2) * unit
  let point := d * den
  if b.mantissa % 2 = 0 then low ≤ point && point ≤ high else low < point && point < high

/-- A grid exponent at which the number is below one grid step. -/
def magnitude (b : Binary) : Int :=
  let num := b.mantissa * Nat.pow 2 b.exponent.toNat
  let den := Nat.pow 2 (-b.exponent).toNat
  if den ≤ num then (Nat.toDigits 10 (num / den)).length
  else 2 - (Nat.toDigits 10 (den / num)).length

/-- The point of the grid `10 ^ e` that reads back and is nearest, if there is one. -/
def nearestOnGrid? (b : Binary) (tie : Tie) (e : Int) : Option Digits :=
  let (unit, den) := b.onGrid e
  let value := 4 * b.mantissa * unit
  let low := value / den
  match b.readsBack low e, b.readsBack (low + 1) e with
  | true, true => some ⟨tie.choose low (2 * (value % den)) den, e⟩
  | true, false => some ⟨low, e⟩
  | false, true => some ⟨low + 1, e⟩
  | false, false => none

/-- The exact decimal value. -/
def exactDigits (b : Binary) : Digits :=
  if b.exponent < 0 then ⟨b.mantissa * Nat.pow 5 (-b.exponent).toNat, b.exponent⟩
  else ⟨b.mantissa * Nat.pow 2 b.exponent.toNat, 0⟩

end Binary

/-- The fewest digits that read back. Eighteen grids below the magnitude always suffice; should they
not, the exact value is given instead. -/
def Digits.shortest (tie : Tie) (b : Binary) : Digits :=
  if b.mantissa = 0 then ⟨0, 0⟩
  else
    let top := b.magnitude
    ((List.range 20).findSome? fun (i : Nat) => b.nearestOnGrid? tie (top - i)).getD b.exactDigits

end Slideshow.Decimal
