import Slideshow.Decimal.Reader
import Slideshow.Text.Blank

/-! # Settings

Programs are set up by texts under names. A number that cannot be read counts as not set; whether
blanks around it are allowed depends on who reads it. -/

namespace Slideshow

/-- Texts under names. -/
abbrev Environment := List (String × String)

namespace Environment

/-- Whether a text consists of blanks only. -/
def isBlankText (text : String) : Bool := text.toList.all Text.isBlank

/-- The text under a name, if it has more than blanks. -/
def nonblank? (env : Environment) (name : String) : Option String :=
  (env.lookup name).filter fun text => !isBlankText text

/-- An unsigned number of some bits without blanks around it. -/
def number? (env : Environment) (bits : Nat) (name : String) : Option Nat :=
  env.lookup name >>= Decimal.natBelow? (Nat.pow 2 bits)

/-- An unsigned number of some bits, perhaps with blanks around it. -/
def paddedNumber? (env : Environment) (bits : Nat) (name : String) : Option Nat := do
  let text ← env.lookup name
  Decimal.natBelow? (Nat.pow 2 bits) (String.ofList (Text.trimmed text.toList))

end Environment

end Slideshow
