/-! # Random choices

A random generator is the list of 32-bit words it still has to give. A choice among `n` things takes
one word; a choice among none takes none. -/

namespace Slideshow

/-- The words a random generator has still to give; zeros follow the last one. -/
abbrev Words := List Nat

/-- A choice among `n` things, and the words left. -/
def Words.choose (words : Words) (n : Nat) : Option (Nat × Words) :=
  if n = 0 then none else some (words.headD 0 * n / UInt32.size, words.drop 1)

/-- One of several things, and the words left. -/
def Words.pick {α : Type} (words : Words) (choices : List α) : Option (α × Words) :=
  match words.choose choices.length with
  | some (i, rest) => choices[i]?.map fun a => (a, rest)
  | none => none

end Slideshow
