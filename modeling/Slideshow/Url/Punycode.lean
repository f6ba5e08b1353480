/-! # Domain labels in ASCII

A label with characters beyond ASCII is written as its ASCII characters followed by the places and
values of the others, coded as differences in a mixed radix that adapts to their size. -/

namespace Slideshow.Url.Punycode

/-- A digit of base 36, letters first. -/
def digit (n : Nat) : Char :=
  Char.ofNat (if n < 26 then 'a'.toNat + n else '0'.toNat + (n - 26))

/-- The value of a digit. -/
def digit? (c : Char) : Option Nat :=
  if 'a' ≤ c && c ≤ 'z' then some (c.toNat - 'a'.toNat)
  else if 'A' ≤ c && c ≤ 'Z' then some (c.toNat - 'A'.toNat)
  else if c.isDigit then some (c.toNat - '0'.toNat + 26)
  else none

/-- The threshold of the digit at a position. -/
def threshold (position bias : Nat) : Nat := max 1 (min 26 (position - bias))

/-- Divides by 35 until small, counting 36 for every division. -/
def settle (delta count : Nat) : Nat × Nat :=
  if 455 < delta then settle (delta / 35) (count + 36) else (delta, count)
termination_by delta
decreasing_by exact Nat.div_lt_self (by omega) (by omega)

/-- The bias after a difference was written. -/
def adapt (delta points : Nat) (first : Bool) : Nat :=
  let delta := if first then delta / 700 else delta / 2
  let (delta, count) := settle (delta + delta / points) 0
  count + 36 * delta / (delta + 38)

/-- The digits of a difference. -/
def digits (bias position q : Nat) : List Char :=
  let t := threshold position bias
  if q < t then [digit q]
  else digit (t + (q - t) % (36 - t)) :: digits bias (position + 36) ((q - t) / (36 - t))
termination_by q
decreasing_by
  have : 1 ≤ threshold position bias := Nat.le_max_left ..
  exact Nat.lt_of_le_of_lt (Nat.div_le_self _ _) (by omega)

/-- What is known while a label is written. -/
structure Progress where
  written : List Char
  delta : Nat
  bias : Nat
  handled : Nat

/-- One pass over the label that writes every occurrence of the code point `n`. -/
def pass (n basic : Nat) (state : Progress) (label : List Char) : Progress :=
  label.foldl (fun state c =>
    if c.toNat < n then { state with delta := state.delta + 1 }
    else if c.toNat = n then
      { written := state.written ++ digits state.bias 36 state.delta
        delta := 0
        bias := adapt state.delta (state.handled + 1) (state.handled = basic)
        handled := state.handled + 1 }
    else state) state

/-- The label in ASCII. -/
def encode (label : List Char) : List Char :=
  let ascii := label.filter fun c => c.toNat < 0x80
  let points := ((label.filter fun c => 0x80 ≤ c.toNat).map Char.toNat).eraseDups.mergeSort
  let start : Progress :=
    ⟨if ascii.isEmpty then [] else ascii ++ ['-'], 0, 72, ascii.length⟩
  let (state, _) := points.foldl (fun (state, n) point =>
    let state := { state with delta := state.delta + (point - n) * (state.handled + 1) }
    let state := pass point ascii.length state label
    ({ state with delta := state.delta + 1 }, point + 1)) (start, 0x80)
  state.written

/-- Reads one difference: its value and the rest. -/
def difference? (bias position weight sum : Nat) : List Char → Option (Nat × List Char)
  | [] => none
  | c :: rest => do
    let d ← digit? c
    let sum := sum + d * weight
    let t := threshold position bias
    if d < t then return (sum, rest)
    else difference? bias (position + 36) (weight * (36 - t)) sum rest

theorem length_difference? {bias position weight sum : Nat} {cs rest : List Char} {n : Nat}
    (h : difference? bias position weight sum cs = some (n, rest)) : rest.length < cs.length := by
  induction cs generalizing position weight sum with
  | nil => simp [difference?] at h
  | cons c cs ih =>
    simp only [difference?, Option.bind_eq_bind, Option.bind_eq_some_iff] at h
    obtain ⟨d, _, h⟩ := h
    split at h
    · simp at h
      simp [h.2]
    · have := ih h
      simp
      omega

/-- Inserts the coded characters one by one. -/
def insertAll (output : List Char) (n i bias : Nat) (cs : List Char) : Option (List Char) :=
  match cs with
  | [] => some output
  | c :: rest =>
    match h : difference? bias 36 1 0 (c :: rest) with
    | none => none
    | some (delta, after) =>
      let size := output.length + 1
      let place := i + delta
      let n := n + place / size
      let i := place % size
      if n < 0x80 || 0x110000 ≤ n || (0xd800 ≤ n && n < 0xe000) then none
      else
        insertAll (output.take i ++ Char.ofNat n :: output.drop i) n (i + 1)
          (adapt delta size (output.all fun c => c.toNat < 0x80)) after
termination_by cs.length
decreasing_by exact length_difference? h

/-- The label that an ASCII form stands for. -/
def decode? (cs : List Char) : Option (List Char) :=
  let reversed := cs.reverse
  let coded := (reversed.takeWhile (· ≠ '-')).reverse
  let ascii := ((reversed.dropWhile (· ≠ '-')).drop 1).reverse
  insertAll ascii 0x80 0 72 coded

end Slideshow.Url.Punycode
