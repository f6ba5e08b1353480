import Slideshow.Decimal.Reader
import Slideshow.Json.Draft

/-! # Reading JSON texts

Every step returns a draft and, if reading can go on, the rest of the text, which is strictly
shorter; that is what makes the recursion end. -/

namespace Slideshow.Json.Reader

open Slideshow.Json (Fault)

/-- The rest of a text after something was read. -/
abbrev Rest (text : List Char) := Option { rest : List Char // rest.length < text.length }

/-- A shorter rest. -/
def Rest.of (text rest : List Char) : Rest text :=
  if h : rest.length < text.length then some ⟨rest, h⟩ else none

/-- The blanks between tokens. -/
def isBlank (c : Char) : Bool := c = ' ' || c = '\n' || c = '\t' || c = '\r'

/-- The text without leading blanks. -/
def skipBlanks (text : List Char) : List Char := text.dropWhile isBlank

theorem length_skipBlanks_le (text : List Char) : (skipBlanks text).length ≤ text.length :=
  (List.dropWhile_sublist isBlank).length_le

/-! ## Literal names -/

/-- Reads the rest of a literal name. -/
def word (value : Draft) : List Char → List Char → Draft × Option (List Char)
  | [], rest => (value, some rest)
  | _ :: _, [] => (.broken .unfinished true, none)
  | c :: name, d :: rest => if c = d then word value name rest else (.broken .malformed true, none)

/-! ## Numbers -/

/-- Appends digits to a number while it stays within 64 bits; also tells how many were used. -/
def absorb (value used : Nat) : List Char → Nat × Nat
  | [] => (value, used)
  | c :: rest =>
    let next := 10 * value + (c.toNat - '0'.toNat)
    if next < UInt64.size then absorb next (used + 1) rest else (value, used)

/-- A power of ten as a double. -/
def powerOfTen (n : Nat) : Float := Float.ofScientific 1 false n

/-- `x * 10 ^ exponent`, every step rounded; `none` beyond the doubles. Large negative exponents are
taken in steps of 308, and a value that has become zero stays so. -/
def scale (x : Float) (exponent : Int) : Option Float :=
  if 0 ≤ exponent then
    if 308 < exponent then (if x == 0.0 then some x else none)
    else
      let y := x * powerOfTen exponent.toNat
      if y.isInf then none else some y
  else if -308 ≤ exponent then some (x / powerOfTen (-exponent).toNat)
  else if x == 0.0 then some x
  else scale (x / powerOfTen 308) (exponent + 308)
termination_by (-exponent).toNat
decreasing_by omega

/-- A number with a fraction, an exponent or too many digits. -/
def realDraft (negative : Bool) (digits fraction : List Char) (exponent : Int) : Draft :=
  let (whole, used) := absorb 0 0 digits
  let (value, usedFraction) := absorb whole 0 fraction
  let shift : Int := (digits.length - used : Nat) - (usedFraction : Int) + exponent
  let result : Option Float :=
    if Nat.pow 2 31 ≤ exponent.natAbs then
      if value ≠ 0 && 0 < exponent then none else some 0.0
    else scale value.toUInt64.toFloat shift
  match result with
  | some x => .real (if negative then -x else x)
  | none => .unusable none

/-- A number without fraction and exponent. -/
def integerDraft (negative : Bool) (digits : List Char) : Draft :=
  let n := Decimal.digitsValue digits
  if negative then
    if n ≠ 0 && n ≤ Nat.pow 2 63 then .integer (-(n : Int)) else realDraft true digits [] 0
  else
    if n < UInt64.size then .integer n else realDraft false digits [] 0

/-- The fault where a digit is missing. -/
def noDigit (rest : List Char) : Draft :=
  .broken (if rest.isEmpty then .unfinished else .malformed) true

/-- Reads the exponent of a number, its letter included. -/
def exponent (negative : Bool) (digits fraction : List Char) (text : List Char) :
    Draft × Option (List Char) :=
  let (below, rest) := Decimal.takeSign text
  let power := rest.takeWhile Char.isDigit
  let rest := rest.dropWhile Char.isDigit
  if power.isEmpty then (noDigit rest, none)
  else
    let n : Int := Decimal.digitsValue power
    (realDraft negative digits fraction (if below then -n else n), some rest)

/-- Reads a number after its sign. -/
def number (negative : Bool) (text : List Char) : Draft × Option (List Char) :=
  let digits := text.takeWhile Char.isDigit
  let rest := text.dropWhile Char.isDigit
  match digits with
  | [] => (noDigit rest, none)
  | '0' :: _ :: _ => (.broken .malformed true, none)
  | _ =>
    match rest with
    | '.' :: more =>
      let fraction := more.takeWhile Char.isDigit
      let rest := more.dropWhile Char.isDigit
      if fraction.isEmpty then (noDigit rest, none)
      else match rest with
        | 'e' :: more => exponent negative digits fraction more
        | 'E' :: more => exponent negative digits fraction more
        | _ => (realDraft negative digits fraction 0, some rest)
    | 'e' :: more => exponent negative digits [] more
    | 'E' :: more => exponent negative digits [] more
    | _ => (integerDraft negative digits, some rest)

/-! ## Strings -/

/-- The value of a hexadecimal digit. -/
def hexValue? (c : Char) : Option Nat :=
  if '0' ≤ c && c ≤ '9' then some (c.toNat - '0'.toNat)
  else if 'a' ≤ c && c ≤ 'f' then some (c.toNat - 'a'.toNat + 10)
  else if 'A' ≤ c && c ≤ 'F' then some (c.toNat - 'A'.toNat + 10)
  else none

/-- The four digits of an escape, and the rest. Fewer than four bytes are an unfinished text,
whatever they are. -/
def unit (text : List Char) : Except Fault (Nat × List Char) :=
  match text with
  | a :: b :: c :: d :: rest =>
    match hexValue? a, hexValue? b, hexValue? c, hexValue? d with
    | some a, some b, some c, some d => .ok (((a * 16 + b) * 16 + c) * 16 + d, rest)
    | _, _, _, _ => .error .malformed
  | few =>
    .error (if few.foldr (fun c size => c.utf8Size + size) 0 < 4 then .unfinished else .malformed)

/-- Whether a code unit is the first half of a pair. -/
def isHigh (n : Nat) : Bool := 0xd800 ≤ n && n < 0xdc00

/-- Whether a code unit is the second half of a pair. -/
def isLow (n : Nat) : Bool := 0xdc00 ≤ n && n < 0xe000

/-- What an escape after its letter `u` stands for: a character, or nothing when it is half of a
pair whose other half does not follow. -/
def unicodeEscape (text : List Char) : Except Fault (Option Char × List Char) := do
  let (high, rest) ← unit text
  if isLow high then return (none, rest)
  else if isHigh high then
    match rest with
    | [] => .error .unfinished
    | ['\\'] => .error .unfinished
    | '\\' :: 'u' :: more =>
      let (low, after) ← unit more
      if isLow low then
        return (some (Char.ofNat (0x10000 + (high - 0xd800) * 0x400 + (low - 0xdc00))), after)
      else return (none, rest)
    | _ => return (none, rest)
  else return (some (Char.ofNat high), rest)

/-- The character of a one-letter escape. -/
def shortEscape? (c : Char) : Option Char :=
  if c = '"' || c = '\\' || c = '/' then some c
  else if c = 'b' then some (Char.ofNat 8)
  else if c = 'f' then some (Char.ofNat 12)
  else if c = 'n' then some '\n'
  else if c = 'r' then some '\r'
  else if c = 't' then some '\t'
  else none

/-- A string broken by a fault; `halved` when half of a pair came before. -/
def brokenText (halved : Bool) (fault : Fault) : Draft × Option (List Char) :=
  (if halved then .unusable (some fault) else .broken fault false, none)

/-- Reads a string after its opening quotation mark. `done` holds what was read, last character
first. -/
def text (done : List Char) (halved : Bool) (cs : List Char) : Draft × Option (List Char) :=
  match cs with
  | [] => brokenText halved .unfinished
  | '"' :: rest =>
    (if halved then .unusable none else .string (String.ofList done.reverse), some rest)
  | '\\' :: [] => brokenText halved .unfinished
  | '\\' :: 'u' :: more =>
    match unicodeEscape more with
    | .error fault => brokenText halved fault
    | .ok (c?, rest) =>
      if _h : rest.length < more.length then
        match c? with
        | some c => text (c :: done) halved rest
        | none => text done true rest
      else brokenText halved .malformed
  | '\\' :: c :: more =>
    match shortEscape? c with
    | some d => text (d :: done) halved more
    | none => brokenText halved .malformed
  | c :: more =>
    if c.toNat < 0x20 then brokenText halved .malformed else text (c :: done) halved more
termination_by cs.length
decreasing_by all_goals (simp_wf; try omega)

/-! ## Values -/

/-- Passes on what a token reader read. -/
def token (cs : List Char) (read : Draft × Option (List Char)) : Draft × Rest cs :=
  (read.1, read.2.bind (Rest.of cs))

/-- Extends a shorter text's rest to a longer text. -/
def Rest.weaken {short long : List Char} (h : short.length ≤ long.length) (rest : Rest short) :
    Rest long :=
  rest.map fun r => ⟨r.1, Nat.lt_of_lt_of_le r.2 h⟩

mutual

/-- Reads a value, after blanks. -/
def value (cs : List Char) : Draft × Rest cs :=
  match h : skipBlanks cs with
  | [] => (.broken .unfinished false, none)
  | c :: rest =>
    have le : rest.length < cs.length := by
      have := length_skipBlanks_le cs
      rw [h] at this
      exact this
    if c = '"' then token cs (text [] false rest)
    else if c = '[' then
      let (found, ending, after) := items true rest
      (.array found ending, after.weaken (Nat.le_of_lt le))
    else if c = '\x7b' then
      let (found, ending, after) := members true rest
      (.object found ending, after.weaken (Nat.le_of_lt le))
    else if c = 'n' then token cs (word .null "ull".toList rest)
    else if c = 't' then token cs (word (.bool true) "rue".toList rest)
    else if c = 'f' then token cs (word (.bool false) "alse".toList rest)
    else if c = '-' then token cs (number true rest)
    else if c.isDigit then token cs (number false (c :: rest))
    else (.broken .malformed false, none)
termination_by (cs.length, 0)
decreasing_by
  all_goals
    have := length_skipBlanks_le cs
    rw [h] at this
    simp only [List.length_cons] at this
    omega

/-- Reads the items of an array up to its closing bracket; `first` before the first item. -/
def items (first : Bool) (cs : List Char) : List Draft × Option Fault × Rest cs :=
  match h : skipBlanks cs with
  | [] => ([], some .unfinished, none)
  | c :: rest =>
    have le : rest.length < cs.length := by
      have := length_skipBlanks_le cs
      rw [h] at this
      exact this
    if c = ']' then ([], none, some ⟨rest, le⟩)
    else if first then
      match value (c :: rest) with
      | (item, some ⟨after, shorter⟩) =>
        let (found, ending, last) := items false after
        (item :: found, ending, last.weaken (Nat.le_trans (Nat.le_of_lt shorter) le))
      | (item, none) => ([item], none, none)
    else if c = ',' then
      match value rest with
      | (item, some ⟨after, _⟩) =>
        let (found, ending, last) := items false after
        (item :: found, ending, last.weaken (by omega))
      | (item, none) => ([item], none, none)
    else ([], some .malformed, none)
termination_by (cs.length, 1)
decreasing_by
  all_goals
    have := length_skipBlanks_le cs
    rw [h] at this
    simp only [List.length_cons] at *
    omega

/-- Reads the members of an object up to its closing brace; `first` before the first member. -/
def members (first : Bool) (cs : List Char) : List (Draft × Draft) × Option Fault × Rest cs :=
  match h : skipBlanks cs with
  | [] => ([], some .unfinished, none)
  | c :: rest =>
    have le : rest.length < cs.length := by
      have := length_skipBlanks_le cs
      rw [h] at this
      exact this
    if c = '\x7d' then ([], none, some ⟨rest, le⟩)
    else if first then
      let (found, ending, last) := member (c :: rest)
      (found, ending, last.weaken (show (c :: rest).length ≤ cs.length from le))
    else if c = ',' then
      let (found, ending, last) := member rest
      (found, ending, last.weaken (by omega))
    else ([], some .malformed, none)
termination_by (cs.length, 2)
decreasing_by
  all_goals
    have := length_skipBlanks_le cs
    rw [h] at this
    simp only [List.length_cons] at *
    omega

/-- Reads a key, its value and the members after it. -/
def member (cs : List Char) : List (Draft × Draft) × Option Fault × Rest cs :=
  let stopped (fault : Fault) : List (Draft × Draft) × Option Fault × Rest cs :=
    ([(.broken fault false, .broken fault false)], none, none)
  match h : skipBlanks cs with
  | [] => stopped .unfinished
  | '"' :: rest =>
    match token cs (text [] false rest) with
    | (key, none) => ([(key, .broken .malformed false)], none, none)
    | (key, some ⟨afterKey, _⟩) =>
      match h' : skipBlanks afterKey with
      | [] => ([(key, .broken .unfinished false)], none, none)
      | ':' :: afterColon =>
        have : afterColon.length < cs.length := by
          have := length_skipBlanks_le afterKey
          rw [h'] at this
          simp at this
          omega
        match value afterColon with
        | (found, none) => ([(key, found)], none, none)
        | (found, some ⟨after, _⟩) =>
          let (more, ending, last) := members false after
          ((key, found) :: more, ending, last.weaken (by omega))
      | _ :: _ => ([(key, .broken .malformed false)], none, none)
  | _ :: _ => stopped .malformed
termination_by (cs.length, 1)
decreasing_by all_goals omega

end

end Reader

/-- What was read of a whole text, and whether something other than blanks follows it. -/
def read (text : String) : Draft × Bool :=
  match Reader.value text.toList with
  | (draft, some ⟨rest, _⟩) => (draft, !(Reader.skipBlanks rest).isEmpty)
  | (draft, none) => (draft, false)

/-- Checks that nothing follows a value. -/
def finish (trailing : Bool) : Except Fault Unit :=
  if trailing then .error .malformed else .ok ()

/-- The value of a text. -/
def parse? (text : String) : Except Fault Json := do
  let (draft, trailing) := read text
  let value ← draft.toJson? maxDepth
  finish trailing
  return value

end Slideshow.Json
