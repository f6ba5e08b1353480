/-! # Percent encoding

Bytes that may not stand in a part of a URL are written as a percent sign and two hexadecimal
digits. Which bytes these are depends on the part. -/

namespace Slideshow.Url

/-- An upper-case hexadecimal digit. -/
def hexDigit (n : Nat) : Char := Char.ofNat (if n < 10 then '0'.toNat + n else 'A'.toNat + (n - 10))

/-- A byte as a percent sign and two digits. -/
def escapeByte (b : UInt8) : List Char :=
  ['%', hexDigit (b.toNat / 16), hexDigit (b.toNat % 16)]

/-- The bytes of a character. -/
def charBytes (c : Char) : List UInt8 := (String.singleton c).toUTF8.toList

/-- Writes a text, escaping the ASCII characters of a set and everything beyond ASCII. -/
def percentEncode (escaped : Char → Bool) (cs : List Char) : List Char :=
  cs.flatMap fun c =>
    if 0x80 ≤ c.toNat || escaped c then (charBytes c).flatMap escapeByte else [c]

/-- ASCII controls. -/
def isControl (c : Char) : Bool := c.toNat < 0x20 || c.toNat = 0x7f

/-- What is escaped in a fragment. -/
def inFragmentSet (c : Char) : Bool := isControl c || " \"<>\x60".toList.contains c

/-- What is escaped in a path. -/
def inPathSet (c : Char) : Bool := inFragmentSet c || "#?\x7b\x7d".toList.contains c

/-- What is escaped in a user name or password. -/
def inUserinfoSet (c : Char) : Bool := inPathSet c || "/:;=@[\\]^|".toList.contains c

/-- What is escaped in the query of a web address. -/
def inQuerySet (c : Char) : Bool := isControl c || " \"#<>'".toList.contains c

/-- What is escaped in a single value: everything but letters, digits and `-`, `.`, `_`, `~`. -/
def inComponentSet (c : Char) : Bool := !(c.isAlphanum || "-._~".toList.contains c)

/-- A single value inside a URL. -/
def encodeComponent (s : String) : String := String.ofList (percentEncode inComponentSet s.toList)

/-- The value of a hexadecimal digit. -/
def hexDigit? (b : UInt8) : Option Nat :=
  let n := b.toNat
  if 0x30 ≤ n && n ≤ 0x39 then some (n - 0x30)
  else if 0x61 ≤ n && n ≤ 0x66 then some (n - 0x61 + 10)
  else if 0x41 ≤ n && n ≤ 0x46 then some (n - 0x41 + 10)
  else none

/-- Replaces escapes by the bytes they stand for. What is not an escape stays as it is. -/
def decodeBytes : List UInt8 → List UInt8
  | [] => []
  | b :: rest =>
    if b = 0x25 then
      match rest with
      | high :: low :: more =>
        match hexDigit? high, hexDigit? low with
        | some h, some l => (UInt8.ofNat (16 * h + l)) :: decodeBytes more
        | _, _ => b :: decodeBytes (high :: low :: more)
      | few => b :: few
    else b :: decodeBytes rest

/-- The text after replacing escapes, if it is one. -/
def percentDecode? (s : String) : Option String :=
  String.fromUTF8? ⟨(decodeBytes s.toUTF8.toList).toArray⟩

end Slideshow.Url
