/-! # Text shown in quotes

Error messages quote the text they found. A quotation mark, a backslash and everything that has no
visible form is written as an escape. -/

namespace Slideshow.Text

/-- Ranges of characters beyond ASCII that have no visible form of their own: controls, format
characters, separators, combining marks at their usual places, private use and noncharacters. -/
def invisibleRanges : List (Nat × Nat) :=
  [(0x80, 0xa0), (0xad, 0xad), (0x300, 0x36f), (0x483, 0x489), (0x591, 0x5bd), (0x600, 0x605),
   (0x610, 0x61a), (0x61c, 0x61c), (0x64b, 0x65f), (0x1680, 0x1680), (0x180b, 0x180f),
   (0x1ab0, 0x1ace), (0x1dc0, 0x1dff), (0x2000, 0x200f), (0x2028, 0x202f), (0x205f, 0x206f),
   (0x20d0, 0x20f0), (0x3000, 0x3000), (0x302a, 0x302f), (0x3099, 0x309a), (0xe000, 0xf8ff),
   (0xfe00, 0xfe0f), (0xfe20, 0xfe2f), (0xfeff, 0xfeff), (0xff9e, 0xff9f), (0xfff0, 0xfffb),
   (0xfffe, 0xffff), (0xe0000, 0x10ffff)]

/-- Whether a character is shown as itself. -/
def isVisible (c : Char) : Bool :=
  let n := c.toNat
  if n < 0x20 || n = 0x7f then false
  else n < 0x7f || !invisibleRanges.any fun (low, high) => low ≤ n && n ≤ high

/-- Lower-case hexadecimal digits of a number. -/
def hexDigits (n : Nat) : List Char := Nat.toDigits 16 n

/-- A character inside double quotes. -/
def quoteChar (c : Char) : List Char :=
  if c = '"' then ['\\', '"']
  else if c = '\\' then ['\\', '\\']
  else if c = '\t' then ['\\', 't']
  else if c = '\r' then ['\\', 'r']
  else if c = '\n' then ['\\', 'n']
  else if c.toNat = 0 then ['\\', '0']
  else if isVisible c then [c]
  else ['\\', 'u', '\x7b'] ++ hexDigits c.toNat ++ ['\x7d']

/-- A text in double quotes. -/
def quoted (s : String) : String :=
  String.ofList ('"' :: (s.toList.flatMap quoteChar ++ ['"']))

end Slideshow.Text
