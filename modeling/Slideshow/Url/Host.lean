import Slideshow.Url.Percent
import Slideshow.Url.Punycode

/-! # Hosts

The host of a URL is a domain, an IPv4 address in any of its notations, or an IPv6 address in
brackets. Domains are brought to lower-case ASCII. -/

namespace Slideshow.Url

/-- Why a text is not a URL. -/
inductive Fault where
  | relativeWithoutBase
  | emptyHost
  | invalidPort
  | invalidIPv4
  | invalidIPv6
  | invalidDomain
  | invalidDomainCharacter
deriving Repr, DecidableEq

def Fault.message : Fault → String
  | .relativeWithoutBase => "relative URL without a base"
  | .emptyHost => "empty host"
  | .invalidPort => "invalid port number"
  | .invalidIPv4 => "invalid IPv4 address"
  | .invalidIPv6 => "invalid IPv6 address"
  | .invalidDomain => "invalid international domain name"
  | .invalidDomainCharacter => "invalid domain character"

/-- Splits at every occurrence of a character. -/
def splitAt (sep : Char) : List Char → List (List Char)
  | [] => [[]]
  | c :: rest =>
    if c = sep then [] :: splitAt sep rest
    else match splitAt sep rest with
      | first :: more => (c :: first) :: more
      | [] => [[c]]

/-! ## IPv4 -/

/-- Whether a character is a digit of a base of at most 16. -/
def isDigitOf (base : Nat) (c : Char) : Bool :=
  match hexDigit? c.toNat.toUInt8 with
  | some d => c.toNat < 0x80 && d < base
  | none => false

/-- The number a run of digits stands for. -/
def numberOf (base : Nat) (cs : List Char) : Nat :=
  cs.foldl (fun n c => base * n + (hexDigit? c.toNat.toUInt8).getD 0) 0

/-- A number in decimal, octal or hexadecimal notation. -/
def ipv4Number? (cs : List Char) : Option Nat :=
  let (base, digits) := match cs with
    | '0' :: 'x' :: rest => (16, rest)
    | '0' :: 'X' :: rest => (16, rest)
    | '0' :: c :: rest => (8, c :: rest)
    | _ => (10, cs)
  if cs.isEmpty then none
  else if digits.isEmpty then some 0
  else if digits.all (isDigitOf base) then some (numberOf base digits)
  else none

/-- Whether the last label of a domain is a number, so that the domain must be an address. -/
def endsInNumber (domain : List Char) : Bool :=
  let last := match (splitAt '.' domain).reverse with
    | [] :: label :: _ => label
    | [] :: [] => []
    | label :: _ => label
    | [] => []
  (!last.isEmpty && last.all Char.isDigit) || (ipv4Number? last).isSome

/-- The 32 bits of an address with up to four parts; the last part fills all that is left. -/
def ipv4? (domain : List Char) : Option Nat := do
  let parts := splitAt '.' domain
  let parts := if parts.getLast? = some [] then parts.dropLast else parts
  if 4 < parts.length then none
  let numbers ← parts.mapM ipv4Number?
  let last ← numbers.getLast?
  let front := numbers.dropLast
  if front.any (255 < ·) || Nat.pow 2 (8 * (4 - front.length)) ≤ last then none
  return front.zipIdx.foldr (fun (n, i) sum => n * Nat.pow 2 (8 * (3 - i)) + sum) last

/-- An IPv4 address with four decimal parts. -/
def ipv4Text (address : Nat) : List Char :=
  let part (i : Nat) := Nat.toDigits 10 (address / Nat.pow 2 (8 * i) % 256)
  part 3 ++ '.' :: part 2 ++ '.' :: part 1 ++ '.' :: part 0

/-! ## IPv6 -/

/-- A group of up to four hexadecimal digits. -/
def hexGroup? (cs : List Char) : Option Nat :=
  if cs.isEmpty || 4 < cs.length || !cs.all (isDigitOf 16) then none else some (numberOf 16 cs)

/-- A decimal part of an embedded IPv4 address, without leading zeros. -/
def decimalPart? (cs : List Char) : Option Nat :=
  if cs.isEmpty || !cs.all Char.isDigit || (1 < cs.length && cs.head? = some '0') then none
  else
    let n := numberOf 10 cs
    if n < 256 then some n else none

/-- Groups separated by colons; the last one may be an IPv4 address, which counts as two. -/
def groups? (cs : List Char) : Option (List Nat) :=
  if cs.isEmpty then some []
  else
    let pieces := splitAt ':' cs
    match pieces.getLast? with
    | some last =>
      if last.contains '.' then do
        let front ← pieces.dropLast.mapM hexGroup?
        match ← (splitAt '.' last).mapM decimalPart? with
        | [a, b, c, d] => some (front ++ [a * 256 + b, c * 256 + d])
        | _ => none
      else pieces.mapM hexGroup?
    | none => none

/-- Cuts a text at the first double colon. -/
def cutDoubleColon : List Char → Option (List Char × List Char)
  | ':' :: ':' :: rest => some ([], rest)
  | c :: rest => (cutDoubleColon rest).map fun (front, back) => (c :: front, back)
  | [] => none

/-- The eight groups of an address; a double colon stands for one or more groups of zero. -/
def ipv6? (cs : List Char) : Option (List Nat) :=
  match cutDoubleColon cs with
  | none => (groups? cs).filter fun groups => groups.length = 8
  | some (front, back) => do
    let front' ← groups? front
    let back' ← groups? back
    if front.contains '.' || 7 < front'.length + back'.length then none
    return front' ++ List.replicate (8 - front'.length - back'.length) 0 ++ back'

/-- The start and length of the first longest run of zeros, when at least two long. -/
def longestZeros (groups : List Nat) : Option (Nat × Nat) :=
  let runs := (List.range groups.length).map fun i =>
    (i, ((groups.drop i).takeWhile (· = 0)).length)
  runs.foldl (fun best (i, n) =>
    match best with
    | some (_, m) => if m < n then some (i, n) else best
    | none => if 2 ≤ n then some (i, n) else none) none

/-- An IPv6 address with its longest run of zeros left out. -/
def ipv6Text (groups : List Nat) : List Char :=
  let texts (gs : List Nat) : List Char :=
    (List.intersperse [':'] (gs.map (Nat.toDigits 16))).flatten
  match longestZeros groups with
  | some (i, n) => texts (groups.take i) ++ ':' :: ':' :: texts (groups.drop (i + n))
  | none => texts groups

/-! ## Domains -/

/-- Lower case beyond ASCII, for the alphabets in which the two cases are at a fixed distance. -/
def lowerChar (c : Char) : Char :=
  let n := c.toNat
  if n < 0x80 then c.toLower
  else if (0xc0 ≤ n && n ≤ 0xde && n ≠ 0xd7) || (0x391 ≤ n && n ≤ 0x3a9) || (0x410 ≤ n && n ≤ 0x42f)
  then Char.ofNat (n + 32)
  else if 0x400 ≤ n && n ≤ 0x40f then Char.ofNat (n + 80)
  else if (0x100 ≤ n && n ≤ 0x137 && n ≠ 0x130 && n ≠ 0x131) || (0x14a ≤ n && n ≤ 0x177) ||
    (0x460 ≤ n && n ≤ 0x481) || (0x48a ≤ n && n ≤ 0x4bf) then Char.ofNat (n - n % 2 + 1)
  else c

/-- What a character of a domain is replaced by: full-width forms become ordinary ones, other full
stops become a point, and invisible hyphens and joiners vanish. -/
def domainChar (c : Char) : List Char :=
  let n := c.toNat
  if 0xff01 ≤ n && n ≤ 0xff5e then [(Char.ofNat (n - 0xff01 + 0x21)).toLower]
  else if n = 0x3002 || n = 0xff0e || n = 0xff61 then ['.']
  else if n = 0xad || n = 0x200b || n = 0x2060 || n = 0xfeff then []
  else [lowerChar c]

/-- ASCII characters that no domain may contain. -/
def isForbidden (c : Char) : Bool :=
  c.toNat ≤ 0x20 || c.toNat = 0x7f || "%#/:<>?@[\\]^|".toList.contains c

/-- Characters beyond ASCII that no domain may contain. -/
def isUnassigned (c : Char) : Bool :=
  let n := c.toNat
  (0x80 ≤ n && n ≤ 0xa0) || n = 0x1680 || (0x2000 ≤ n && n ≤ 0x200a) ||
    (0x200e ≤ n && n ≤ 0x200f) || (0x2028 ≤ n && n ≤ 0x202f) || n = 0x205f || n = 0x3000 ||
    (0xe000 ≤ n && n ≤ 0xf8ff) || n = 0xfffd || 0xe0000 ≤ n

/-- Whether a character is an accent that joins the character before it. -/
def isCombining (c : Char) : Bool :=
  let n := c.toNat
  (0x300 ≤ n && n ≤ 0x36f) || (0x1ab0 ≤ n && n ≤ 0x1aff) || (0x1dc0 ≤ n && n ≤ 0x1dff) ||
    (0x20d0 ≤ n && n ≤ 0x20ff) || (0xfe20 ≤ n && n ≤ 0xfe2f)

/-- Whether a label begins with an accent, which has nothing to join. -/
def beginsCombining (label : List Char) : Bool := (label.head?.map isCombining).getD false

/-- A label in ASCII. -/
def labelText? (label : List Char) : Option (List Char) :=
  if label.all fun c => c.toNat < 0x80 then
    match label with
    | 'x' :: 'n' :: '-' :: '-' :: coded =>
      match Punycode.decode? coded with
      | some decoded =>
        if decoded.all (fun c => c.toNat < 0x80) || decoded.any isUnassigned ||
            beginsCombining decoded then none
        else some label
      | none => none
    | _ => some label
  else if beginsCombining label then none
  else some ("xn--".toList ++ Punycode.encode label)

/-- A domain in lower-case ASCII. -/
def domainText? (domain : String) : Option (List Char) := do
  let mapped := domain.toList.flatMap domainChar
  if mapped.any isForbidden || mapped.any isUnassigned then none
  let labels ← (splitAt '.' mapped).mapM labelText?
  return (labels.intersperse ['.']).flatten

/-- The text of the host of a web address. -/
def hostText (cs : List Char) : Except Fault (List Char) :=
  match cs with
  | '[' :: rest =>
    if rest.getLast? = some ']' then
      match ipv6? rest.dropLast with
      | some groups => .ok ('[' :: ipv6Text groups ++ [']'])
      | none => .error .invalidIPv6
    else .error .invalidIPv6
  | _ =>
    match (percentDecode? (String.ofList cs)).bind domainText? with
    | none => .error .invalidDomain
    | some [] => .error .emptyHost
    | some domain =>
      if endsInNumber domain then
        match ipv4? domain with
        | some address => .ok (ipv4Text address)
        | none => .error .invalidIPv4
      else .ok domain

/-- The text of a host whose scheme gives it no structure. -/
def opaqueHostText (cs : List Char) : Except Fault (List Char) :=
  match cs with
  | '[' :: rest =>
    if rest.getLast? = some ']' then
      match ipv6? rest.dropLast with
      | some groups => .ok ('[' :: ipv6Text groups ++ [']'])
      | none => .error .invalidIPv6
    else .error .invalidIPv6
  | _ =>
    if cs.any fun c => c.toNat = 0 || "\t\n\r #/:<>?@[\\]^|".toList.contains c then
      .error .invalidDomainCharacter
    else .ok (percentEncode isControl cs)

end Slideshow.Url
