import Slideshow.Url.Host

/-! # Addresses on the web

Reading a URL the way browsers do: blanks around it are dropped, backslashes count as slashes in web
addresses, dot segments of the path are resolved, and every part is escaped as it is stored. -/

namespace Slideshow

/-- A URL in its parts; all texts are escaped as they are written. -/
structure Url where
  scheme : String
  username : List Char
  password : List Char
  host : List Char
  port : Option Nat
  /-- The segments of the path, each after a slash; a single text when the path has no structure. -/
  path : List (List Char)
  /-- Whether the part after the scheme begins with two slashes. -/
  hasAuthority : Bool
  query : Option (List Char)
  fragment : Option (List Char)
deriving Repr, DecidableEq

namespace Url

/-- Schemes whose URLs are web addresses, with their usual ports. -/
def specialSchemes : List (String × Option Nat) :=
  [("http", some 80), ("https", some 443), ("ws", some 80), ("wss", some 443), ("ftp", some 21),
   ("file", none)]

/-- Whether a scheme is that of web addresses. -/
def isSpecial (scheme : String) : Bool := (specialSchemes.lookup scheme).isSome

/-- The port that need not be written. -/
def usualPort (scheme : String) : Option Nat := (specialSchemes.lookup scheme).join

/-! ## Reading -/

/-- The text without blanks and controls around it and without tabs and line ends. -/
def cleaned (text : String) : List Char :=
  let blank (c : Char) : Bool := c.toNat ≤ 0x20
  let trimmed := ((text.toList.dropWhile blank).reverse.dropWhile blank).reverse
  trimmed.filter fun c => !(c = '\t' || c = '\n' || c = '\r')

/-- The scheme in lower case and what follows its colon. -/
def splitScheme? (cs : List Char) : Option (String × List Char) :=
  let inScheme (c : Char) : Bool := c.isAlphanum || c = '+' || c = '-' || c = '.'
  match cs with
  | c :: _ =>
    if c.isAlpha then
      match cs.dropWhile inScheme with
      | ':' :: rest => some (String.ofList ((cs.takeWhile inScheme).map Char.toLower), rest)
      | _ => none
    else none
  | [] => none

/-- Whether a character separates path segments. -/
def isSlash (special : Bool) (c : Char) : Bool := c = '/' || (special && c = '\\')

/-- Whether a character ends the part with user, host and port. -/
def endsAuthority (special : Bool) (c : Char) : Bool := isSlash special c || c = '?' || c = '#'

/-- Splits off the user part, up to the last at-sign. -/
def splitUserinfo (authority : List Char) : Option (List Char) × List Char :=
  if authority.contains '@' then
    let reversed := authority.reverse
    (some ((reversed.dropWhile (· ≠ '@')).drop 1).reverse, (reversed.takeWhile (· ≠ '@')).reverse)
  else (none, authority)

/-- Splits host and port at the first colon outside brackets. -/
def splitPort (bracketed : Bool) : List Char → List Char × Option (List Char)
  | [] => ([], none)
  | c :: rest =>
    if c = ':' && !bracketed then ([], some rest)
    else
      let bracketed := if c = '[' then true else if c = ']' then false else bracketed
      let (host, port) := splitPort bracketed rest
      (c :: host, port)

/-- A port number; none when it is left out or the usual one. -/
def readPort (scheme : String) (cs : List Char) : Except Fault (Option Nat) :=
  if cs.isEmpty then .ok none
  else if !cs.all Char.isDigit then .error .invalidPort
  else
    let n := numberOf 10 cs
    if 65535 < n then .error .invalidPort
    else .ok (if usualPort scheme = some n then none else some n)

/-- Whether a segment stands for the current directory. -/
def isSingleDot (segment : List Char) : Bool :=
  [".", "%2e"].contains (String.ofList (segment.map Char.toLower))

/-- Whether a segment stands for the parent directory. -/
def isDoubleDot (segment : List Char) : Bool :=
  ["..", ".%2e", "%2e.", "%2e%2e"].contains (String.ofList (segment.map Char.toLower))

/-- Adds segments to a path, resolving dots. A path that ends in dots ends in an empty segment. -/
def addSegments (path : List (List Char)) : List (List Char) → List (List Char)
  | [] => path
  | segment :: rest =>
    let path :=
      if isDoubleDot segment then path.dropLast ++ (if rest.isEmpty then [[]] else [])
      else if isSingleDot segment then path ++ (if rest.isEmpty then [[]] else [])
      else path ++ [percentEncode inPathSet segment]
    addSegments path rest

/-- Splits at slashes. -/
def splitSlashes (special : Bool) : List Char → List (List Char)
  | [] => [[]]
  | c :: rest =>
    if isSlash special c then [] :: splitSlashes special rest
    else match splitSlashes special rest with
      | first :: more => (c :: first) :: more
      | [] => [[c]]

/-- The query and the fragment at the start of a text. -/
def readTail (special : Bool) (cs : List Char) : Option (List Char) × Option (List Char) :=
  let (front, fragment) := match cs.dropWhile (· ≠ '#') with
    | '#' :: rest => (cs.takeWhile (· ≠ '#'), some (percentEncode inFragmentSet rest))
    | _ => (cs, none)
  match front with
  | '?' :: query =>
    let escaped (c : Char) : Bool := inQuerySet c && (special || c ≠ '\'')
    (some (percentEncode escaped query), fragment)
  | _ => (none, fragment)

/-- Splits path from query and fragment. -/
def splitPath (cs : List Char) : List Char × List Char :=
  let inPath (c : Char) : Bool := c ≠ '?' && c ≠ '#'
  (cs.takeWhile inPath, cs.dropWhile inPath)

/-- Reads path, query and fragment after the authority. -/
def withPath (url : Url) (cs : List Char) : Url :=
  let special := isSpecial url.scheme
  let (path, tail) := splitPath cs
  let (query, fragment) := readTail special tail
  let path := match path with
    | [] => if special then [[]] else []
    | c :: rest =>
      if isSlash special c then addSegments [] (splitSlashes special rest)
      else addSegments [] (splitSlashes special (c :: rest))
  { url with path, query, fragment }

/-- Reads what follows the two slashes of a URL. -/
def readAuthority (scheme : String) (cs : List Char) : Except Fault Url := do
  let special := isSpecial scheme
  let authority := cs.takeWhile fun c => !endsAuthority special c
  let rest := cs.dropWhile fun c => !endsAuthority special c
  let (userinfo, hostport) := splitUserinfo authority
  if userinfo = some [] && hostport.isEmpty && !rest.isEmpty then throw .emptyHost
  let (hostPart, portPart) := splitPort false hostport
  if special && hostPart.isEmpty then throw .emptyHost
  let host ← if special then hostText hostPart else opaqueHostText hostPart
  if host.isEmpty && (portPart.isSome || (userinfo.getD []) ≠ []) then throw .emptyHost
  let port ← match portPart with
    | some digits => readPort scheme digits
    | none => pure none
  let user := userinfo.getD []
  let username := user.takeWhile (· ≠ ':')
  let password := (user.dropWhile (· ≠ ':')).drop 1
  let url : Url :=
    { scheme, username := percentEncode inUserinfoSet username
      password := percentEncode inUserinfoSet password
      host, port, path := [], hasAuthority := true, query := none, fragment := none }
  return url.withPath rest

/-- Reads a file URL: its host may be left out. -/
def readFile (cs : List Char) : Except Fault Url := do
  let slash := isSlash true
  let empty : Url :=
    { scheme := "file", username := [], password := [], host := [], port := none, path := []
      hasAuthority := true, query := none, fragment := none }
  match cs with
  | a :: b :: rest =>
    if slash a && slash b then
      let hostPart := rest.takeWhile fun c => !endsAuthority true c
      let host ← if hostPart.isEmpty || (hostPart.length = 2 && hostPart.getLast? ≠ some '.' &&
          hostPart.all fun c => c.isAlpha || c = ':' || c = '|') then pure []
        else hostText hostPart
      return ({ empty with host } : Url).withPath (rest.dropWhile fun c => !endsAuthority true c)
    else return empty.withPath cs
  | _ => return empty.withPath cs

/-- Reads what follows the colon of a scheme. -/
def readAfterScheme (scheme : String) (cs : List Char) : Except Fault Url :=
  if scheme = "file" then readFile cs
  else if isSpecial scheme then readAuthority scheme (cs.dropWhile (isSlash true))
  else match cs with
    | '/' :: '/' :: rest => readAuthority scheme rest
    | _ =>
      let (path, tail) := splitPath cs
      let (query, fragment) := readTail false tail
      .ok { scheme, username := [], password := [], host := [], port := none
            path := [percentEncode isControl path], hasAuthority := false, query, fragment }

/-- Reads an absolute URL. -/
def parse (text : String) : Except Fault Url :=
  match splitScheme? (cleaned text) with
  | some (scheme, rest) => readAfterScheme scheme rest
  | none => .error .relativeWithoutBase

/-- Reads a reference relative to a web address. -/
def join (base : Url) (text : String) : Except Fault Url :=
  let cs := cleaned text
  match splitScheme? cs with
  | some (scheme, rest) =>
    if scheme = base.scheme && (rest.takeWhile (isSlash true)).length < 2 then
      relative base rest
    else readAfterScheme scheme rest
  | none => relative base cs
where
  /-- A reference without scheme. -/
  relative (base : Url) (cs : List Char) : Except Fault Url :=
    match cs with
    | [] => .ok { base with fragment := none }
    | '?' :: _ | '#' :: _ =>
      let (query, fragment) := readTail true cs
      .ok { base with query := if cs.head? = some '?' then query else base.query, fragment }
    | c :: rest =>
      if isSlash true c then
        if (rest.head?.map (isSlash true)).getD false then
          readAuthority base.scheme (cs.dropWhile (isSlash true))
        else .ok (base.withPath cs)
      else
        let (path, tail) := splitPath cs
        let (query, fragment) := readTail true tail
        .ok { base with
          path := addSegments base.path.dropLast (splitSlashes true path), query, fragment }

/-! ## Writing -/

/-- The path with its slashes. -/
def pathText (url : Url) : List Char :=
  if url.hasAuthority then url.path.flatMap ('/' :: ·) else url.path.flatten

/-- Path and query, as they are asked for. -/
def target (url : Url) : String :=
  String.ofList (url.pathText ++ (url.query.map ('?' :: ·)).getD [])

/-- Host and port. -/
def authority (url : Url) : List Char :=
  url.host ++ (url.port.map fun n => ':' :: Nat.toDigits 10 n).getD []

def text (url : Url) : String :=
  let user :=
    if url.username.isEmpty && url.password.isEmpty then []
    else url.username ++ (if url.password.isEmpty then [] else ':' :: url.password) ++ ['@']
  let authority := if url.hasAuthority then '/' :: '/' :: user ++ url.authority else []
  let front := url.scheme.toList ++ ':' :: authority
  String.ofList <| front ++ url.pathText ++ (url.query.map ('?' :: ·)).getD [] ++
    (url.fragment.map ('#' :: ·)).getD []

end Url

end Slideshow
