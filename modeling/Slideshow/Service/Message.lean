import Slideshow.Json.Printer
import Slideshow.Url.Percent

/-! # Requests to the web service and its answers

Names of headers do not depend on case. A body is JSON if its type says so. -/

namespace Slideshow.Service

/-- A request. -/
structure Request where
  method : String
  /-- Path and query. -/
  target : String
  headers : List (String × String)
  body : String
deriving Repr, DecidableEq

/-- The body of an answer. -/
inductive Body where
  | empty
  | text (content : String)
  | json (content : Json)

/-- An answer. -/
structure Response where
  status : Nat
  headers : List (String × String)
  body : Body

namespace Request

/-- The value of a header. -/
def header? (r : Request) (name : String) : Option String :=
  (r.headers.find? fun h => h.1.toLower == name).map Prod.snd

/-- The path without the query. -/
def path (r : Request) : List Char := r.target.toList.takeWhile fun c => c ≠ '?' && c ≠ '#'

end Request

namespace Response

/-- An answer without a body. -/
def plain (status : Nat) : Response := ⟨status, [], .empty⟩

/-- An answer with a text. -/
def text (status : Nat) (content : String) : Response :=
  ⟨status, [("content-type", "text/plain; charset=utf-8")], .text content⟩

/-- An answer with a JSON document. -/
def json (status : Nat) (content : Json) : Response :=
  ⟨status, [("content-type", "application/json")], .json content⟩

/-- The answer with further headers, which replace those of the same names. -/
def withHeaders (r : Response) (headers : List (String × String)) : Response :=
  { r with headers := (r.headers.filter fun h => (headers.lookup h.1).isNone) ++ headers }

/-- The answer without its body. -/
def withoutBody (r : Response) : Response := { r with body := .empty }

end Response

/-! ## Types of content -/

/-- Whether a character can stand in a name within a type of content. -/
def isTokenChar (c : Char) : Bool := c.isAlphanum || "!#$%&'*+-.^_\x60|~".toList.contains c

/-- Whether a character can stand between quotes. -/
def isQuotedChar (c : Char) : Bool := 31 < c.toNat && c.toNat ≠ 127

/-- What follows the value of a parameter, where `none` means that it is no value. -/
def afterValue? (cs : List Char) : Option (List Char) :=
  match cs with
  | '"' :: first :: rest =>
    if !isQuotedChar first then none
    else
      match rest.dropWhile fun c => isQuotedChar c && c ≠ '"' with
      | '"' :: after =>
        match after.dropWhile (· = ' ') with
        | [] => some []
        | ';' :: more => some more
        | _ => none
      | _ => none
  | '"' :: [] => none
  | cs =>
    match cs.dropWhile isTokenChar with
    | [] => some []
    | ';' :: more => if (cs.takeWhile isTokenChar).isEmpty then none else some more
    | _ => none

/-- Whether a text is a list of parameters, with a bound on their number. -/
def areParameters : Nat → List Char → Bool
  | 0, cs => cs.isEmpty
  | left + 1, cs =>
    let cs := cs.dropWhile (· = ' ')
    if cs.isEmpty then true
    else if (cs.takeWhile isTokenChar).isEmpty then false
    else
      match cs.dropWhile isTokenChar with
      | '=' :: value =>
        match afterValue? value with
        | some rest => areParameters left rest
        | none => false
      | _ => false

/-- Names at both ends of a text, before the first and after the last plus sign. -/
def suffix? (subtype : List Char) : Option (List Char × List Char) :=
  let tail := (subtype.reverse.takeWhile (· ≠ '+')).reverse
  let front := subtype.take (subtype.length - tail.length - 1)
  if front.isEmpty then none else some (front, tail)

/-- Whether a type of content is that of JSON: the type itself, or one that is built on it. -/
def isJsonType (text : String) : Bool :=
  let cs := text.toList.map Char.toLower
  let kind := cs.takeWhile isTokenChar
  match cs.dropWhile isTokenChar with
  | '/' :: rest =>
    let subtype := rest.takeWhile isTokenChar
    let named := match suffix? subtype with
      | some (front, tail) => front == "json".toList || tail == "json".toList
      | none => subtype == "json".toList
    kind == "application".toList && named &&
      match rest.dropWhile isTokenChar with
      | [] => true
      | ';' :: parameters => areParameters parameters.length parameters
      | _ => false
  | _ => false

end Slideshow.Service
