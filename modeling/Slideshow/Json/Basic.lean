/-! # JSON values

A value as the wire formats of this library use it. Objects keep the order in which their members
were written; numbers without fraction or exponent are kept as integers. -/

namespace Slideshow

/-- A JSON value. -/
inductive Json where
  | null
  | bool (value : Bool)
  | integer (value : Int)
  | real (value : Float)
  | string (value : String)
  | array (items : List Json)
  | object (members : List (String × Json))
deriving Inhabited

namespace Json

/-- The member with a key, if the value is an object that has one. -/
def get? (key : String) : Json → Option Json
  | .object members => members.lookup key
  | _ => none

/-- A member, `null` when absent. -/
def getD (key : String) (value : Json) : Json := (value.get? key).getD .null

/-- The text of a string value. -/
def string? : Json → Option String
  | .string s => some s
  | _ => none

/-- The items of an array. -/
def array? : Json → Option (List Json)
  | .array items => some items
  | _ => none

/-- The members of an object. -/
def members? : Json → Option (List (String × Json))
  | .object members => some members
  | _ => none

/-- A natural number. -/
def nat? : Json → Option Nat
  | .integer n => n.toNat?
  | _ => none

/-- Puts a value under a key into a list sorted by key, in place of an earlier one. -/
def insertSorted {α : Type} (key : String) (value : α) : List (String × α) → List (String × α)
  | [] => [(key, value)]
  | (k, v) :: rest =>
    if key < k then (key, value) :: (k, v) :: rest
    else if key = k then (key, value) :: rest
    else (k, v) :: insertSorted key value rest

mutual

/-- The value with the members of every object sorted by key, the last of equal keys kept. -/
def sorted : Json → Json
  | .array items => .array (sortedItems items)
  | .object members => .object (sortedMembers members [])
  | value => value

/-- Sorts inside every item. -/
def sortedItems : List Json → List Json
  | [] => []
  | item :: rest => item.sorted :: sortedItems rest

/-- Inserts members one by one into those already sorted. -/
def sortedMembers : List (String × Json) → List (String × Json) → List (String × Json)
  | [], done => done
  | (key, value) :: rest, done => sortedMembers rest (insertSorted key value.sorted done)

end

/-- A string list as an array. -/
def strings (texts : List String) : Json := .array (texts.map .string)

/-- An optional value, `null` when absent. -/
def ofOption {α : Type} (f : α → Json) : Option α → Json
  | some a => f a
  | none => .null

/-- Leaves a member out when there is nothing to write. -/
def member? (key : String) (value : Option Json) : List (String × Json) :=
  match value with
  | some v => [(key, v)]
  | none => []

end Json

end Slideshow
