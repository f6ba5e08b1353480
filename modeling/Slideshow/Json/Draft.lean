import Slideshow.Json.Basic

/-! # What has been read of a JSON text

A text may stop being JSON half way, and a decoder should still complain about whichever comes
first: the fault in the text or a value of the wrong kind. A `Draft` is therefore the tree that was
read up to the first fault, with the fault at its place. Reading never fails; it ends in a draft.
-/

namespace Slideshow.Json

/-- Why a text is not JSON. -/
inductive Fault where
  /-- A character that cannot stand where it stands. -/
  | malformed
  /-- The text ends too early. -/
  | unfinished
deriving Repr, DecidableEq

/-- What has been read of a text. `ending` is the fault met instead of the closing bracket. -/
inductive Draft where
  | null
  | bool (value : Bool)
  | integer (value : Int)
  | real (value : Float)
  | string (value : String)
  | array (items : List Draft) (ending : Option Fault)
  /-- Members with their keys; a key is a string, unusable or broken. -/
  | object (members : List (Draft × Draft)) (ending : Option Fault)
  /-- A token that is complete but has no value: a number beyond the doubles, or a string with half
  of a surrogate pair. `ending` is a fault met later in the same token. -/
  | unusable (ending : Option Fault)
  /-- Reading stopped here; `started` when a number or a literal name had begun. -/
  | broken (fault : Fault) (started : Bool)
deriving Inhabited

namespace Draft

/-- Whether reading stopped at this draft. -/
def isBroken : Draft → Bool
  | .broken _ _ => true
  | _ => false

mutual

/-- A value as a draft without faults. -/
def ofJson : Json → Draft
  | .null => .null
  | .bool b => .bool b
  | .integer n => .integer n
  | .real x => .real x
  | .string s => .string s
  | .array items => .array (ofItems items) none
  | .object members => .object (ofMembers members) none

/-- Items as drafts. -/
def ofItems : List Json → List Draft
  | [] => []
  | item :: rest => ofJson item :: ofItems rest

/-- Members as drafts. -/
def ofMembers : List (String × Json) → List (Draft × Draft)
  | [] => []
  | (key, value) :: rest => (.string key, ofJson value) :: ofMembers rest

end

/-- Succeeds when no fault was met. -/
def proceed : Option Fault → Except Fault Unit
  | some fault => .error fault
  | none => .ok ()

mutual

/-- The first fault below a draft whose value is not wanted. Tokens without a value are no fault
here. -/
def skip : Draft → Except Fault Unit
  | .broken fault _ => .error fault
  | .unusable ending => proceed ending
  | .array items ending => do skipItems items; proceed ending
  | .object members ending => do skipMembers members; proceed ending
  | _ => .ok ()

/-- Skips every item. -/
def skipItems : List Draft → Except Fault Unit
  | [] => .ok ()
  | item :: rest => do item.skip; skipItems rest

/-- Skips every key and its value. -/
def skipMembers : List (Draft × Draft) → Except Fault Unit
  | [] => .ok ()
  | (key, value) :: rest => do key.skip; value.skip; skipMembers rest

end

mutual

/-- The value of a draft that nests less than `depth` levels deep. -/
def toJson? (depth : Nat) : Draft → Except Fault Json
  | .null => .ok .null
  | .bool b => .ok (.bool b)
  | .integer n => .ok (.integer n)
  | .real x => .ok (.real x)
  | .string s => .ok (.string s)
  | .array items ending =>
    if depth ≤ 1 then .error .malformed
    else do
      let items ← toItems? (depth - 1) items
      proceed ending
      return .array items
  | .object members ending =>
    if depth ≤ 1 then .error .malformed
    else do
      let members ← toMembers? (depth - 1) members
      proceed ending
      return .object members
  | .unusable _ => .error .malformed
  | .broken fault _ => .error fault

/-- The values of items. -/
def toItems? (depth : Nat) : List Draft → Except Fault (List Json)
  | [] => .ok []
  | item :: rest => do return (← item.toJson? depth) :: (← toItems? depth rest)

/-- The values of members. -/
def toMembers? (depth : Nat) : List (Draft × Draft) → Except Fault (List (String × Json))
  | [] => .ok []
  | (.string key, value) :: rest => do
    return (key, ← value.toJson? depth) :: (← toMembers? depth rest)
  | (.broken fault _, _) :: _ => .error fault
  | _ :: _ => .error .malformed

end

end Draft

/-- How deep values may nest. -/
def maxDepth : Nat := 128

end Slideshow.Json
