import Slideshow.Json.Reader
import Slideshow.Json.Printer

/-! # Decoding JSON into domain types

A `Decoder` turns a draft into a value of a domain type, or says what is wrong with it. Objects are
checked member by member in the order of the document, so the first thing wrong in the document is
what is reported; a `Record` describes an object once, for its object form and for its array form.
-/

namespace Slideshow.Json

/-- What kind of value was found. -/
inductive Found where
  | bool (value : Bool)
  | integer (value : Int)
  | real (value : Float)
  | string (value : String)
  | null
  | sequence
  | map
  | unitVariant

def Found.text : Found → String
  | .bool b => "boolean \x60" ++ (if b then "true" else "false") ++ "\x60"
  | .integer n => "integer \x60" ++ toString n ++ "\x60"
  | .real x => "floating point \x60" ++ numberLayout.text x ++ "\x60"
  | .string s => "string " ++ Text.quoted s
  | .null => "null"
  | .sequence => "sequence"
  | .map => "map"
  | .unitVariant => "unit variant"

/-- Why well-formed JSON is not a value of a type. -/
inductive Mismatch where
  | invalidType (found : Found) (expected : String)
  | invalidValue (found : Found) (expected : String)
  | invalidLength (length : Nat) (expected : String)
  | missingField (name : String)
  | duplicateField (name : String)
  | unknownVariant (name : String) (expected : List String)
  /-- A complaint in the type's own words. -/
  | custom (text : String)

/-- A name between backticks. -/
def ticked (name : String) : String := "\x60" ++ name ++ "\x60"

/-- The names of which one was expected. -/
def alternatives : List String → String
  | [] => "there are no variants"
  | [a] => "expected " ++ ticked a
  | [a, b] => "expected " ++ ticked a ++ " or " ++ ticked b
  | names => "expected one of " ++ ", ".intercalate (names.map ticked)

def Mismatch.message : Mismatch → String
  | .invalidType found expected => "invalid type: " ++ found.text ++ ", expected " ++ expected
  | .invalidValue found expected => "invalid value: " ++ found.text ++ ", expected " ++ expected
  | .invalidLength n expected => "invalid length " ++ toString n ++ ", expected " ++ expected
  | .missingField name => "missing field " ++ ticked name
  | .duplicateField name => "duplicate field " ++ ticked name
  | .unknownVariant name expected =>
    "unknown variant " ++ ticked name ++ ", " ++ alternatives expected
  | .custom text => text

/-- Why a document could not be decoded. -/
inductive DecodeError where
  | fault (fault : Fault)
  | mismatch (mismatch : Mismatch)

/-- The category of a decoding error. -/
inductive DecodeError.Category where
  | notJson
  | unfinished
  | data
deriving DecidableEq

/-- Whether the text was no JSON, ended early, or held the wrong data. -/
def DecodeError.category : DecodeError → Category
  | .fault .malformed => .notJson
  | .fault .unfinished => .unfinished
  | .mismatch _ => .data

/-- The words for a decoding error. -/
def DecodeError.reason : DecodeError → String
  | .fault .malformed => "malformed JSON"
  | .fault .unfinished => "EOF while parsing"
  | .mismatch m => m.message

/-- How a document reached its decoder. The forms differ in what they tell apart. -/
inductive Origin where
  /-- Read from a text. -/
  | text
  /-- Given as a value. -/
  | value
  /-- Held back until the kind of a tagged object was known. -/
  | held
deriving DecidableEq

/-- Turns a draft into a value of a type. -/
def Decoder (α : Type) := Origin → Draft → Except DecodeError α

namespace Decoder

variable {α β : Type}

/-- A mismatch as a result. -/
def fail (m : Mismatch) : Except DecodeError α := .error (.mismatch m)

/-- A fault as a decoding error. -/
def ofFault (result : Except Fault α) : Except DecodeError α :=
  match result with
  | .ok a => .ok a
  | .error fault => .error (.fault fault)

/-- The complaint about a draft of the wrong kind: its fault if it has one. -/
def unexpected (expected : String) : Draft → Except DecodeError α
  | .null => fail (.invalidType .null expected)
  | .bool b => fail (.invalidType (.bool b) expected)
  | .integer n => fail (.invalidType (.integer n) expected)
  | .real x => fail (.invalidType (.real x) expected)
  | .string s => fail (.invalidType (.string s) expected)
  | .array _ _ => fail (.invalidType .sequence expected)
  | .object _ _ => fail (.invalidType .map expected)
  | .unusable _ => .error (.fault .malformed)
  | .broken fault _ => .error (.fault fault)

/-- Decodes and then converts, with complaints of its own. -/
def andThen (decoder : Decoder α) (f : α → Except Mismatch β) : Decoder β := fun origin draft =>
  match decoder origin draft with
  | .ok a => match f a with
    | .ok b => .ok b
    | .error m => fail m
  | .error e => .error e

/-- Decodes and then converts. -/
def map (f : α → β) (decoder : Decoder α) : Decoder β := fun origin draft =>
  (decoder origin draft).map f

/-- A truth value. -/
def bool : Decoder Bool
  | _, .bool b => .ok b
  | _, draft => unexpected "a boolean" draft

/-- A text. -/
def string : Decoder String
  | _, .string s => .ok s
  | _, draft => unexpected "a string" draft

/-- A number; integers are numbers too. -/
def float : Decoder Float
  | _, .real x => .ok x
  | _, .integer n => .ok (Float.ofInt n)
  | _, draft => unexpected "f64" draft

/-- An unsigned integer of a width in bits. -/
def unsigned (bits : Nat) : Decoder Nat
  | _, .integer n =>
    if 0 ≤ n && n < Nat.pow 2 bits then .ok n.toNat
    else fail (.invalidValue (.integer n) ("u" ++ toString bits))
  | _, draft => unexpected ("u" ++ toString bits) draft

/-- Any value. -/
def json : Decoder Json := fun _ draft => ofFault (draft.toJson? maxDepth)

/-- A value that may be `null`. -/
def option (decoder : Decoder α) : Decoder (Option α)
  | _, .null => .ok none
  | origin, draft => (decoder origin draft).map some

/-- Decodes items one after another. -/
def items (decoder : Decoder α) (origin : Origin) : List Draft → Except DecodeError (List α)
  | [] => .ok []
  | item :: rest => do
    let a ← decoder origin item
    return a :: (← items decoder origin rest)

/-- A list. -/
def list (decoder : Decoder α) : Decoder (List α)
  | origin, .array found ending => do
    let result ← items decoder origin found
    ofFault (Draft.proceed ending)
    return result
  | _, draft => unexpected "a sequence" draft

/-! ## Enumerations -/

/-- The value with a name, an alias counting as a name. -/
def lookupName (names : List (α × List String)) (name : String) : Except DecodeError α :=
  match names.find? fun entry => entry.2.contains name with
  | some (a, _) => .ok a
  | none => fail (.unknownVariant name (names.flatMap Prod.snd))

/-- The content of a name that takes none. -/
def unit : Decoder Unit
  | _, .null => .ok ()
  | .held, .object [] none => .ok ()
  | _, draft => unexpected "unit" draft

/-- One of several names, each with its aliases, written as a text or as an object whose only key is
the name. -/
def enumeration (names : List (α × List String)) : Decoder α
  | _, .string s => lookupName names s
  | .text, .object [] ending =>
    ofFault (Draft.proceed ending) >>= fun _ => .error (.fault .malformed)
  | .text, .object ((.string key, content) :: rest) ending => do
    let a ← lookupName names key
    unit .text content
    if rest.isEmpty then ofFault (Draft.proceed ending) else .error (.fault .malformed)
    return a
  | .text, .object ((.broken fault _, _) :: _) _ => .error (.fault fault)
  | .text, .broken fault started => .error (.fault (if started then .malformed else fault))
  | .text, _ => .error (.fault .malformed)
  | origin, .object [(.string key, content)] _ => do
    let a ← lookupName names key
    unit origin content
    return a
  | _, .object _ _ => fail (.invalidValue .map "map with a single key")
  | _, draft => unexpected "string or map" draft

/-- One of several names, each followed by content of its own: an object whose only key is the
name. -/
def keyed (variants : List (String × Decoder α)) : Decoder α :=
  let names := variants.map fun variant => (variant.2, [variant.1])
  fun origin draft => match origin, draft with
  | _, .string s => do
    let _ ← lookupName names s
    fail (.invalidType .unitVariant "newtype variant")
  | .text, .object [] ending =>
    ofFault (Draft.proceed ending) >>= fun _ => .error (.fault .malformed)
  | .text, .object ((.string key, content) :: rest) ending => do
    let variant ← lookupName names key
    let a ← variant .text content
    if rest.isEmpty then ofFault (Draft.proceed ending) else .error (.fault .malformed)
    return a
  | .text, .object ((.broken fault _, _) :: _) _ => .error (.fault fault)
  | .text, .broken fault started => .error (.fault (if started then .malformed else fault))
  | .text, _ => .error (.fault .malformed)
  | origin, .object [(.string key, content)] _ => do
    let variant ← lookupName names key
    variant origin content
  | _, .object _ _ => fail (.invalidValue .map "map with a single key")
  | _, draft => unexpected "string or map" draft

/-- Decodes members one after another into those already decoded. -/
def entries (decoder : Decoder α) (origin : Origin) :
    List (Draft × Draft) → List (String × α) → Except DecodeError (List (String × α))
  | [], done => .ok done
  | (.string key, content) :: rest, done => do
    let a ← decoder origin content
    entries decoder origin rest (insertSorted key a done)
  | (.broken fault _, _) :: _, _ => .error (.fault fault)
  | _ :: _, _ => .error (.fault .malformed)

/-- An object with any keys, sorted; the last of equal keys counts. -/
def table (decoder : Decoder α) : Decoder (List (String × α))
  | origin, .object members ending => do
    let result ← entries decoder origin members []
    ofFault (Draft.proceed ending)
    return result
  | _, draft => unexpected "a map" draft

end Decoder

/-! ## Records -/

/-- One member of an object: its name, whether it must be there, and whether a draft fits it. -/
structure Field where
  name : String
  /-- Whether the object form needs it. -/
  required : Bool
  /-- Whether the array form needs an item for it. -/
  positional : Bool
  check : Decoder Unit

/-- A description of an object: its fields in order, and how to build a value from the drafts found
for them. -/
structure Record (α : Type) where
  fields : List Field
  build : Origin → (String → Option Draft) → Except DecodeError α

namespace Record

variable {α β : Type}

/-- Nothing to read. -/
def constant (a : α) : Record α := ⟨[], fun _ _ => .ok a⟩

instance : Pure Record := ⟨constant⟩

instance : Seq Record where
  seq rf ra :=
    let ra := ra ()
    ⟨rf.fields ++ ra.fields, fun origin find => do
      let f ← rf.build origin find
      return f (← ra.build origin find)⟩

instance : Functor Record where
  map f r := ⟨r.fields, fun origin find => (r.build origin find).map f⟩

/-- A field that must be there. -/
def required (name : String) (decoder : Decoder α) : Record α where
  fields := [⟨name, true, true, decoder.map fun _ => ()⟩]
  build origin find :=
    match find name with
    | some draft => decoder origin draft
    | none => Decoder.fail (.missingField name)

/-- A field with a value for when it is absent. -/
def defaulted (name : String) (decoder : Decoder α) (value : α) : Record α where
  fields := [⟨name, false, false, decoder.map fun _ => ()⟩]
  build origin find :=
    match find name with
    | some draft => decoder origin draft
    | none => .ok value

/-- A field that may be absent or `null`. -/
def optional (name : String) (decoder : Decoder α) : Record (Option α) :=
  defaulted name decoder.option none

/-- A field that may be absent or `null`, but has its place in the array form. -/
def nullable (name : String) (decoder : Decoder α) : Record (Option α) where
  fields := [⟨name, false, true, decoder.option.map fun _ => ()⟩]
  build := (optional name decoder).build

/-- Checks the members of an object in the order of the document. -/
def checkMembers (origin : Origin) (fields : List Field) (seen : List String) :
    List (Draft × Draft) → Except DecodeError Unit
  | [] => .ok ()
  | (.string key, value) :: rest => do
    match fields.find? fun field => field.name == key with
    | some field =>
      if seen.contains key then Decoder.fail (.duplicateField key)
      else field.check origin value
    | none => Decoder.ofFault value.skip
    checkMembers origin fields (key :: seen) rest
  | (.broken fault _, _) :: _ => .error (.fault fault)
  | _ :: _ => .error (.fault .malformed)

/-- The draft of a member. -/
def findMember (members : List (Draft × Draft)) (name : String) : Option Draft :=
  members.findSome? fun member =>
    match member.1 with
    | .string key => if key = name then some member.2 else none
    | _ => none

/-- How many elements a record has in its array form. -/
def elements (n : Nat) : String :=
  toString n ++ (if n = 1 then " element" else " elements")

/-- The position of the first field that an array is too short for. -/
def firstMissing? (length : Nat) (fields : List Field) : Option Nat :=
  (fields.zipIdx.drop length).findSome? fun (field, i) => if field.positional then some i else none

/-- Checks items against fields, position by position. -/
def checkItems (origin : Origin) : List Field → List Draft → Except DecodeError Unit
  | field :: fields, item :: items => do
    field.check origin item
    checkItems origin fields items
  | _, _ => .ok ()

/-- Complains about items beyond the last field. -/
def checkExcess (origin : Origin) (fields items : Nat) : Except DecodeError Unit :=
  if items ≤ fields then .ok ()
  else match origin with
    | .text => .error (.fault .malformed)
    | .value => Decoder.fail (.invalidLength items "fewer elements in array")
    | .held => Decoder.fail (.invalidLength items (elements fields ++ " in sequence"))

/-- Decodes the object form or the array form of a record of a given name. -/
def decoder (name : String) (record : Record α) : Decoder α := fun origin draft =>
  match draft with
  | .object members ending => do
    checkMembers origin record.fields [] members
    Decoder.ofFault (Draft.proceed ending)
    let find := findMember members
    match record.fields.find? fun field => field.required && (find field.name).isNone with
    | some field => Decoder.fail (.missingField field.name)
    | none => record.build origin find
  | .array items ending => do
    let count := record.fields.length
    checkItems origin record.fields items
    if items.length < count then
      Decoder.ofFault (Draft.proceed ending)
      match firstMissing? items.length record.fields with
      | some i =>
        Decoder.fail (.invalidLength i ("struct " ++ name ++ " with " ++ elements count))
      | none => pure ()
    else
      checkExcess origin count items.length
      Decoder.ofFault (Draft.proceed ending)
    let table := (record.fields.map Field.name).zip items
    record.build origin fun field => table.lookup field
  | draft => Decoder.unexpected ("struct " ++ name) draft

end Record

/-! ## Tagged objects -/

/-- What a tagged object holds besides its tag. -/
def tagOf {α : Type} (names : List (α × List String)) : Decoder α
  | _, .string s => Decoder.lookupName names s
  | _, draft => Decoder.unexpected "variant identifier" draft

/-- Splits the members of an object into the tag and the others, in the order of the document. -/
def splitTag {α : Type} (tag : String) (names : List (α × List String)) (origin : Origin) :
    Option α → List (Draft × Draft) → Except DecodeError (Option α × List (String × Json))
  | found, [] => .ok (found, [])
  | found, (.string key, value) :: rest => do
    if key = tag then
      if found.isSome then Decoder.fail (.duplicateField tag)
      else splitTag tag names origin (some (← tagOf names origin value)) rest
    else
      let content ← Decoder.ofFault (value.toJson? (maxDepth - 1))
      let (found, others) ← splitTag tag names origin found rest
      return (found, (key, content) :: others)
  | _, (.broken fault _, _) :: _ => .error (.fault fault)
  | _, _ :: _ => .error (.fault .malformed)

/-- An object with a member that says which of several types the other members describe. The others
are held back until the tag is known; in array form the tag comes first. -/
def tagged {α β : Type} (name tag : String) (names : List (α × List String))
    (content : α → Decoder β) : Decoder β := fun origin draft =>
  match draft with
  | .object members ending => do
    let (found, others) ← splitTag tag names origin none members
    Decoder.ofFault (Draft.proceed ending)
    match found with
    | some a => content a .held (Draft.ofJson (.object others))
    | none => Decoder.fail (.missingField tag)
  | .array [] ending => do
    Decoder.ofFault (Draft.proceed ending)
    Decoder.fail (.missingField tag)
  | .array (first :: rest) ending => do
    let a ← tagOf names origin first
    let others ← Decoder.ofFault (Draft.toItems? (maxDepth - 1) rest)
    Decoder.ofFault (Draft.proceed ending)
    content a .held (Draft.ofJson (.array others))
  | draft => Decoder.unexpected ("internally tagged enum " ++ name) draft

/-! ## Documents -/

namespace Decoder

variable {α : Type}

/-- Decodes a whole text. -/
def ofText (decoder : Decoder α) (text : String) : Except DecodeError α := do
  let (draft, trailing) := read text
  let a ← decoder .text draft
  ofFault (finish trailing)
  return a

/-- Decodes the value a text begins with; what follows it does not matter. -/
def ofBeginning (decoder : Decoder α) (text : String) : Except DecodeError α :=
  decoder .text (read text).1

/-- Decodes a value. -/
def ofValue (decoder : Decoder α) (value : Json) : Except DecodeError α :=
  decoder .value (Draft.ofJson value)

end Decoder

end Slideshow.Json
