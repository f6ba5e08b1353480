import Slideshow.Json.Decoder
import Slideshow.Store.Value

/-! # Documents of the store

Documents, and the writes that change them, as they go over the wire. What is absent is not
written. -/

namespace Slideshow

open Json (Decoder Record)

namespace StoreValue

mutual

/-- Writes a value under the name of its kind. -/
def toJson : StoreValue → Json
  | .null => .object [("nullValue", .null)]
  | .boolean b => .object [("booleanValue", .bool b)]
  | .integer s => .object [("integerValue", .string s)]
  | .double x => .object [("doubleValue", .real x)]
  | .timestamp s => .object [("timestampValue", .string s)]
  | .string s => .object [("stringValue", .string s)]
  | .array none => .object [("arrayValue", .object [])]
  | .array (some values) => .object [("arrayValue", .object [("values", .array (toItems values))])]
  | .map none => .object [("mapValue", .object [])]
  | .map (some fields) => .object [("mapValue", .object [("fields", .object (toMembers fields))])]

def toItems : List StoreValue → List Json
  | [] => []
  | v :: rest => v.toJson :: toItems rest

def toMembers : List (String × StoreValue) → List (String × Json)
  | [] => []
  | (key, v) :: rest => (key, v.toJson) :: toMembers rest

end

/-- Reads the elements of an array. -/
def arrayDecoder (value : Decoder StoreValue) : Decoder (Option (List StoreValue)) :=
  Record.decoder "ArrayValue" (.optional "values" (.list value))

/-- Reads the fields of a map. -/
def mapDecoder (value : Decoder StoreValue) : Decoder (Option (List (String × StoreValue))) :=
  Record.decoder "MapValue" (.optional "fields" (.table value))

/-- Reads a value that nests at most `depth` levels deep. -/
def decoderTo : Nat → Decoder StoreValue
  | 0 => fun _ _ => .error (.fault .malformed)
  | depth + 1 => .keyed
    [("nullValue", Decoder.unit.map fun _ => .null),
     ("booleanValue", Decoder.bool.map .boolean),
     ("integerValue", Decoder.string.map .integer),
     ("doubleValue", Decoder.float.map .double),
     ("timestampValue", Decoder.string.map .timestamp),
     ("stringValue", Decoder.string.map .string),
     ("arrayValue", (arrayDecoder (decoderTo depth)).map .array),
     ("mapValue", (mapDecoder (decoderTo depth)).map .map)]

/-- Reads a value. It cannot be nested deeper than the JSON text it stands in. -/
def decoder : Decoder StoreValue := decoderTo Json.maxDepth

end StoreValue

/-- A document. -/
structure Document where
  /-- The full name. -/
  name : Option String := none
  fields : Option (List (String × StoreValue)) := none
  createTime : Option String := none
  /-- When the document was last written, as the store tells it. -/
  updateTime : Option String := none

namespace Document

/-- A field. -/
def field? (d : Document) (name : String) : Option StoreValue :=
  d.fields.bind fun fs => fs.lookup name

def decoder : Decoder Document :=
  Record.decoder "Document" <|
    pure Document.mk
      <*> .optional "name" .string
      <*> .optional "fields" (.table StoreValue.decoder)
      <*> .optional "createTime" .string
      <*> .optional "updateTime" .string

def toJson (d : Document) : Json :=
  .object <|
    Json.member? "name" (d.name.map .string)
    ++ Json.member? "fields" (d.fields.map fun fs => .object (StoreValue.toMembers fs))
    ++ Json.member? "createTime" (d.createTime.map .string)
    ++ Json.member? "updateTime" (d.updateTime.map .string)

end Document

/-- What a document has to be like for a write to happen. -/
structure Precondition where
  /-- Whether it has to be there. -/
  present : Option Bool := none
  /-- When it has to have been written last. -/
  updateTime : Option String := none
deriving Repr, DecidableEq

namespace Precondition

/-- The document has to be there. -/
def exists? : Precondition := { present := some true }

def decoder : Decoder Precondition :=
  Record.decoder "Precondition" <|
    pure Precondition.mk <*> .nullable "exists" .bool <*> .nullable "updateTime" .string

def toJson (p : Precondition) : Json :=
  .object <|
    Json.member? "exists" (p.present.map .bool)
    ++ Json.member? "updateTime" (p.updateTime.map .string)

end Precondition

/-- A change that the store makes to a field: elements that are not there yet are appended. -/
structure FieldTransform where
  fieldPath : String
  appendMissing : Option (Option (List StoreValue))

namespace FieldTransform

def decoder : Decoder FieldTransform :=
  Record.decoder "FieldTransform" <|
    pure FieldTransform.mk
      <*> .required "fieldPath" .string
      <*> .nullable "appendMissingElements" (StoreValue.arrayDecoder StoreValue.decoder)

def toJson (t : FieldTransform) : Json :=
  .object <|
    ("fieldPath", .string t.fieldPath) ::
    Json.member? "appendMissingElements" (t.appendMissing.map fun values =>
      .object (Json.member? "values" (values.map fun vs => .array (StoreValue.toItems vs))))

end FieldTransform

/-- A write, one of several that happen together. -/
structure DocumentWrite where
  update : Option Document := none
  /-- The fields that are written; those of them that the update does not have are deleted. -/
  mask : Option (List String) := none
  transforms : List FieldTransform := []
  precondition : Option Precondition := none

namespace DocumentWrite

/-- Reads the names of fields. -/
def maskDecoder : Decoder (List String) :=
  Record.decoder "DocumentMask" (.required "fieldPaths" (.list .string))

def decoder : Decoder DocumentWrite :=
  Record.decoder "Write" <|
    pure DocumentWrite.mk
      <*> .nullable "update" Document.decoder
      <*> .nullable "updateMask" maskDecoder
      <*> .defaulted "updateTransforms" (.list FieldTransform.decoder) []
      <*> .nullable "currentDocument" Precondition.decoder

def toJson (w : DocumentWrite) : Json :=
  .object <|
    Json.member? "update" (w.update.map Document.toJson)
    ++ Json.member? "updateMask" (w.mask.map fun paths =>
      .object [("fieldPaths", Json.strings paths)])
    ++ (if w.transforms.isEmpty then []
      else [("updateTransforms", .array (w.transforms.map FieldTransform.toJson))])
    ++ Json.member? "currentDocument" (w.precondition.map Precondition.toJson)

end DocumentWrite

/-- What the store says after writes that happened together. -/
structure CommitReply where
  /-- When each of the documents was written. -/
  updateTimes : List (Option String)
  commitTime : Option String

namespace CommitReply

def decoder : Decoder CommitReply :=
  Record.decoder "CommitResponse" <|
    pure CommitReply.mk
      <*> .defaulted "writeResults"
        (.list (Record.decoder "WriteResult" (.nullable "updateTime" .string))) []
      <*> .nullable "commitTime" .string

def toJson (r : CommitReply) : Json :=
  .object
    [("writeResults", .array (r.updateTimes.map fun t =>
      .object [("updateTime", Json.ofOption .string t)])),
     ("commitTime", Json.ofOption .string r.commitTime)]

end CommitReply

end Slideshow
