import Slideshow.Report.Basic
import Slideshow.Worker.Error

/-! # Reports of errors

An error is reported by its kind and its words. The words are left out where they depend on the
surroundings. -/

namespace Slideshow.Report

/-- Kind and words of an error. -/
def failure (kind : String) (message : Option String) : List (String × Json) :=
  item "error" kind :: Json.member? "message" (message.map .string)

/-- Kind, category and words of the error of a document. -/
def decodeFailure (kind : String) (e : Json.DecodeError) : List (String × Json) :=
  [item "error" kind, item "category" (match e.category with
    | .notJson => "syntax"
    | .unfinished => "eof"
    | .data => "data")] ++
  match e with
  | .mismatch m => [item "message" m.message]
  | .fault _ => []

instance : Report Json.DecodeError := ⟨fun e => .object (decodeFailure "Json" e)⟩
instance : Report RequestError := ⟨fun e => .object (failure e.kind e.message)⟩
instance : Report GraphError := ⟨fun e => .object (failure e.kind e.message)⟩
instance : Report BlobError := ⟨fun e => .object (failure e.kind e.message)⟩

instance : Report MediaError where
  out e := .object <|
    (match e with
      | .unreadableJson error => decodeFailure e.kind error
      | .file _ => failure e.kind none
      | e => failure e.kind e.message) ++
    [item "defect" e.isGraphDefect] ++
    match e with
      | .renderFailed _ stderr code => [item "stderr" stderr, item "exit_code" code]
      | .probeFailed _ stderr => [item "stderr" stderr]
      | _ => []

instance : Report StoreError where
  out e :=
    let message := match e with
      | .network _ | .unreadable _ => none
      | e => some e.message
    .object [item "error" e.kind, item "message" message]

instance : Report QueueError where
  out e := .object <|
    failure e.kind (if e.isDuplicate then some e.message else none) ++
    [item "duplicate" e.isDuplicate]

/-- Whether the words of an error are the same whatever the surroundings are. -/
def hasFixedWords : WorkerError → Bool
  | .file _ | .blob (.file _) => false
  | .media (.file _) | .media (.unreadableJson _) => false
  | .store (.network _) | .store (.unreadable _) => false
  | .queue (.duplicate _) => true
  | .queue _ => false
  | _ => true

instance : Report WorkerError where
  out e := .object <|
    failure e.kind (if hasFixedWords e then some e.message else none) ++
    [item "defect" e.isDefect]

end Slideshow.Report
