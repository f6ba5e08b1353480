import Slideshow.Json.Decoder

/-! # What can go wrong with the document store -/

namespace Slideshow

/-- An error of the document store. -/
inductive StoreError where
  | misconfigured (reason : String)
  | unauthenticated (reason : String)
  | notFound (path : String)
  | alreadyExists (reason : String)
  | permissionDenied (reason : String)
  | requestFailed (reason : String)
  | serverError (status : Nat) (reason : String)
  | invalidResponse (reason : String)
  /-- The store asks to wait for some milliseconds. -/
  | rateLimited (milliseconds : Nat)
  /-- No answer arrived. -/
  | network (reason : String)
  | unreadable (error : Json.DecodeError)
  /-- The document is not in the state that the request asked for. -/
  | preconditionFailed (reason : String)

namespace StoreError

/-- Milliseconds to wait when the store says that it gets too many requests. -/
def rateLimitMs : Nat := 1000

/-- Whether a text occurs within another one. -/
def occursIn (pattern : String) (text : String) : Bool := text.contains pattern

theorem occursIn_iff {pattern text : String} :
    occursIn pattern text = true ↔ pattern.toList <:+: text.toList :=
  String.contains_string_iff

/-- What occurs in a part occurs in the whole. -/
theorem occursIn_append_right {pattern text : String} (front : String)
    (h : occursIn pattern text = true) : occursIn pattern (front ++ text) = true := by
  rw [occursIn_iff] at h ⊢
  rw [String.toList_append]
  exact h.trans (List.suffix_append _ _).isInfix

/-- The error of an answer that reports no success. A stale document is reported by a word in the
answer, whatever its status. -/
def ofStatus (status : Nat) (reason : String) : StoreError :=
  if occursIn "FAILED_PRECONDITION" reason then preconditionFailed reason
  else match status with
    | 401 => unauthenticated reason
    | 403 => permissionDenied reason
    | 404 => notFound reason
    | 409 => alreadyExists reason
    | 412 => preconditionFailed reason
    | 429 => rateLimited rateLimitMs
    | _ => if 500 ≤ status && status ≤ 599 then serverError status reason else requestFailed reason

/-- The status that an error stands for. -/
def status? : StoreError → Option Nat
  | unauthenticated _ => some 401
  | permissionDenied _ => some 403
  | notFound _ => some 404
  | alreadyExists _ => some 409
  | preconditionFailed _ => some 412
  | rateLimited _ => some 429
  | serverError status _ => some status
  | requestFailed _ => some 400
  | misconfigured _ | invalidResponse _ | network _ | unreadable _ => none

/-- How long the store asks to wait. -/
def retryAfterMs? : StoreError → Option Nat
  | rateLimited ms => some ms
  | _ => none

/-- Whether the same request may succeed later. -/
def isRetryable : StoreError → Bool
  | network _ | rateLimited _ | serverError _ _ => true
  | _ => false

/-- Whether the document was not in the state asked for. -/
def isPreconditionFailed : StoreError → Bool
  | preconditionFailed _ => true
  | _ => false

def kind : StoreError → String
  | misconfigured _ => "ConfigError"
  | unauthenticated _ => "AuthError"
  | notFound _ => "NotFound"
  | alreadyExists _ => "AlreadyExists"
  | permissionDenied _ => "PermissionDenied"
  | requestFailed _ => "RequestFailed"
  | serverError _ _ => "ServerError"
  | invalidResponse _ => "InvalidResponse"
  | rateLimited _ => "RateLimited"
  | network _ => "Network"
  | unreadable _ => "Json"
  | preconditionFailed _ => "PreconditionFailed"

def message : StoreError → String
  | misconfigured reason => "Configuration error: " ++ reason
  | unauthenticated reason => "Authentication failed: " ++ reason
  | notFound path => "Document not found: " ++ path
  | alreadyExists reason => "Document already exists: " ++ reason
  | permissionDenied reason => "Permission denied: " ++ reason
  | requestFailed reason => "Request failed: " ++ reason
  | serverError status reason => "Server error " ++ toString status ++ ": " ++ reason
  | invalidResponse reason => "Invalid response: " ++ reason
  | rateLimited ms => "Rate limited, retry after " ++ toString ms ++ "ms"
  | network reason => "Network error: " ++ reason
  | unreadable error => "JSON error: " ++ error.reason
  | preconditionFailed reason => "Precondition failed: " ++ reason

end StoreError

end Slideshow
