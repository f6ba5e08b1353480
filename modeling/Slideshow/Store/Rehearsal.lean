import Slideshow.Store.Retry
import Slideshow.Store.Token

/-! # Rehearsals of trying again and of tokens

The outcomes of tries and the answers of a provider of tokens are given in advance, and what is
asked is counted. -/

namespace Slideshow

variable {β : Type}

/-- The error of a kind, of those that a script can ask for. -/
def StoreError.ofKind? (kind reason : String) (status milliseconds : Nat) : Option StoreError :=
  match kind with
  | "ConfigError" => some (misconfigured reason)
  | "AuthError" => some (unauthenticated reason)
  | "NotFound" => some (notFound reason)
  | "AlreadyExists" => some (alreadyExists reason)
  | "PermissionDenied" => some (permissionDenied reason)
  | "RequestFailed" => some (requestFailed reason)
  | "ServerError" => some (serverError status reason)
  | "InvalidResponse" => some (invalidResponse reason)
  | "RateLimited" => some (rateLimited milliseconds)
  | "PreconditionFailed" => some (preconditionFailed reason)
  | _ => none

/-- What is known while something is tried. -/
structure RetryRehearsal (β : Type) where
  /-- How the next tries end. -/
  outcomes : List (Except StoreError β)
  calls : Nat := 0
  /-- Milliseconds of every wait. -/
  waits : List Nat := []
  counters : List Counter := []

namespace RetryRehearsal

/-- Takes the next outcome, or one for when there is none left. -/
def take (last : β) : StateM (RetryRehearsal β) (Except StoreError β) := fun r =>
  match r.outcomes with
  | [] => (.ok last, { r with calls := r.calls + 1 })
  | outcome :: rest => (outcome, { r with outcomes := rest, calls := r.calls + 1 })

/-- The answer to a call, where `jitter` picks a number up to a limit. -/
def answer (last : β) (jitter : Nat → Nat) :
    (c : RetryCall) → StateM (RetryRehearsal β) (c.Answer β)
  | .attempt => take last
  | .jitter limit => pure (min (jitter limit) limit : Nat)
  | .wait milliseconds => modify fun r => { r with waits := r.waits ++ [milliseconds] }
  | .count event => modify fun r => { r with counters := r.counters ++ [event] }

/-- Tries an operation whose outcomes are given. -/
def run (p : RetryPolicy) (operation : String) (last : β) (jitter : Nat → Nat)
    (outcomes : List (Except StoreError β)) : Except StoreError β × RetryRehearsal β :=
  ((Retry.run p operation).run (answer last jitter)).run { outcomes }

end RetryRehearsal

/-- What is known while tokens are used. -/
structure TokenRehearsal where
  /-- What the provider answers next. -/
  answers : List (Except String AccessToken)
  cache : TokenCache := {}
  /-- How often the provider was asked. -/
  calls : Nat := 0

namespace TokenRehearsal

/-- Asks the provider, who has nothing to give in the end. -/
def issue : StateM TokenRehearsal (Except String AccessToken) := fun r =>
  match r.answers with
  | [] => (.error "denied", { r with calls := r.calls + 1 })
  | a :: rest => (a, { r with answers := rest, calls := r.calls + 1 })

/-- The answer to a call. -/
def answer : (c : ProviderCall) → StateM TokenRehearsal c.Answer
  | .issue => issue

/-- A token at a time. -/
def token (now : Nat) : StateM TokenRehearsal (Except StoreError String) := do
  let (result, cache) ← ((← get).cache.token now).run answer
  modify fun r => { r with cache }
  return result

/-- Forgets the token kept. -/
def invalidate : StateM TokenRehearsal Unit :=
  modify fun r => { r with cache := r.cache.invalidate }

end TokenRehearsal

end Slideshow
