import Slideshow.Metrics
import Slideshow.Program
import Slideshow.Scalar
import Slideshow.Store.Error

/-! # Trying again

What fails for a moment is tried again, with waits that double from try to try, are varied at random
and never exceed a limit. When the store says how long to wait, that is the wait. -/

namespace Slideshow

/-- How often and how patiently the store is asked again. -/
structure RetryPolicy where
  maxRetries : Nat := 3
  /-- Milliseconds of the first wait. -/
  baseDelayMs : Nat := 100
  /-- Milliseconds of the longest wait. -/
  maxDelayMs : Nat := 5000
deriving Repr, DecidableEq

namespace RetryPolicy

/-- The longest wait after try `k`, counted from zero: the base doubled `k` times, within 64 bits
and within the limit. -/
def backoff (p : RetryPolicy) (k : Nat) : Nat :=
  min (min (p.baseDelayMs * Nat.pow 2 k) maxWord64) p.maxDelayMs

/-- The shortest wait that goes with a longest one. -/
def shortest (p : RetryPolicy) (longest : Nat) : Nat := min p.baseDelayMs longest

end RetryPolicy

/-- A call made while trying. -/
inductive RetryCall where
  /-- One try. -/
  | attempt
  /-- A random number up to a limit. -/
  | jitter (limit : Nat)
  | wait (milliseconds : Nat)
  | count (event : Counter)
deriving Repr, DecidableEq

/-- What a call is answered with, where a try gives a value of type `β`. -/
def RetryCall.Answer (β : Type) : RetryCall → Type
  | attempt => Except StoreError β
  | jitter _ => Nat
  | wait _ | count _ => Unit

namespace Retry

variable {β : Type}

def ask (c : RetryCall) : Program (RetryCall.Answer β) (c.Answer β) := Program.ask c

/-- One try. -/
def attempt : Program (RetryCall.Answer β) (Except StoreError β) := ask .attempt

/-- A random number up to a limit, zero without a call if that is the limit. -/
def jitter (limit : Nat) : Program (RetryCall.Answer β) Nat :=
  if limit = 0 then return 0 else ask (.jitter limit)

theorem jitter_eq_done {limit : Nat} (h : limit = 0) : jitter (β := β) limit = .done (0 : Nat) :=
  if_pos h

theorem jitter_eq_ask {limit : Nat} (h : limit ≠ 0) :
    jitter (β := β) limit = ask (.jitter limit) := if_neg h

/-- Waits. -/
def wait (milliseconds : Nat) : Program (RetryCall.Answer β) Unit := ask (.wait milliseconds)

/-- Counts an event. -/
def count (event : Counter) : Program (RetryCall.Answer β) Unit := ask (.count event)

/-- The wait after try `k` ended with an error. -/
def delay (p : RetryPolicy) (k : Nat) (e : StoreError) : Program (RetryCall.Answer β) Nat :=
  match e.retryAfterMs? with
  | some after => return min after p.maxDelayMs
  | none => do
    let longest := p.backoff k
    return max (← jitter longest) (p.shortest longest)

/-- The counter of repeated tries. -/
def retries (operation : String) : Counter :=
  ⟨"reel_firestore_retries_total", [("operation", operation)]⟩

/-- Try `k`, and if it fails for a moment as many more as are left. -/
def attempts (p : RetryPolicy) (operation : String) (k : Nat) :
    Nat → Program (RetryCall.Answer β) (Except StoreError β)
  | 0 => attempt
  | left + 1 => do
    match ← attempt with
    | .ok b => return .ok b
    | .error e =>
      if e.isRetryable then
        let ms ← delay p k e
        count (retries operation)
        wait ms
        attempts p operation (k + 1) left
      else return .error e

/-- Tries an operation until it succeeds, fails for good, or has failed too often. -/
def run (p : RetryPolicy) (operation : String) :
    Program (RetryCall.Answer β) (Except StoreError β) :=
  attempts p operation 0 p.maxRetries

end Retry

end Slideshow
