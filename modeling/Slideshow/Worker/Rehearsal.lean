import Slideshow.Worker.Counters
import Slideshow.Worker.Handle
import Slideshow.Worker.Memory

/-! # Rehearsals

Surroundings in memory that keep a journal of all calls and fail where a script tells them to. A
call that fails is in the journal and has no effect. -/

namespace Slideshow

/-- What a script does to a call. -/
inductive Mishap where
  | fails
  /-- A call that asks for a truth value is answered with this one. -/
  | answers (value : Bool)
deriving Repr, DecidableEq

/-- What happens to the `n`-th call of a name, counted from zero. -/
abbrev Script := String → Nat → Option Mishap

/-- A call in the journal, with what the file holds that it is about to upload. -/
structure JournalEntry (α : Type) where
  call : WorkerCall α
  content : Option (Content α)

/-- The state of a rehearsal. -/
structure Rehearsal (α : Type) where
  memory : Memory α := {}
  journal : List (JournalEntry α) := []
  /-- How often each name was called. -/
  counts : List (String × Nat) := []
  /-- What was counted. -/
  counters : List Counter := []

namespace WorkerCall

variable {α : Type}

def name : WorkerCall α → String
  | store (.load _) => "get"
  | store (.setBatchCount _ _) => "set_batch_count"
  | store (.setStatus _ _ _) => "set_status"
  | store (.appendOutput _ _) => "append_output"
  | store (.claimJoin _ _) => "claim_join"
  | store (.markFailed _ _) => "mark_failed"
  | dispatch _ => "dispatch"
  | upload _ _ _ => "upload"
  | download _ _ => "download"
  | render _ _ => "render"
  | duration _ => "duration"
  | frameSize _ => "frame_size"
  | filterValid _ => "filter_valid"
  | fetch _ _ | fetchAll _ _ => "fetch"
  | audioCatalog => "audio_catalog"

/-- The error of a call that a script lets fail. -/
def mishapError (c : WorkerCall α) : WorkerError :=
  match c with
  | dispatch batch => .queue (.duplicate batch.idempotencyKey)
  | upload id segment _ => .blob (.upload (Blob.videoKey id segment) "injected")
  | download url _ => .blob (.download url "injected")
  | fetch url _ => .media (.fetchFailed url 3 "injected")
  | audioCatalog => .media (.fetchFailed "catalog" 3 "injected")
  | store _ => .store (.requestFailed ("injected " ++ c.name))
  | _ => .media (.internal ("injected " ++ c.name))

/-- The answer of a call that fails. -/
def failed (e : WorkerError) : (c : WorkerCall α) → c.Answer
  | store (.load _) => (.error e : Except WorkerError (Option JobRecord))
  | store (.claimJoin _ _) => (.error e : Except WorkerError Bool)
  | store (.setBatchCount _ _) | store (.setStatus _ _ _) | store (.appendOutput _ _)
  | store (.markFailed _ _) => (.error e : Except WorkerError Unit)
  | dispatch _ => .error e
  | upload _ _ _ => .error e
  | download _ _ => .error e
  | render _ _ => .error e
  | duration _ => .error e
  | frameSize _ => .error e
  | filterValid _ => []
  | fetch _ _ => .error e
  | fetchAll _ _ => .error e
  | audioCatalog => .error e

/-- The answer of a call under a mishap. -/
def under (mishap : Mishap) (c : WorkerCall α) : c.Answer :=
  match c, mishap with
  | store (.claimJoin _ _), .answers b => (.ok b : Except WorkerError Bool)
  | c, _ => c.failed c.mishapError

/-- Whether a call that is counted succeeded. -/
def countsAsDone : (c : WorkerCall α) → c.Answer → Bool
  | store (.appendOutput _ _), .ok _ => true
  | store (.setStatus _ _ _), .ok _ => true
  | _, _ => false

end WorkerCall

namespace Rehearsal

variable {α : Type}

/-- Writes a call into the journal, and looks up what happens to it. -/
def note (script : Script) (c : WorkerCall α) : StateM (Rehearsal α) (Option Mishap) := fun r =>
  let k := (r.counts.lookup c.name).getD 0
  let content := match c with
    | .upload _ _ path => r.memory.files.lookup path
    | _ => none
  (script c.name k,
    { r with
      journal := r.journal ++ [⟨c, content⟩]
      counts := (c.name, k + 1) :: r.counts.filter fun entry => entry.1 != c.name })

/-- A single call. -/
def answerOne (s : Surroundings α) (script : Script) (c : WorkerCall α) :
    StateM (Rehearsal α) c.Answer := do
  match ← note script c with
  | some mishap => return c.under mishap
  | none => fun r =>
    let (a, memory) := (Memory.answer s c).run r.memory
    (a, { r with memory })

/-- Fetches files one by one. -/
def fetchAll (s : Surroundings α) (script : Script) (directory : String) :
    List String → StateM (Rehearsal α) (Except WorkerError (List String))
  | [] => pure (.ok [])
  | url :: rest => do
    match ← answerOne s script (.fetch url directory) with
    | .error e => return .error e
    | .ok path => return (← fetchAll s script directory rest).map (path :: ·)

/-- The answer to a call. -/
def answer (s : Surroundings α) (script : Script) :
    (c : WorkerCall α) → StateM (Rehearsal α) c.Answer
  | .fetchAll urls directory => fetchAll s script directory urls
  | c => answerOne s script c

/-- The answer to a call within the delivery of a message, which is counted. -/
def answerCounted (s : Surroundings α) (script : Script) (job : QueueJob α) (c : WorkerCall α) :
    StateM (Rehearsal α) c.Answer := do
  let a ← answer s script c
  if c.countsAsDone a then
    modify fun r => { r with counters := r.counters ++ Worker.callCounters job c }
  return a

/-- Delivers a message; its files are removed at the end. -/
def deliver [Scalar α] (limits : WorkerLimits) (w : Workplace) (s : Surroundings α)
    (script : Script) (job : QueueJob α) :
    StateM (Rehearsal α) (Except WorkerError Unit) := do
  let result ← (Worker.handle limits w job).run (answerCounted s script job)
  modify fun r =>
    { r with
      counters := r.counters ++ Worker.outcomeCounters job result.toBool
      memory := { r.memory with files := [] } }
  return result

end Rehearsal

end Slideshow
