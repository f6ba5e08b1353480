import Slideshow.Metrics
import Slideshow.Worker.Call

/-! # What is counted about jobs

A delivery counts once, by kind and outcome. Within it the parts that were rendered and the joins
that were finished are read off the calls that succeeded. -/

namespace Slideshow.Worker

variable {α : Type}

/-- What a call that succeeded counts as, in the delivery of a message. -/
def callCounters (job : QueueJob α) : WorkerCall α → List Counter
  | .store (.appendOutput _ _) => [⟨"reel_batches_rendered_total", []⟩]
  | .store (.setStatus _ _ _) =>
    match job with
    | .renderBatch _ => [⟨"reel_joins_completed_total", []⟩]
    | .createVideo _ => []
  | _ => []

/-- What the end of a delivery counts as. -/
def outcomeCounters (job : QueueJob α) (succeeded : Bool) : List Counter :=
  let outcome := if succeeded then "success" else "failure"
  let ended : Counter :=
    ⟨"reel_jobs_total", [("kind", job.kind.text), ("outcome", outcome)]⟩
  match job, succeeded with
  | .renderBatch _, false => [ended, ⟨"reel_batches_failed_total", []⟩]
  | _, _ => [ended]

end Slideshow.Worker
