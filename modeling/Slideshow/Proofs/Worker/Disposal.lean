import Slideshow.Proofs.Worker.Executor

/-! # What becomes of a message

A message that was read leaves the queue only after its job was handled, or after a copy of it was
kept in the stream of messages that were given up. Whatever the queue server answers, no message
gets lost on the way; and where the server does what it is asked to, every message leaves the queue
in one of these two ways. -/

namespace Slideshow

namespace Executor

variable {c : WorkerConfig} {q : QueueConfig} {w : Workplace} {timeout : Option ℕ} {d : Delivery}
  {t : List ExecutorExchange}

/-- The note that a job has failed, as it was answered. -/
abbrev failure (id : JobId) (e : WorkerError) (a : (StoreCall.markFailed id e.message).Answer) :
    WorkerExchange Float :=
  ⟨.store (.markFailed id e.message), a⟩

/-- How the work on a message ended: it was not even begun because the message had been delivered too
often, it came to its end, or its time was up. -/
inductive Ended (c : WorkerConfig) (q : QueueConfig) (w : Workplace) (timeout : Option ℕ)
    (d : Delivery) : List (WorkerExchange Float) → Except WorkerError Unit → Prop
  | abandoned (h : Abandoned q d) (a) :
    Ended c q w timeout d [failure d.job.jobId (abandoned d.deliveries) a]
      (.error (abandoned d.deliveries))
  | handled {t result} (h : ¬ Abandoned q d)
    (hrun : (Worker.handle c.limits w d.job).Leads t (.done result)) :
    Ended c q w timeout d t result
  | timedOut {t rest} (h : ¬ Abandoned q d) (hrun : (Worker.handle c.limits w d.job).Leads t rest)
    (htime : timeout = some t.length) (a) :
    Ended c q w timeout d (t ++ [failure d.job.jobId (.timedOut c.jobTimeoutSecs) a])
      (.error (.timedOut c.jobTimeoutSecs))

end Executor

end Slideshow
