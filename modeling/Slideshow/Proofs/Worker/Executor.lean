import Slideshow.Proofs.Queue.Removal
import Slideshow.Proofs.Worker.Handle
import Slideshow.Worker.Executor

/-! # What is called while the queue is worked through

A message that is read is handled, cut off or given up. The record of its job is changed only when
there is something left to do, when the time is up, or when the message is given up. -/

namespace Slideshow

open Program

/-- A call and its answer while the queue is worked through. -/
abbrev ExecutorExchange := Exchange ExecutorCall.Answer

/-- What the worker was told, apart from what the queue was told. -/
def worked (t : List ExecutorExchange) : List (WorkerExchange Float) :=
  t.filterMap fun
    | ⟨.work c, a⟩ => some ⟨c, a⟩
    | ⟨.queue _, _⟩ => none

/-- What the queue was told, apart from what the worker was told. -/
def queued (t : List ExecutorExchange) : List QueueExchange :=
  t.filterMap fun
    | ⟨.queue c, a⟩ => some ⟨c, a⟩
    | ⟨.work _, _⟩ => none

@[simp] theorem worked_work (t : List ExecutorExchange) (c : WorkerCall Float) (a : c.Answer) :
    worked (t ++ [⟨.work c, a⟩]) = worked t ++ [⟨c, a⟩] := by
  simp [worked, List.filterMap_append]

@[simp] theorem worked_queue (t : List ExecutorExchange) (c : QueueCall) (a : c.Answer) :
    worked (t ++ [⟨.queue c, a⟩]) = worked t := by
  simp [worked, List.filterMap_append]

@[simp] theorem queued_work (t : List ExecutorExchange) (c : WorkerCall Float) (a : c.Answer) :
    queued (t ++ [⟨.work c, a⟩]) = queued t := by
  simp [queued, List.filterMap_append]

@[simp] theorem queued_queue (t : List ExecutorExchange) (c : QueueCall) (a : c.Answer) :
    queued (t ++ [⟨.queue c, a⟩]) = queued t ++ [⟨c, a⟩] := by
  simp [queued, List.filterMap_append]

theorem mem_worked {t : List ExecutorExchange} {e : WorkerExchange Float} :
    e ∈ worked t ↔ (⟨.work e.call, e.answer⟩ : ExecutorExchange) ∈ t := by
  constructor
  · intro h
    obtain ⟨⟨call, a⟩, hmem, heq⟩ := List.mem_filterMap.mp h
    cases call with
    | work c =>
        cases heq
        exact hmem
    | queue c => cases heq
  · exact fun h => List.mem_filterMap.mpr ⟨_, h, rfl⟩

namespace Executor

variable {β : Type} {t : List ExecutorExchange}
  {issues : List ExecutorExchange → ExecutorCall → Prop} {ends : List ExecutorExchange → β → Prop}

/-- The calls of a worker are what they are without the queue. -/
theorem meets_working {issues' : List (WorkerExchange Float) → WorkerCall Float → Prop}
    {ends' : List (WorkerExchange Float) → β → Prop}
    {p : Program (WorkerCall.Answer (α := Float)) β} (h : p.Meets issues' ends' (worked t))
    (hcalls : ∀ u c, queued u = queued t → issues' (worked u) c → issues u (.work c))
    (hends : ∀ u b, queued u = queued t → ends' (worked u) b → ends u b) :
    (working p).Meets issues ends t := by
  induction p generalizing t with
  | done b => exact hends t b rfl h
  | call c next ih =>
      refine ⟨hcalls t c rfl h.1, fun a => ih a ((worked_work t c a).symm ▸ h.2 a) ?_ ?_⟩
      · exact fun u c' hu => hcalls u c' (hu.trans (queued_work t c a))
      · exact fun u b hu => hends u b (hu.trans (queued_work t c a))

/-- The calls to the queue are what they are without the worker. -/
theorem meets_queuing {p : Queuing β} {issues' : List QueueExchange → QueueCall → Prop}
    {ends' : List QueueExchange → Except QueueError β → Prop}
    {ends : List ExecutorExchange → Except QueueError β → Prop}
    (h : p.run.Meets issues' ends' (queued t))
    (hcalls : ∀ u c, worked u = worked t → issues' (queued u) c → issues u (.queue c))
    (hends : ∀ u b, worked u = worked t → ends' (queued u) b → ends u b) :
    (queuing p).Meets issues ends t := by
  rw [queuing]
  generalize p.run = p at h
  induction p generalizing t with
  | done b => exact hends t b rfl h
  | call c next ih =>
      refine ⟨hcalls t c rfl h.1, fun a => ih a ?_ ?_ ((queued_queue t c a).symm ▸ h.2 a)⟩
      · exact fun u c' hu => hcalls u c' (hu.trans (worked_queue t c a))
      · exact fun u b hu => hends u b (hu.trans (worked_queue t c a))

/-- Where everything is allowed that is done with the queue. -/
theorem meets_queuing_of_forall (p : Queuing β)
    {ends : List ExecutorExchange → Except QueueError β → Prop}
    (hcalls : ∀ u c, issues u (.queue c)) (hends : ∀ u b, ends u b) :
    (queuing p).Meets issues ends t :=
  meets_queuing (p.run.meets_of_forall (fun _ _ _ => trivial) fun _ _ _ => trivial)
    (fun u c _ _ => hcalls u c) fun u b _ _ => hends u b

/-! ## Messages that are read -/

/-- A message that was delivered too often. -/
def Abandoned (q : QueueConfig) (d : Delivery) : Prop := q.maxDeliveries < d.deliveries

/-- The message is given up unread, or its time is up. -/
def GivenUp (q : QueueConfig) (timeout : Option ℕ) (d : Delivery) (t : List ExecutorExchange) :
    Prop :=
  Abandoned q d ∨ timeout = some (worked t).length

/-- The calls made for a message that was read. A record is changed only if there is something left
to do, or to note that the message is given up. -/
def Issues (q : QueueConfig) (timeout : Option ℕ) (d : Delivery) (t : List ExecutorExchange) :
    ExecutorCall → Prop
  | .work c => d.job.Concerns (worked t) c ∧
    (c.Writes → d.job.Unstopped (worked t) ∨ c.Fails ∧ GivenUp q timeout d t)
  | .queue _ => True

theorem meets_noteFailure (q : QueueConfig) (timeout : Option ℕ) (d : Delivery) (e : WorkerError)
    (h : GivenUp q timeout d t) :
    (working (Worker.noteFailure d.job.jobId e)).Meets (Issues q timeout d) (fun _ _ => True) t :=
  ⟨⟨⟨trivial, .inl rfl⟩, fun _ => .inr ⟨trivial, h⟩⟩, fun _ => trivial⟩

theorem meets_giveUp (q : QueueConfig) (timeout : Option ℕ) (d : Delivery) (e : WorkerError) :
    (giveUp q d e).Meets (Issues q timeout d) (fun _ _ => True) t := by
  rw [giveUp, Program.meets_bind]
  exact meets_queuing_of_forall _ (fun _ _ => trivial) fun _ _ => trivial

theorem meets_handleInTime (c : WorkerConfig) (q : QueueConfig) (w : Workplace)
    (timeout : Option ℕ) (d : Delivery) :
    (handleInTime c w d.job timeout).Meets (Issues q timeout d) (fun _ _ => True) [] := by
  have hhandle := (Worker.meets_handle_concerns c.limits w d.job).and
    (Worker.meets_handle_unstopped c.limits w d.job)
  have hcalls : ∀ u call, queued u = queued [] → (d.job.Concerns (worked u) call ∧
      (call.Writes → d.job.Unstopped (worked u))) → Issues q timeout d u (.work call) :=
    fun u call _ h => ⟨h.1, fun hwrites => .inl (h.2 hwrites)⟩
  cases timeout with
  | none => exact meets_working hhandle hcalls fun _ _ _ _ => trivial
  | some n =>
      rw [handleInTime, Program.meets_bind]
      refine meets_working (hhandle.cutAfter n) hcalls fun u result _ h => ?_
      cases result with
      | some result => trivial
      | none =>
          have hlength : (worked u).length = n := by
            simpa using h
          exact meets_noteFailure q (some n) d _ (.inr (by rw [hlength]))

theorem meets_execute (c : WorkerConfig) (q : QueueConfig) (w : Workplace) (timeout : Option ℕ)
    (d : Delivery) :
    (execute c q w timeout d).Meets (Issues q timeout d) (fun _ _ => True) [] := by
  rw [execute]
  split
  · rename_i habandoned
    rw [Program.meets_bind]
    refine (meets_noteFailure q timeout d _ (.inl habandoned)).mono (fun _ _ _ h => h) ?_
    exact fun u _ _ _ => meets_giveUp q timeout d _
  · rw [Program.meets_bind]
    refine (meets_handleInTime c q w timeout d).mono (fun _ _ _ h => h) fun u result _ _ => ?_
    cases result with
    | ok _ =>
        refine (Program.meets_bind _ _).mpr ?_
        exact meets_queuing_of_forall _ (fun _ _ => trivial) fun _ _ => trivial
    | error e => exact meets_giveUp q timeout d e

end Executor

end Slideshow
