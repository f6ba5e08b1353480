import Slideshow.Proofs.Store.Missing
import Slideshow.Proofs.Worker.Executor

/-! # Messages about a job without a record

A worker that finds no record notes that the job failed, and that note is a new record. Messages
that are given up unread, or whose time is up, leave the same behind. -/

namespace Slideshow

open Program

variable {α : Type} {s : RecordStore} {f : Faults} {x y : DocumentServer} {id : JobId}

/-! ## Workers that use a document server -/

/-- How a worker is answered whose records are kept by a document server. Nothing else changes the
server, and anything may be answered to it. -/
def WorkerCall.Hosted (s : RecordStore) (f : Faults) :
    (c : WorkerCall α) → DocumentServer → c.Answer → DocumentServer → Prop
  | .store c, x, a, y => (s.answer c).Yields (ClientCall.Answered s.config f) x a y
  | _, x, _, y => y = x

/-- The same while the queue is worked through. -/
def ExecutorCall.Hosted (s : RecordStore) (f : Faults) :
    (c : ExecutorCall) → DocumentServer → c.Answer → DocumentServer → Prop
  | .work c, x, a, y => c.Hosted s f x a y
  | .queue _, x, _, y => y = x

theorem WorkerCall.Hosted.of_none {c : WorkerCall α} {a : c.Answer} (h : c.Hosted s .none x a y) :
    c.Hosted s f x a y := by
  cases c with
  | store c => exact Yields.mono h ClientCall.Answered.of_none
  | _ => exact h

theorem ExecutorCall.Hosted.of_none {c : ExecutorCall} {a : c.Answer} (h : c.Hosted s .none x a y) :
    c.Hosted s f x a y := by
  cases c with
  | work c => exact WorkerCall.Hosted.of_none h
  | queue c => exact h

namespace Worker

variable {β : Type}

/-- A worker goes on with what the store has made of its call. -/
theorem assures_store {c : StoreCall} {Q : c.Answer → DocumentServer → Prop}
    {next : c.Answer → Program (WorkerCall.Answer (α := α)) β} {ends : β → DocumentServer → Prop}
    (h : (s.answer c).Alone (ClientCall.Answered s.config f) Q x)
    (hnext : ∀ a y, Q a y → (next a).Alone (WorkerCall.Hosted s f) ends y) :
    (Program.call (.store c) next).Alone (WorkerCall.Hosted s f) ends x := by
  rintro _ rfl
  obtain ⟨a, y, hyields, -⟩ := h.exists_yields
  exact ⟨⟨a, y, hyields⟩, fun a z ha => ⟨trivial, hnext a z (h.of_yields ha)⟩⟩

/-! ## Handling -/

theorem assures_noteFailure (hmissing : x.document (s.nameOf id) = none) (e : WorkerError) :
    (noteFailure (α := α) id e).Alone (WorkerCall.Hosted s f)
      (fun _ y => s.Notes f x id e.message y) x :=
  assures_store (RecordStore.assures_answer_markFailed hmissing e.message) fun _ _ h => h

/-- What is left of handling a message once an error is known. -/
def failing (id : JobId) (e : WorkerError) :
    Program (WorkerCall.Answer (α := α)) (Except WorkerError Unit) := do
  noteFailure id e
  return .error e

theorem assures_failing (hmissing : x.document (s.nameOf id) = none) (e : WorkerError) :
    (failing (α := α) id e).Alone (WorkerCall.Hosted s f)
      (fun result y => result = .error e ∧ s.Notes f x id e.message y) x := by
  rw [failing, Program.Alone, assures_bind]
  exact (assures_noteFailure hmissing e).weaken fun _ y hy => ⟨rfl, hy⟩

/-- A message begins with reading the record, and fails if there is none to be read. -/
theorem exists_handle_eq [Scalar α] (limits : WorkerLimits) (w : Workplace) (job : QueueJob α) :
    ∃ next, handle limits w job = .call (.store (.load job.jobId)) next ∧
      next (.ok none) = failing job.jobId (.jobNotFound job.jobId) ∧
      ∀ e, next (.error e) = failing job.jobId e := by
  cases job <;> exact ⟨_, rfl, rfl, fun _ => rfl⟩

end Worker

namespace RecordStore

/-- Why a message about a job without a record fails: there is none, unless reading it went wrong. -/
def Due (s : RecordStore) (f : Faults) (id : JobId) (due e : WorkerError) : Prop :=
  e = due ∨ f.Disturbs (.get s.config.jobs id)

/-- A job without a record failed, for the reason that is due unless its record could not be read,
and that was noted. -/
def Fails (s : RecordStore) (f : Faults) (x : DocumentServer) (id : JobId) (due e : WorkerError)
    (y : DocumentServer) : Prop :=
  s.Due f id due e ∧ s.Notes f x id e.message y

theorem Fails.of_none {due e : WorkerError} (h : s.Fails .none x id due e y) :
    e = due ∧ s.Gained x (.failed id due.message) y := by
  obtain ⟨rfl | hdisturbed, hnotes⟩ := h
  · exact ⟨rfl, hnotes.gained⟩
  · exact (Faults.not_disturbs_none _ hdisturbed).elim

end RecordStore

namespace Worker

variable {limits : WorkerLimits} {w : Workplace} {job : QueueJob α}

/-- Once the record has been asked for, what is left is to fail. -/
theorem assures_reading {γ : Type} {ends : γ → DocumentServer → Prop}
    {next : (StoreCall.load id).Answer → Program (WorkerCall.Answer (α := α)) γ}
    {left : WorkerError → Program (WorkerCall.Answer (α := α)) γ}
    (hmissing : x.document (s.nameOf id) = none) (hnone : next (.ok none) = left (.jobNotFound id))
    (herror : ∀ e, next (.error e) = left e)
    (hleft : ∀ e, s.Due f id (.jobNotFound id) e →
      (left e).Alone (WorkerCall.Hosted s f) ends x) :
    (Program.call (.store (.load id)) next).Alone (WorkerCall.Hosted s f) ends x := by
  refine assures_store (RecordStore.assures_answer_load hmissing) ?_
  rintro a _ ⟨rfl | ⟨⟨e, rfl⟩, hdisturbed⟩, rfl⟩
  · rw [hnone]
    exact hleft _ (.inl rfl)
  · rw [herror]
    exact hleft e (.inr hdisturbed)

theorem assures_handle_missing [Scalar α] (hid : job.jobId = id)
    (hmissing : x.document (s.nameOf id) = none) :
    (handle limits w job).Alone (WorkerCall.Hosted s f)
      (fun result y => ∃ e, result = .error e ∧ s.Fails f x id (.jobNotFound id) e y) x := by
  subst hid
  obtain ⟨next, hhandle, hnone, herror⟩ := exists_handle_eq limits w job
  rw [hhandle]
  refine assures_reading hmissing hnone herror fun e he => ?_
  refine (assures_failing hmissing e).weaken ?_
  rintro result y ⟨rfl, hnotes⟩
  exact ⟨e, rfl, he, hnotes⟩

/-- What has become of a message about a job without a record when it is cut off after `n` calls. It
takes two of them, one to read the record and one to note the failure. -/
def CutOff (s : RecordStore) (f : Faults) (x : DocumentServer) (id : JobId) (n : ℕ) :
    Option (Except WorkerError Unit) → DocumentServer → Prop
  | none, y => n < 2 ∧ y = x
  | some result, y => 2 ≤ n ∧ ∃ e, result = .error e ∧ s.Fails f x id (.jobNotFound id) e y

theorem assures_failing_cutAfter (hmissing : x.document (s.nameOf id) = none) {e : WorkerError}
    (he : s.Due f id (.jobNotFound id) e) (n : ℕ) :
    ((failing (α := α) id e).cutAfter n).Alone (WorkerCall.Hosted s f)
      (CutOff s f x id (n + 1)) x := by
  cases n with
  | zero => exact ⟨Nat.one_lt_two, rfl⟩
  | succ n =>
      refine assures_store (RecordStore.assures_answer_markFailed hmissing e.message)
        fun a y hy => ?_
      have hended : (done (.error e) : Program (WorkerCall.Answer (α := α))
          (Except WorkerError Unit)).cutAfter n = done (some (.error e)) := by
        rw [Program.cutAfter]
      have hcut : CutOff s f x id (n + 1 + 1) (some (.error e)) y :=
        ⟨Nat.le_add_left 2 n, e, rfl, he, hy⟩
      exact hended ▸ hcut

theorem assures_handle_cutAfter_missing [Scalar α] (hid : job.jobId = id)
    (hmissing : x.document (s.nameOf id) = none) (n : ℕ) :
    ((handle limits w job).cutAfter n).Alone (WorkerCall.Hosted s f) (CutOff s f x id n) x := by
  subst hid
  obtain ⟨next, hhandle, hnone, herror⟩ := exists_handle_eq limits w job
  rw [hhandle]
  cases n with
  | zero => exact ⟨Nat.two_pos, rfl⟩
  | succ n =>
      exact assures_reading hmissing (congrArg _ hnone) (fun e => congrArg _ (herror e))
        fun e he => assures_failing_cutAfter hmissing he n

end Worker

/-! ## Working through the queue -/

namespace Executor

variable {β : Type}

theorem assures_working {p : Program (WorkerCall.Answer (α := Float)) β}
    {ends : β → DocumentServer → Prop} (h : p.Alone (WorkerCall.Hosted s f) ends x) :
    (working p).Alone (ExecutorCall.Hosted s f) ends x := by
  rw [working]
  refine Assures.embed (g := fun y => y) ?_ ?_ h fun _ _ h => h
  · exact fun ha => ⟨_, rfl, ha⟩
  · exact fun ha => ⟨_, rfl, ha⟩

/-- What is done with the queue leaves the document server alone. -/
theorem assures_queuing (p : Queuing β) :
    (queuing p).Alone (ExecutorCall.Hosted s f) (fun _ y => y = x) x := by
  rw [queuing]
  generalize p.run = p
  induction p with
  | done b => rfl
  | call c next ih =>
      rintro _ rfl
      refine ⟨?_, ?_⟩
      · cases c with
        | connect => exact ⟨Except.error "", x, rfl⟩
        | send command => exact ⟨Except.error "", x, rfl⟩
      · rintro a _ rfl
        exact ⟨trivial, ih a⟩

variable {c : WorkerConfig} {q : QueueConfig} {w : Workplace} {timeout : Option ℕ} {d : Delivery}

theorem assures_giveUp {P : DocumentServer → Prop} (hx : P x) (e : WorkerError) :
    (giveUp q d e).Alone (ExecutorCall.Hosted s f) (fun _ y => P y) x := by
  rw [giveUp, Program.Alone, assures_bind]
  refine (assures_queuing _).weaken ?_
  rintro _ _ rfl
  exact hx

/-- Why a message about a job without a record is given up: it was delivered too often, its time is
up before it has read the record and noted the failure, or there is no record. -/
def due (c : WorkerConfig) (q : QueueConfig) (timeout : Option ℕ) (d : Delivery) : WorkerError :=
  if q.maxDeliveries < d.deliveries then abandoned d.deliveries
  else match timeout with
    | none => .jobNotFound d.job.jobId
    | some calls =>
      if calls < 2 then .timedOut c.jobTimeoutSecs else .jobNotFound d.job.jobId

theorem assures_handleInTime_missing (hid : d.job.jobId = id)
    (hmissing : x.document (s.nameOf id) = none) (hdeliveries : ¬ q.maxDeliveries < d.deliveries) :
    (handleInTime c w d.job timeout).Alone (ExecutorCall.Hosted s f)
      (fun result y => ∃ e, result = .error e ∧ s.Fails f x id (due c q timeout d) e y) x := by
  subst hid
  cases timeout with
  | none =>
      rw [due, if_neg hdeliveries]
      exact assures_working (Worker.assures_handle_missing rfl hmissing)
  | some n =>
      rw [due, if_neg hdeliveries, handleInTime, Program.Alone, assures_bind]
      refine (assures_working (Worker.assures_handle_cutAfter_missing rfl hmissing n)).weaken ?_
      rintro (_ | result) y hcut
      · obtain ⟨hn, rfl⟩ := hcut
        simp only [if_pos hn]
        refine (assures_bind _ _).mpr
          ((assures_working (Worker.assures_noteFailure hmissing _)).weaken fun _ z hz => ?_)
        exact ⟨_, rfl, .inl rfl, hz⟩
      · obtain ⟨hn, e, rfl, hfails⟩ := hcut
        simp only [if_neg (Nat.not_lt.mpr hn)]
        exact ⟨e, rfl, hfails⟩

theorem assures_execute_missing (hid : d.job.jobId = id)
    (hmissing : x.document (s.nameOf id) = none) :
    (execute c q w timeout d).Alone (ExecutorCall.Hosted s f)
      (fun _ y => ∃ e, s.Fails f x id (due c q timeout d) e y) x := by
  rw [execute]
  split
  · rename_i hdeliveries
    subst hid
    refine (assures_bind _ _).mpr
      ((assures_working (Worker.assures_noteFailure hmissing _)).weaken fun _ z hz => ?_)
    exact assures_giveUp ⟨_, .inl (if_pos hdeliveries).symm, hz⟩ _
  · rename_i hdeliveries
    refine (assures_bind _ _).mpr
      ((assures_handleInTime_missing hid hmissing hdeliveries).weaken ?_)
    rintro _ z ⟨e, rfl, hfails⟩
    exact assures_giveUp ⟨e, hfails⟩ e

end Executor

/-! ## What becomes of the record -/

namespace RecordStore

/-- Where a job has no record, the calls of a worker that may create one are exactly those that
upsert. Every message about the job fails for want of a record; and whatever becomes of the message,
a record is left that says that the job failed, unless that gets lost. -/
theorem creates_on_failure {s : RecordStore} {x : DocumentServer} {id : JobId}
    (hmissing : x.document (s.nameOf id) = none) (f : Faults) :
    (∀ c : StoreCall, c.jobId = id →
      ((∀ a y, (s.answer c).Yields (ClientCall.Answered s.config f) x a y →
        y.document (s.nameOf id) = none) ↔ ¬ c.Upserts)) ∧
    (∀ limits w (job : QueueJob Float), job.jobId = id →
      (∀ result y, (Worker.handle limits w job).Yields (WorkerCall.Hosted s f) x result y →
        ∃ e, result = .error e ∧ s.Fails f x id (.jobNotFound id) e y) ∧
      ∃ y, (Worker.handle limits w job).Yields (WorkerCall.Hosted s f) x
          (.error (.jobNotFound id)) y ∧
        s.Gained x (.failed id (WorkerError.jobNotFound id).message) y) ∧
    ∀ c q w timeout (d : Delivery), d.job.jobId = id →
      (∀ y, (Executor.execute c q w timeout d).Yields (ExecutorCall.Hosted s f) x () y →
        ∃ e, s.Fails f x id (Executor.due c q timeout d) e y) ∧
      ∃ y, (Executor.execute c q w timeout d).Yields (ExecutorCall.Hosted s f) x () y ∧
        s.Gained x (.failed id (Executor.due c q timeout d).message) y := by
  refine ⟨?_, fun limits w job hid => ⟨fun result y h => ?_, ?_⟩,
    fun c q w timeout d hid => ⟨fun y h => ?_, ?_⟩⟩
  · rintro c rfl
    exact creates_none_iff hmissing
  · exact (Worker.assures_handle_missing hid hmissing).of_yields h
  · have hhandle : (Worker.handle limits w job).Alone (WorkerCall.Hosted s .none) _ x :=
      Worker.assures_handle_missing hid hmissing
    obtain ⟨_, y, hyields, e, rfl, hfails⟩ := hhandle.exists_yields
    obtain ⟨rfl, hgained⟩ := hfails.of_none
    exact ⟨y, hyields.mono WorkerCall.Hosted.of_none, hgained⟩
  · exact (Executor.assures_execute_missing hid hmissing).of_yields h
  · have hexecute : (Executor.execute c q w timeout d).Alone (ExecutorCall.Hosted s .none) _ x :=
      Executor.assures_execute_missing hid hmissing
    obtain ⟨_, y, hyields, e, hfails⟩ := hexecute.exists_yields
    exact ⟨y, hyields.mono ExecutorCall.Hosted.of_none, hfails.of_none.2⟩

/-- A request about a job that nobody has submitted. -/
def unknownRequest : QueueJob Float := .createVideo ⟨"holiday", ["https://img/0.jpg"], .standard⟩

/-- It fails, and the job is a failed one from then on. -/
theorem creates_on_failure_unknown :
    (DocumentServer.mk (fun _ => none) []).document (jobStore.nameOf "holiday") = none ∧
    ∃ y, (Worker.handle ⟨4, 30⟩ ⟨"/tmp", fun _ => 0, []⟩ unknownRequest).Yields
        (WorkerCall.Hosted jobStore .none) ⟨fun _ => none, []⟩ (.error (.jobNotFound "holiday")) y ∧
      jobStore.Gained ⟨fun _ => none, []⟩
        (.failed "holiday" "Job record not found: holiday") y :=
  ⟨rfl, ((creates_on_failure (s := jobStore) rfl .none).2.1 _ _ unknownRequest rfl).2⟩

/-- So it is not the case that handling it leaves no record. -/
theorem not_handled_traceless :
    ¬ ∀ result y, (Worker.handle ⟨4, 30⟩ ⟨"/tmp", fun _ => 0, []⟩ unknownRequest).Yields
        (WorkerCall.Hosted jobStore .none) ⟨fun _ => none, []⟩ result y →
      result = .error (.jobNotFound "holiday") ∧ y.document (jobStore.nameOf "holiday") = none := by
  intro h
  have hhandle : (Worker.handle ⟨4, 30⟩ ⟨"/tmp", fun _ => 0, []⟩ unknownRequest).Alone
      (WorkerCall.Hosted jobStore .none) _ ⟨fun _ => none, []⟩ :=
    Worker.assures_handle_missing rfl rfl
  obtain ⟨result, y, hyields, e, -, hfails⟩ := hhandle.exists_yields
  obtain ⟨d, hd⟩ := hfails.of_none.2.kept
  exact nomatch (h result y hyields).2.symm.trans hd.document

end RecordStore

end Slideshow
