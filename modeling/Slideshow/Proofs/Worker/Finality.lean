import Slideshow.Proofs.Program.System
import Slideshow.Proofs.Worker.Executor
import Slideshow.Proofs.Worker.Surroundings

/-! # Jobs that have ended

A job that has ended stays ended, but how it ended may still change: by a delivery that has seen it
before it ended, and by one that is given up. Nothing else changes the status or the video. -/

namespace Slideshow

open Executor WorkerExchange

/-! ## Surroundings of the executor -/

namespace ExecutorCall

/-- Every call is a single step, and only those to the store change the ledger. -/
def Atomic : (c : ExecutorCall) → Ledger → c.Answer → Ledger → Prop
  | .work c, l, a, l' => c.Atomic l a l'
  | .queue _, l, _, l' => l' = l

/-- A store that never fails. -/
def Reliable : (c : ExecutorCall) → Ledger → c.Answer → Ledger → Prop
  | .work c, l, a, l' => c.Reliable l a l'
  | .queue _, l, _, l' => l' = l

theorem Reliable.atomic {c : ExecutorCall} {l l' : Ledger} {a : c.Answer}
    (h : c.Reliable l a l') : c.Atomic l a l' := by
  cases c with
  | work c => exact WorkerCall.Reliable.atomic h
  | queue c => exact h

end ExecutorCall

/-! ## How a job ended -/

/-- Two records end with the same status and the same video. -/
def JobRecord.SameEnd (r r' : JobRecord) : Prop := r'.status = r.status ∧ r'.video = r.video

/-- The call changes how a job ended: it notes that a finished job failed, or finishes a job that
failed or has another video. -/
def StoreCall.Overrules (r : JobRecord) : StoreCall → Prop
  | markFailed _ _ => r.status = .processed
  | setStatus _ status video => r.status ≠ status ∨ r.video ≠ video
  | _ => False

theorem StoreCall.sameEnd_change_iff {r : JobRecord} (h : r.status.isTerminal = true)
    (c : StoreCall) : r.SameEnd (c.change r) ↔ ¬ c.Overrules r := by
  cases c with
  | markFailed id reason =>
      cases hr : r.status <;>
        simp_all [JobRecord.SameEnd, change, Overrules, JobRecord.withFailure, JobStatus.isTerminal]
  | setStatus id status video =>
      simp only [JobRecord.SameEnd, change, Overrules, JobRecord.withStatus, not_or, ne_eq, not_not]
      exact and_congr eq_comm eq_comm
  | claimJoin id batch =>
      have hclosed : r.status ≠ .processing := by
        intro hopen
        simp [hopen, JobStatus.isTerminal] at h
      simp [JobRecord.SameEnd, change, Overrules, hclosed]
  | load id | setBatchCount id count | appendOutput id output =>
      simp [JobRecord.SameEnd, change, Overrules, JobRecord.withBatchCount, JobRecord.withOutput]

/-! ## Deliveries of the messages of a job -/

/-- A delivery of a message of a job, what it brings along, and after how many calls its time is
up. -/
structure JobDelivery (id : JobId) where
  delivery : Delivery
  place : Workplace
  timeout : Option ℕ
  jobId_eq : delivery.job.jobId = id

namespace JobDelivery

variable {id : JobId} (c : WorkerConfig) (q : QueueConfig)

/-- What a worker does with a message that it reads. -/
def run (m : JobDelivery id) : Executing Unit := execute c q m.place m.timeout m.delivery

/-- The job is known. -/
def Known (id : JobId) (l : Ledger) : Prop := ∃ r, l.get? id = some r

/-- The job stays known, and stays ended once it has ended. -/
def Evolves (id : JobId) (l l' : Ledger) : Prop :=
  ∀ r, l.get? id = some r → ∃ r', l'.get? id = some r' ∧
    (r.status.isTerminal = true → r'.status.isTerminal = true)

variable {c q} {l l' : Ledger} {r : JobRecord} {m : JobDelivery id} {t : List ExecutorExchange}

theorem Evolves.refl (l : Ledger) : Evolves id l l := fun r hr => ⟨r, hr, fun h => h⟩

theorem Evolves.trans {l'' : Ledger} (h : Evolves id l l') (h' : Evolves id l' l'') :
    Evolves id l l'' := by
  intro r hr
  obtain ⟨r', hr', hended⟩ := h r hr
  obtain ⟨r'', hr'', hended'⟩ := h' r' hr'
  exact ⟨r'', hr'', hended' ∘ hended⟩

/-- The exchange took place, and the job has stayed known and ended since. -/
abbrev Happened (id : JobId) (e : ExecutorExchange) (l : Ledger) : Prop :=
  e.Happened ExecutorCall.Atomic (Known id) (Evolves id) l

theorem Happened.id_eq (h : Happened id ⟨.work (.store (.load id)), .ok (some r)⟩ l) :
    r.id = id := by
  obtain ⟨before, after, -, htold | ⟨⟨e, he⟩, -⟩, -⟩ := h
  · have hload : (Except.ok (some r) : Except WorkerError (Option JobRecord)) =
        .ok (before.get? id) := congrArg Prod.fst htold
    exact Ledger.id_of_get? (Except.ok.inj hload).symm
  · cases he

/-- A call to the store concerns the job of the message and does not open it again; and there is
something left to do, or it only notes that the message is given up. -/
theorem store_issued {s : StoreCall} {next : s.Answer → Executing Unit}
    (hleads : (m.run c q).Leads t (.call (.work (.store s)) next))
    (htold : ∀ e ∈ t, Happened id e l) :
    s.jobId = id ∧ s.Closes ∧
      ((WorkerCall.store s : WorkerCall Float).Writes →
        m.delivery.job.Unstopped (worked t) ∨
          (WorkerCall.store s : WorkerCall Float).Fails ∧
            GivenUp q m.timeout m.delivery t) := by
  have hissues := (meets_execute c q m.place m.timeout m.delivery).issues_of_leads hleads
  rw [List.nil_append] at hissues
  obtain ⟨⟨hcloses, hconcerns⟩, hwrites⟩ := hissues
  refine ⟨?_, hcloses, hwrites⟩
  rcases hconcerns with hjob | ⟨r', hr', hjob⟩
  · exact hjob.trans m.jobId_eq
  · rw [m.jobId_eq] at hr'
    exact hjob.trans (htold _ (mem_worked.mp hr')).id_eq

/-- Every call of every delivery keeps the job known, and ended if it was. -/
theorem known_step {call : ExecutorCall} {next : call.Answer → Executing Unit} {a : call.Answer}
    (hleads : (m.run c q).Leads t (.call call next)) (hl : Known id l)
    (htold : ∀ e ∈ t, Happened id e l) (ha : call.Atomic l a l') :
    Known id l' ∧ Evolves id l l' := by
  have hsame : l' = l → Known id l' ∧ Evolves id l l' := by
    rintro rfl
    exact ⟨hl, .refl _⟩
  cases call with
  | queue call => exact hsame ha
  | work call =>
      cases call with
      | store s =>
          obtain ⟨r, hr⟩ := hl
          obtain ⟨rfl, hcloses, -⟩ := store_issued hleads htold
          rcases StoreCall.Answered.changes ha hr with rfl | ⟨hr', -⟩
          · exact hsame rfl
          · refine ⟨⟨_, hr'⟩, fun r₁ hr₁ => ?_⟩
            cases hr.symm.trans hr₁
            exact ⟨_, hr', StoreCall.isTerminal_change hcloses⟩
      | _ => exact hsame ha

variable (c q id) in
/-- The rules that all deliveries of the messages of a job keep. -/
def discipline : Discipline (fun m : JobDelivery id => m.run c q) ExecutorCall.Atomic where
  Holds := Known id
  Evolves := Evolves id
  refl := .refl
  trans := .trans
  step := known_step

/-! ## Deliveries and the end of a job -/

/-- The next call of a delivery changes how the job ended. -/
def Overrules (d : Attempt fun m : JobDelivery id => m.run c q) (r : JobRecord) : Prop :=
  ∃ s next, d.rest = .call (.work (.store s)) next ∧ s.Overrules r

/-- The delivery was told that there is something left to do, or was not told that there is not. -/
def Unstopped (d : Attempt fun m : JobDelivery id => m.run c q) : Prop :=
  d.message.delivery.job.Unstopped (worked d.trace)

/-- A message that leaves the end of a job alone: the record stops its delivery, and where the job
is finished, the message is not given up. -/
def Calm (q : QueueConfig) (r : JobRecord) (m : JobDelivery id) : Prop :=
  m.delivery.job.Stops r ∧
    (r.status = .processed → ¬ Abandoned q m.delivery ∧ m.timeout = none)

/-- What is true of a job that has ended as `r` tells. -/
structure EndRules (s : System (fun m : JobDelivery id => m.run c q) Ledger) (r : JobRecord) :
    Prop where
  /-- The job stays ended, and status and video stay what they are but for calls that overrule. -/
  stays : ∀ d ∈ s.attempts, ∀ call next a l, d.rest = .call call next →
    call.Atomic s.shared a l → ∃ r', l.get? id = some r' ∧ r'.status.isTerminal = true ∧
      (¬ r.SameEnd r' → Overrules d r)
  /-- Where the store does not fail, each such call changes status or video. -/
  changes : ∀ d ∈ s.attempts, Overrules d r → ∀ call next a l, d.rest = .call call next →
    call.Reliable s.shared a l → ∃ r', l.get? id = some r' ∧ ¬ r.SameEnd r'
  /-- Such a call is made by a delivery that was not told to stop, or when a message is given up
  although the job is finished. -/
  overrules : ∀ d ∈ s.attempts, Overrules d r →
    Unstopped d ∨ r.status = .processed ∧ GivenUp q d.message.timeout d.message.delivery d.trace
  /-- When nobody else is at work or arrives, nothing changes the status or the video. -/
  calm : (∀ d ∈ s.attempts, d.InFlight → Calm q r d.message ∧ ¬ Unstopped d) →
    ∀ s', System.Reaches ExecutorCall.Reliable (fun _ => Calm q r) s s' →
      ∃ r', s'.shared.get? id = some r' ∧ r.SameEnd r'
  /-- A message that was delivered too often makes a finished job a failed one. -/
  abandoned : r.status = .processed → ∀ m : JobDelivery id, Abandoned q m.delivery →
    ∃ s' r', System.Reaches ExecutorCall.Reliable (fun _ _ => True) s s' ∧
      s'.shared.get? id = some r' ∧ r'.status = .failed

theorem writes_of_overrules {s : StoreCall} (h : s.Overrules r) :
    (WorkerCall.store s : WorkerCall Float).Writes := by
  cases s with
  | load id => exact h.elim
  | _ => trivial

section EndRules

variable {s s' : System (fun m : JobDelivery id => m.run c q) Ledger}
  {d : Attempt fun m : JobDelivery id => m.run c q}

theorem exists_answered (hs : (discipline id c q).Sound s) (hr : s.shared.get? id = some r)
    (hd : d ∈ s.attempts) {call : ExecutorCall} {next : call.Answer → Executing Unit}
    {a : call.Answer} (hrest : d.rest = .call call next) (ha : call.Atomic s.shared a l) :
    l.get? id = some r ∨
      ∃ sc, call = .work (.store sc) ∧ l.get? id = some (sc.change r) := by
  have hsame : l = s.shared → l.get? id = some r := by
    rintro rfl
    exact hr
  cases call with
  | queue call => exact .inl (hsame ha)
  | work call =>
      cases call with
      | store sc =>
          obtain ⟨rfl, -⟩ := store_issued (hrest ▸ d.leads) (hs.happened d hd)
          rcases StoreCall.Answered.changes ha hr with rfl | ⟨hr', -⟩
          · exact .inl hr
          · exact .inr ⟨sc, rfl, hr'⟩
      | _ => exact .inl (hsame ha)

theorem overrules_cases (hs : (discipline id c q).Sound s) (hd : d ∈ s.attempts)
    (h : Overrules d r) :
    Unstopped d ∨
      r.status = .processed ∧ GivenUp q d.message.timeout d.message.delivery d.trace := by
  obtain ⟨sc, next, hrest, hover⟩ := h
  obtain ⟨-, -, hwrites⟩ := store_issued (hrest ▸ d.leads) (hs.happened d hd)
  refine (hwrites (writes_of_overrules hover)).imp_right fun ⟨hfails, hgiven⟩ => ⟨?_, hgiven⟩
  cases sc with
  | markFailed id reason => exact hover
  | _ => exact hfails.elim

/-! ## Calm -/

theorem stops_of_sameEnd {r' : JobRecord} {job : QueueJob Float} (h : job.Stops r)
    (hsame : r.SameEnd r') (hfinished : r.status = .processed → r' = r) : job.Stops r' := by
  cases job with
  | createVideo request =>
      have hended : r.status.isTerminal = true := h
      rw [← hsame.1] at hended
      exact hended
  | renderBatch batch =>
      rcases h with hfailed | hprocessed
      · exact .inl (hsame.1.trans hfailed)
      · rw [hfinished hprocessed.1]
        exact .inr hprocessed

/-- The job ended as `r` tells, and whoever is at work leaves it at that. -/
structure Calmed (r : JobRecord) (s : System (fun m : JobDelivery id => m.run c q) Ledger)
    (r' : JobRecord) : Prop where
  known : s.shared.get? id = some r'
  sameEnd : r.SameEnd r'
  finished : r.status = .processed → r' = r
  calm : ∀ d ∈ s.attempts, d.InFlight → Calm q r d.message ∧ ¬ Unstopped d

/-- A call of a calm delivery does not change how the job ended. -/
theorem Calmed.answered {r' : JobRecord} (h : Calmed r s r') (hs : (discipline id c q).Sound s)
    (hd : d ∈ s.attempts) (hf : d.InFlight) {call : ExecutorCall}
    {next : call.Answer → Executing Unit} {a : call.Answer} (hrest : d.rest = .call call next)
    (ha : call.Atomic s.shared a l) :
    ∃ r'', l.get? id = some r'' ∧ r.SameEnd r'' ∧ (r.status = .processed → r'' = r) := by
  rcases exists_answered hs h.known hd hrest ha with hl | ⟨sc, rfl, hl⟩
  · exact ⟨r', hl, h.sameEnd, h.finished⟩
  · refine ⟨_, hl, ?_⟩
    obtain ⟨⟨hstops, hgiven⟩, hstopped⟩ := h.calm d hd hf
    obtain ⟨-, -, hwrites⟩ := store_issued (hrest ▸ d.leads) (hs.happened d hd)
    cases sc with
    | load id => exact ⟨h.sameEnd, h.finished⟩
    | markFailed id reason =>
        have hunfinished : r.status ≠ .processed := by
          intro hprocessed
          obtain ⟨hkept, htimeout⟩ := hgiven hprocessed
          rcases ((hwrites trivial).resolve_left hstopped).2 with habandoned | hover
          · exact hkept habandoned
          · cases htimeout.symm.trans hover
        have hfailed : r.status = .failed := by
          have hended := QueueJob.isTerminal_of_stops hstops
          cases hr : r.status <;> simp_all [JobStatus.isTerminal]
        exact ⟨⟨hfailed.symm, h.sameEnd.2⟩, fun hprocessed => (hunfinished hprocessed).elim⟩
    | setBatchCount _ _ | setStatus _ _ _ | appendOutput _ _ | claimJoin _ _ =>
        exact ((hwrites trivial).resolve_left hstopped).1.elim

theorem Calmed.step {r' : JobRecord} (h : Calmed r s r') (hs : (discipline id c q).Sound s)
    (hstep : System.Step ExecutorCall.Reliable (fun _ => Calm q r) s s') :
    ∃ r'', Calmed r s' r'' := by
  have hrecord : ∃ r'', s'.shared.get? id = some r'' ∧ r.SameEnd r'' ∧
      (r.status = .processed → r'' = r) := by
    cases hstep with
    | deliver m hm => exact ⟨r', h.known, h.sameEnd, h.finished⟩
    | crash i d hi hf => exact ⟨r', h.known, h.sameEnd, h.finished⟩
    | answer i d a after hi hcrashed hrest ha =>
        exact h.answered hs (List.mem_of_getElem? hi) ⟨hcrashed, _, _, hrest⟩ hrest ha.atomic
  obtain ⟨r'', hknown, hsame, hfinished⟩ := hrecord
  refine ⟨r'', hknown, hsame, hfinished, fun d' hd' hf' => ?_⟩
  obtain ⟨j, hj⟩ := List.mem_iff_getElem?.mp hd'
  rcases hstep.attempt_before hj with ⟨-, m, hm, rfl⟩ | ⟨d, hd, hmessage, hbusy, htrace⟩
  · exact ⟨hm, fun ⟨a, ha, _⟩ => nomatch ha⟩
  · obtain ⟨hcalm, hstopped⟩ := h.calm d (List.mem_of_getElem? hd) (hbusy hf')
    rw [Unstopped, hmessage]
    refine ⟨hcalm, ?_⟩
    rcases htrace with htrace | ⟨-, e, htrace, ha⟩
    · rwa [htrace]
    · rw [htrace]
      rintro ⟨a, hmem, hother⟩
      rcases List.mem_append.mp (mem_worked.mp hmem) with hmem | hmem
      · exact hstopped ⟨a, mem_worked.mpr hmem, hother⟩
      · cases List.mem_singleton.mp hmem
        -- what was just loaded is the record as it is, and that stops the delivery again
        have hload : a = Except.ok (s.shared.get? d.message.delivery.job.jobId) :=
          congrArg Prod.fst ha
        rw [d.message.jobId_eq, h.known] at hload
        exact hother r' hload (stops_of_sameEnd hcalm.1 h.sameEnd h.finished)

/-- It is noted that a job failed because a message was delivered too often. -/
def noted (m : JobDelivery id) : ExecutorExchange :=
  ⟨.work (.store (.markFailed id (abandoned m.delivery.deliveries).message)), .ok ()⟩

/-- A message that was delivered too often is noted as a failure first of all. -/
theorem run_of_abandoned {m : JobDelivery id} (h : Abandoned q m.delivery) :
    ∃ next, m.run c q = .call m.noted.call next := by
  have htoo : q.maxDeliveries < m.delivery.deliveries := h
  rw [run, execute, if_pos htoo, m.jobId_eq]
  exact ⟨_, rfl⟩

theorem leads_of_abandoned {m : JobDelivery id} (h : Abandoned q m.delivery) :
    ∃ rest, (m.run c q).Leads [m.noted] rest := by
  obtain ⟨next, hnext⟩ := run_of_abandoned (c := c) h
  rw [hnext]
  exact ⟨_, .answered (.start _)⟩

/-- A job that has ended, whatever deliveries overlap, are repeated, crash, run out of time or are
given up, keeps the rules. -/
theorem endRules_of_reaches (hl : Known id l)
    (h : System.Reaches ExecutorCall.Atomic (fun _ _ => True) ⟨l, []⟩ s)
    (hr : s.shared.get? id = some r) (hended : r.status.isTerminal = true) : EndRules s r := by
  have hs := (((discipline id c q).sound_of_holds hl).reaches h).1
  constructor
  case stays =>
    intro d hd call next a l' hrest ha
    obtain ⟨-, hevolves⟩ := known_step (hrest ▸ d.leads) hs.holds (hs.happened d hd) ha
    obtain ⟨r', hr', hstill⟩ := hevolves r hr
    refine ⟨r', hr', hstill hended, fun hchanged => ?_⟩
    rcases exists_answered hs hr hd hrest ha with hl' | ⟨sc, rfl, hl'⟩
    · cases hr'.symm.trans hl'
      exact (hchanged ⟨rfl, rfl⟩).elim
    · cases hr'.symm.trans hl'
      rw [StoreCall.sameEnd_change_iff hended, not_not] at hchanged
      exact ⟨sc, next, hrest, hchanged⟩
  case changes =>
    rintro d hd ⟨sc, next', hrest', hover⟩ call next a l' hrest ha
    cases hrest.symm.trans hrest'
    obtain ⟨rfl, -⟩ := store_issued (hrest ▸ d.leads) (hs.happened d hd)
    obtain ⟨l'', hanswer, hl'', -⟩ := Ledger.answer_of_get? hr
    cases congrArg Prod.snd (ha.trans hanswer)
    refine ⟨_, hl'', ?_⟩
    rwa [StoreCall.sameEnd_change_iff hended, not_not]
  case overrules => exact fun d hd => overrules_cases hs hd
  case calm =>
    intro hcalm s' hs'
    have hkept : ∃ r', Calmed r s' r' := by
      induction hs' with
      | refl => exact ⟨r, hr, ⟨rfl, rfl⟩, fun _ => rfl, hcalm⟩
      | tail hreach hstep ih =>
          obtain ⟨r', hr'⟩ := ih
          have hany : System.Reaches ExecutorCall.Atomic (fun _ _ => True) s _ :=
            System.Reaches.mono ExecutorCall.Reliable.atomic (fun _ => trivial) hreach
          exact hr'.step (hs.reaches hany).1 hstep
    obtain ⟨r', hr'⟩ := hkept
    exact ⟨r', hr'.known, hr'.sameEnd⟩
  case abandoned =>
    intro _ m habandoned
    obtain ⟨rest, hleads⟩ := leads_of_abandoned (c := c) habandoned
    obtain ⟨l', hanswer, hl', -⟩ := Ledger.answer_of_get?
      (c := .markFailed id (Executor.abandoned m.delivery.deliveries).message) hr
    have hnoted : m.noted.call.Reliable s.shared m.noted.answer l' := hanswer.symm
    have hallowed : System.Allowed ExecutorCall.Reliable [m.noted] s.shared l' :=
      .cons hnoted (.nil l')
    exact ⟨_, _, System.Reaches.deliver trivial hleads hallowed, hl', rfl⟩

end EndRules

/-! ## A finished job that is marked as failed -/

/-- The record of a job that is finished. -/
def finishedRecord : JobRecord :=
  { JobRecord.fresh "job" ⟨0, 0⟩ with status := .processed, video := some "job/video.mp4" }

/-- The ledger knows a finished job, and no message of it is at work. -/
def finishedSystem : System (fun m : JobDelivery "job" => m.run {} {}) Ledger :=
  ⟨⟨[finishedRecord], 0⟩, []⟩

/-- The message of that job when it is delivered for the fourth time. -/
def fourthDelivery : JobDelivery "job" where
  delivery := ⟨"1-0", .createVideo ⟨"job", ["https://example.com/slide.png"], .standard⟩, 4⟩
  place := ⟨"work", fun _ => 0, []⟩
  timeout := none
  jobId_eq := rfl

theorem get?_finishedRecord : finishedSystem.shared.get? "job" = some finishedRecord := by
  simp [finishedSystem, Ledger.get?, finishedRecord, JobRecord.fresh]

theorem fourthDelivery_abandoned : Abandoned {} fourthDelivery.delivery := by
  simp [Abandoned, fourthDelivery]

theorem overrules_fourthDelivery :
    Overrules (.fresh fourthDelivery : Attempt fun m : JobDelivery "job" => m.run {} {})
      finishedRecord := by
  obtain ⟨next, hnext⟩ := run_of_abandoned (c := {}) fourthDelivery_abandoned
  exact ⟨_, next, hnext, rfl⟩

/-- The rules hold while the message awaits its end. -/
theorem endRules_of_fourthDelivery :
    ∃ s, System.Reaches ExecutorCall.Atomic (fun _ _ => True) finishedSystem s ∧
      s.shared.get? "job" = some finishedRecord ∧ finishedRecord.status.isTerminal = true ∧
      (∃ d ∈ s.attempts, Overrules d finishedRecord) ∧ EndRules s finishedRecord := by
  have hknown : Known "job" finishedSystem.shared := ⟨_, get?_finishedRecord⟩
  have hdeliver : System.Reaches ExecutorCall.Atomic (fun _ _ => True) finishedSystem
      { finishedSystem with attempts := [.fresh fourthDelivery] } :=
    .single (.deliver finishedSystem fourthDelivery trivial)
  exact ⟨_, hdeliver, get?_finishedRecord, rfl,
    ⟨_, List.mem_singleton.mpr rfl, overrules_fourthDelivery⟩,
    endRules_of_reaches hknown hdeliver get?_finishedRecord rfl⟩

/-- A terminal status is not final. -/
theorem not_final : ¬ ∀ s r r', finishedSystem.shared.get? "job" = some r →
    r.status.isTerminal = true →
    System.Reaches ExecutorCall.Reliable (fun _ _ => True) finishedSystem s →
    s.shared.get? "job" = some r' → r.SameEnd r' := by
  intro hfinal
  obtain ⟨rest, hleads⟩ := leads_of_abandoned (c := {}) fourthDelivery_abandoned
  obtain ⟨l', hanswer, hl', -⟩ := Ledger.answer_of_get?
    (c := .markFailed "job" (Executor.abandoned 4).message) get?_finishedRecord
  have hnoted : fourthDelivery.noted.call.Reliable finishedSystem.shared
      fourthDelivery.noted.answer l' := hanswer.symm
  have hallowed : System.Allowed ExecutorCall.Reliable [fourthDelivery.noted]
      finishedSystem.shared l' := .cons hnoted (.nil l')
  have hreaches : System.Reaches ExecutorCall.Reliable (fun _ _ => True) finishedSystem
      ⟨l', [⟨fourthDelivery, _, rest, hleads, false⟩]⟩ :=
    System.Reaches.deliver trivial hleads hallowed
  cases (hfinal _ _ _ get?_finishedRecord rfl hreaches hl').1

end JobDelivery

end Slideshow
