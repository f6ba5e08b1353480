import Slideshow.Proofs.Json.Reader
import Slideshow.Proofs.Queue.Server
import Slideshow.Proofs.Store.Creation
import Slideshow.Service.Backend
import Slideshow.Service.Handlers

/-! # What a submission leaves behind

A submission that is accepted leaves one record, which is open, and one message. One that is not
leaves no open record, unless the record was created and the answer that says so got lost. -/

namespace Slideshow

/-- The servers that the service uses. -/
structure BackendServers where
  store : DocumentServer
  queue : QueueServer

/-- How a call is answered. Names of jobs are new. -/
def BackendCall.Answered (s : RecordStore) (f : Faults) :
    (call : BackendCall) → BackendServers → call.Answer → BackendServers → Prop
  | .store call, x, a, y => call.Answered s.config f x.store a y.store ∧ y.queue = x.queue
  | .queue call, x, a, y => call.Answered x.queue a y.queue ∧ y.store = x.store
  | .other .newJobId, x, id, y => x.store.document (s.nameOf id) = none ∧ y = x
  | .other _, x, _, y => y = x

namespace Backend

open Program

variable {s : RecordStore} {f : Faults} {x : BackendServers} {β : Type}

theorem assures_asking {p : Asking (Except StoreError β)}
    {Q : Except StoreError β → DocumentServer → Prop}
    (h : p.Alone (ClientCall.Answered s.config f) Q x.store) :
    (asking p).Alone (BackendCall.Answered s f)
      (fun result y => ∃ r, result = r.mapError .store ∧ Q r y.store ∧ y.queue = x.queue) x := by
  rw [asking, Program.Alone, assures_bind]
  refine Assures.embed (g := fun z => (⟨z, x.queue⟩ : BackendServers)) ?_ ?_ h ?_
  · exact fun ha => ⟨_, rfl, ha, rfl⟩
  · rintro request y a ⟨z, queue⟩ ⟨ha, rfl⟩
    exact ⟨z, rfl, ha⟩
  · exact fun r z hz => ⟨r, rfl, hz, rfl⟩

theorem possibly_asking {p : Asking (Except StoreError β)}
    {Q : Except StoreError β → DocumentServer → Prop}
    (h : p.Possibly (ClientCall.Answered s.config f) Q x.store) :
    (asking p).Possibly (BackendCall.Answered s f)
      (fun result y => ∃ r, result = r.mapError .store ∧ Q r y.store ∧ y.queue = x.queue) x := by
  rw [asking, possibly_bind]
  refine Possibly.embed (g := fun z => (⟨z, x.queue⟩ : BackendServers)) ?_ (h.weaken ?_)
  · exact fun ha => ⟨_, rfl, ha, rfl⟩
  · exact fun r z hz => ⟨r, rfl, hz, rfl⟩

theorem assures_queuing {p : Queuing β} {Q : Except QueueError β → QueueServer → Prop}
    (h : p.run.Alone QueueCall.Answered Q x.queue) :
    (queuing p).Alone (BackendCall.Answered s f)
      (fun result y => ∃ r, result = r.mapError .queue ∧ Q r y.queue ∧ y.store = x.store) x := by
  rw [queuing, Program.Alone, assures_bind]
  refine Assures.embed (g := fun z => (⟨x.store, z⟩ : BackendServers)) ?_ ?_ h ?_
  · exact fun ha => ⟨_, rfl, ha, rfl⟩
  · rintro request y a ⟨store, z⟩ ⟨ha, rfl⟩
    exact ⟨z, rfl, ha⟩
  · exact fun r z hz => ⟨r, rfl, hz, rfl⟩

theorem assures_other (call : ServiceCall) {P : call.Answer → Prop} (a : call.Answer)
    (ha : (BackendCall.other call).Answered s f x a x)
    (hcall : ∀ a y, (BackendCall.other call).Answered s f x a y → P a ∧ y = x) :
    (other call).Alone (BackendCall.Answered s f) (fun a y => P a ∧ y = x) x := by
  rintro _ rfl
  exact ⟨⟨a, x, ha⟩, fun a z hz => ⟨trivial, hcall a z hz⟩⟩

/-- A name that no record has is asked for. -/
theorem assures_newJobId (hfree : ∃ id, x.store.document (s.nameOf id) = none) :
    (other .newJobId).Alone (BackendCall.Answered s f)
      (fun (id : JobId) y => x.store.document (s.nameOf id) = none ∧ y = x) x := by
  obtain ⟨id, hid⟩ := hfree
  exact assures_other .newJobId id ⟨hid, rfl⟩ fun _ _ h => h

theorem assures_now :
    (other .now).Alone (BackendCall.Answered s f) (fun _ y => True ∧ y = x) x :=
  assures_other .now (⟨0, 0⟩ : Timestamp) rfl fun _ _ h => ⟨trivial, h⟩

/-- The service is answered as its servers answer. -/
theorem assures_ask {q : QueueConfig} (call : ServiceCall) {Q : call.Answer → BackendServers → Prop}
    (h : (answer s q call).Alone (BackendCall.Answered s f) Q x) :
    (call.ask.expand (answer s q)).Alone (BackendCall.Answered s f) Q x := by
  rw [ServiceCall.ask, expand_ask]
  exact h

theorem possibly_ask {q : QueueConfig} (call : ServiceCall)
    {Q : call.Answer → BackendServers → Prop}
    (h : (answer s q call).Possibly (BackendCall.Answered s f) Q x) :
    (call.ask.expand (answer s q)).Possibly (BackendCall.Answered s f) Q x := by
  rw [ServiceCall.ask, expand_ask]
  exact h

end Backend

namespace Service

open Program

variable {s : RecordStore} {q : QueueConfig} {c : ServiceConfig} {x y : BackendServers}
  {loses : Prop} {submission : Submission}

/-- There is one more record, which is open, and its request was queued. -/
structure Accepts (s : RecordStore) (q : QueueConfig) (submission : Submission)
    (x : BackendServers) (r : JobRecord) (y : BackendServers) : Prop where
  gained : s.Gained x.store r y.store
  opened : r.status = .processing
  queued : y.queue.added = x.queue.added ++
    [(q.stream, Queue.entryFields (.createVideo (submission.toRequest r.id)))]

/-- No record is open that was not there before. -/
def NoneOpened (s : RecordStore) (x y : BackendServers) : Prop :=
  ∀ r : JobRecord, x.store.document (s.nameOf r.id) = none → s.ReadAs y.store r →
    r.status ≠ .processing

/-- There is one more record, which is open, and nothing was queued. -/
def Strands (s : RecordStore) (x y : BackendServers) : Prop :=
  ∃ r, s.Gained x.store r y.store ∧ r.status = .processing ∧ y.queue = x.queue

theorem noneOpened_of_eq (h : y.store = x.store) : NoneOpened s x y := by
  rintro r hfree ⟨d, hd, -⟩
  rw [h, hfree] at hd
  cases hd

theorem noneOpened_of_gained {r : JobRecord} (h : s.Gained x.store r y.store)
    (hr : r.status ≠ .processing) : NoneOpened s x y := by
  intro r' hfree hread
  rw [h.status_eq hfree hread]
  exact hr

theorem Strands.not_noneOpened (h : Strands s x y) : ¬ NoneOpened s x y := by
  obtain ⟨r, hgained, hr, -⟩ := h
  obtain ⟨d, hd⟩ := hgained.kept
  exact fun hnone => hnone r hgained.fresh hd.readAs hr

/-- What is known when a submission has been dealt with. -/
def Settles (s : RecordStore) (q : QueueConfig) (submission : Submission) (loses : Prop)
    (x : BackendServers) (result : Except ServiceError JobRecord) (y : BackendServers) : Prop :=
  (∃ r, result = .ok r ∧ Accepts s q submission x r y) ∨
    (∃ e, result = .error e) ∧ (NoneOpened s x y ∨ loses ∧ Strands s x y)

theorem assures_create (r : JobRecord) (hfree : x.store.document (s.nameOf r.id) = none)
    (hr : r.Fits) :
    (Backend.answer s q (.create r)).Alone (BackendCall.Answered s (.creating loses))
      (fun result y => y.queue = x.queue ∧
        ((∃ e, result = .error e) ∧ y.store = x.store ∨ s.Gained x.store r y.store ∧
          (result = .ok () ∨ loses ∧ ∃ e, result = .error e))) x := by
  refine (Backend.assures_asking (RecordStore.assures_create_new hfree)).weaken ?_
  rintro _ y ⟨result, rfl, ⟨hstore, e, rfl⟩ | ⟨hcreated, rfl | ⟨hloses, e, rfl⟩⟩, hqueue⟩
  · exact ⟨hqueue, .inl ⟨⟨_, rfl⟩, hstore⟩⟩
  · exact ⟨hqueue, .inr ⟨hcreated.gained hfree hr, .inl rfl⟩⟩
  · exact ⟨hqueue, .inr ⟨hcreated.gained hfree hr, .inr ⟨hloses, _, rfl⟩⟩⟩

theorem assures_enqueue (request : VideoRequest Float) :
    (Backend.answer s q (.enqueue request)).Alone (BackendCall.Answered s (.creating loses))
      (fun result y => y.store = x.store ∧ (result = .ok () →
        y.queue.added = x.queue.added ++
          [(q.stream, Queue.entryFields (.createVideo request))])) x := by
  have hrun : (Backend.enqueue q request).run =
      (Queue.enqueue q (.createVideo request)).run >>= fun result =>
        pure (result.map fun _ => ()) := by
    rw [Backend.enqueue, ExceptT.run_bind]
    refine congrArg _ (funext fun result => ?_)
    cases result <;> rfl
  have hqueued : (Backend.enqueue q request).run.Alone QueueCall.Answered
      (fun result z => result = .ok () →
        z.added = x.queue.added ++ [(q.stream, Queue.entryFields (.createVideo request))])
      x.queue := by
    rw [hrun, Program.Alone, assures_bind]
    refine (Queue.assures_enqueue q (.createVideo request) x.queue).weaken fun result z hz => ?_
    cases result with
    | error e =>
        intro h
        cases h
    | ok id => exact fun _ => hz id rfl
  refine (Backend.assures_queuing hqueued).weaken ?_
  rintro _ y ⟨result, rfl, hadded, hstore⟩
  refine ⟨hstore, fun h => hadded ?_⟩
  cases result with
  | error e => cases h
  | ok _ => rfl

theorem assures_markFailed {r : JobRecord} (h : s.Gained x.store r y.store) :
    (Backend.answer s q (.markFailed r.id notQueued)).Alone
      (BackendCall.Answered s (.creating loses))
      (fun _ z => ∃ r', r'.status = .failed ∧ s.Gained x.store r' z.store) y := by
  refine (Backend.assures_asking (RecordStore.assures_markFailed_gained h notQueued)).weaken ?_
  rintro _ z ⟨result, rfl, ⟨-, hgained⟩, -⟩
  exact ⟨_, rfl, hgained⟩

theorem assures_submit (hfree : ∃ id, x.store.document (s.nameOf id) = none)
    (hvalid : submission.validate c.maxSlides = .ok ()) :
    (Backend.run s q (submit c submission)).Alone (BackendCall.Answered s (.creating loses))
      (Settles s q submission loses x) x := by
  rw [submit, hvalid]
  simp only
  rw [Backend.run, expand_bind, Program.Alone, assures_bind]
  refine (Backend.assures_ask .newJobId (Backend.assures_newJobId hfree)).weaken ?_
  rintro (id : JobId) _ ⟨hid, rfl⟩
  rw [expand_bind, assures_bind]
  refine (Backend.assures_ask .now Backend.assures_now).weaken ?_
  rintro (now : Timestamp) _ ⟨-, rfl⟩
  rw [expand_bind, assures_bind]
  refine (Backend.assures_ask _
    (assures_create (.fresh id now) hid (JobRecord.fits_fresh id now))).weaken ?_
  rintro result y ⟨hqueue, ⟨⟨e, rfl⟩, hstore⟩ | ⟨hgained, rfl | ⟨hloses, e, rfl⟩⟩⟩
  · exact .inr ⟨⟨e, rfl⟩, .inl (noneOpened_of_eq hstore)⟩
  · simp only
    rw [expand_bind, assures_bind]
    refine (Backend.assures_ask _ (assures_enqueue (submission.toRequest id))).weaken ?_
    rintro result z ⟨hstore, hqueued⟩
    rw [← hstore] at hgained
    cases result with
    | error e =>
        simp only
        rw [expand_bind, assures_bind]
        -- whether the message was added or not, the record is there to be marked
        refine (Backend.assures_ask _ (assures_markFailed hgained)).weaken ?_
        rintro _ w ⟨r', hfailed, hgained'⟩
        exact .inr ⟨⟨e, rfl⟩, .inl (noneOpened_of_gained hgained' (by simp [hfailed]))⟩
    | ok _ =>
        simp only
        rw [expand_bind, assures_bind]
        refine (Backend.assures_ask _ (Backend.assures_other (.count submitted)
          (P := fun _ => True) () rfl fun _ _ h => ⟨trivial, h⟩)).weaken ?_
        rintro _ _ ⟨-, rfl⟩
        exact .inl ⟨_, rfl, hgained, rfl, hqueue ▸ hqueued rfl⟩
  -- the create failed, so nobody marks the record that it may have left
  · exact .inr ⟨⟨e, rfl⟩, .inr ⟨hloses, _, hgained, rfl, hqueue⟩⟩

/-- A submission may be turned down although its record stays open. -/
theorem possibly_submit_stranded (hloses : loses)
    (hfree : ∃ id, x.store.document (s.nameOf id) = none)
    (hvalid : submission.validate c.maxSlides = .ok ()) :
    (Backend.run s q (submit c submission)).Possibly (BackendCall.Answered s (.creating loses))
      (fun result y => (∃ e, result = .error e) ∧ Strands s x y) x := by
  rw [submit, hvalid]
  simp only
  rw [Backend.run, expand_bind, possibly_bind]
  refine (Backend.assures_ask .newJobId (Backend.assures_newJobId hfree)).possibly.weaken ?_
  rintro (id : JobId) _ ⟨hid, rfl⟩
  rw [expand_bind, possibly_bind]
  refine (Backend.assures_ask .now Backend.assures_now).possibly.weaken ?_
  rintro (now : Timestamp) _ ⟨-, rfl⟩
  rw [expand_bind, possibly_bind]
  have hcreate := RecordStore.possibly_create_lost hloses (r := .fresh id now) hid
  refine (Backend.possibly_ask (.create (.fresh id now)) (Backend.possibly_asking hcreate)).weaken ?_
  rintro _ y ⟨_, rfl, ⟨hcreated, e, rfl⟩, hqueue⟩
  exact ⟨⟨_, rfl⟩, _, hcreated.gained hid (JobRecord.fits_fresh id now), rfl, hqueue⟩

/-! ## Requests -/

theorem status_of_readBody {β : Type} {decoder : Json.Decoder β} {limit : ℕ} {request : Request}
    {answer : Response} (h : readBody decoder limit request = .error answer) :
    answer.status ≠ 202 := by
  rw [readBody] at h
  split at h
  · cases h
    decide
  · split at h
    · cases h
      decide
    · split at h
      · cases h
      · cases h
        simp [Response.text]
      · cases h
        decide

theorem status_errorResponse (c : ServiceConfig) (e : ServiceError) :
    (errorResponse c e).status ≠ 202 := by
  cases e <;> simp [errorResponse, Response.json, ServiceError.status]

/-- A request whose submission is read and has nothing wrong with it. -/
def Acceptable (c : ServiceConfig) (limit : ℕ) (request : Request) : Prop :=
  ∃ submission, readBody Submission.decoder limit request = .ok submission ∧
    submission.validate c.maxSlides = .ok ()

/-- The answer to a submission that is accepted. -/
def acceptedResponse (r : JobRecord) : Response :=
  .json 202 (.object [("job_id", .string r.id), ("status", .string r.status.text)])

theorem assures_createVideo (hfree : ∃ id, x.store.document (s.nameOf id) = none) (c : ServiceConfig)
    (limit : ℕ) (request : Request) :
    (Backend.run s q (createVideo c limit request)).Alone (BackendCall.Answered s (.creating loses))
      (fun response y =>
        (∃ submission r, readBody Submission.decoder limit request = .ok submission ∧
          response = acceptedResponse r ∧ Accepts s q submission x r y) ∨
        response.status ≠ 202 ∧
          (NoneOpened s x y ∨ (loses ∧ Acceptable c limit request) ∧ Strands s x y)) x := by
  rw [createVideo]
  cases hbody : readBody Submission.decoder limit request with
  | error answer => exact .inr ⟨status_of_readBody hbody, .inl (noneOpened_of_eq rfl)⟩
  | ok submission =>
      simp only
      cases hvalid : submission.validate c.maxSlides with
      | error e =>
          rw [submit, hvalid]
          exact .inr ⟨status_errorResponse c e, .inl (noneOpened_of_eq rfl)⟩
      | ok _ =>
          rw [Backend.run, expand_bind, Program.Alone, assures_bind]
          refine (assures_submit hfree hvalid).weaken ?_
          rintro result y (⟨r, rfl, haccepts⟩ | ⟨⟨e, rfl⟩, hnone | ⟨hloses, hstrands⟩⟩)
          · exact .inl ⟨submission, r, rfl, rfl, haccepts⟩
          · exact .inr ⟨status_errorResponse c e, .inl hnone⟩
          · exact .inr ⟨status_errorResponse c e,
              .inr ⟨⟨hloses, submission, hbody, hvalid⟩, hstrands⟩⟩

/-- A request that could be accepted may be turned down although its record stays open. -/
theorem possibly_createVideo_stranded (hloses : loses)
    (hfree : ∃ id, x.store.document (s.nameOf id) = none) {limit : ℕ} {request : Request}
    (h : Acceptable c limit request) :
    (Backend.run s q (createVideo c limit request)).Possibly
      (BackendCall.Answered s (.creating loses))
      (fun response y => response.status ≠ 202 ∧ Strands s x y) x := by
  obtain ⟨submission, hbody, hvalid⟩ := h
  rw [createVideo, hbody]
  simp only
  rw [Backend.run, expand_bind, possibly_bind]
  refine (possibly_submit_stranded hloses hfree hvalid).weaken ?_
  rintro _ y ⟨⟨e, rfl⟩, hstrands⟩
  exact ⟨status_errorResponse c e, hstrands⟩

/-- A request is answered, and that leaves the servers in a state. -/
def Handled (s : RecordStore) (q : QueueConfig) (c : ServiceConfig) (limit : ℕ) (request : Request)
    (loses : Prop) (x : BackendServers) (response : Response) (y : BackendServers) : Prop :=
  ∃ t, System.Allowed (BackendCall.Answered s (.creating loses)) t x y ∧
    (Backend.run s q (createVideo c limit request)).Leads t (.done response)

/-- Every request is answered. If it is accepted, there is one more record, which is open, and its
request was queued. If it is not, nothing is open that was not before, exactly if there is no request
that could be accepted and a create whose answer gets lost. -/
theorem createVideo_accounts (s : RecordStore) (q : QueueConfig) (c : ServiceConfig) (limit : ℕ)
    (request : Request) (loses : Prop) {x : BackendServers}
    (hfree : ∃ id, x.store.document (s.nameOf id) = none) :
    (∃ response y, Handled s q c limit request loses x response y) ∧
    (∀ response y, Handled s q c limit request loses x response y → response.status = 202 →
      ∃ submission r, readBody Submission.decoder limit request = .ok submission ∧
        response = acceptedResponse r ∧ Accepts s q submission x r y) ∧
    (∀ response y, Handled s q c limit request loses x response y → response.status ≠ 202 →
      NoneOpened s x y ∨ Strands s x y) ∧
    ((∀ response y, Handled s q c limit request loses x response y → response.status ≠ 202 →
      NoneOpened s x y) ↔ ¬ (loses ∧ Acceptable c limit request)) := by
  have hassured : (Backend.run s q (createVideo c limit request)).Alone
      (BackendCall.Answered s (.creating loses)) _ x := assures_createVideo hfree c limit request
  have hturned : ∀ response y, Handled s q c limit request loses x response y →
      response.status ≠ 202 →
        NoneOpened s x y ∨ (loses ∧ Acceptable c limit request) ∧ Strands s x y := by
    rintro response y ⟨t, ht, hleads⟩ hstatus
    rcases hassured.ends_of_run ht hleads with ⟨submission, r, -, rfl, -⟩ | ⟨-, hends⟩
    · exact (hstatus rfl).elim
    · exact hends
  refine ⟨?_, ?_, ?_, ?_⟩
  · obtain ⟨t, y, response, ht, hleads, -⟩ := hassured.exists_run
    exact ⟨response, y, t, ht, hleads⟩
  · rintro response y ⟨t, ht, hleads⟩ hstatus
    exact (hassured.ends_of_run ht hleads).resolve_right fun h => h.1 hstatus
  · exact fun response y hy hstatus => (hturned response y hy hstatus).imp_right And.right
  · refine ⟨fun h hstrandable => ?_, fun h response y hy hstatus => ?_⟩
    · obtain ⟨t, y, response, ht, hleads, hstatus, hstrands⟩ :=
        (possibly_createVideo_stranded (q := q) hstrandable.1 hfree hstrandable.2).exists_run
      exact hstrands.not_noneOpened (h response y ⟨t, ht, hleads⟩ hstatus)
    · exact (hturned response y hy hstatus).resolve_right fun hstrands => h hstrands.1

/-! ## A request for one slide -/

open RecordStore (jobStore)

def slideRequest : Request where
  method := "POST"
  target := "/api/videos"
  headers := [("content-type", "application/json")]
  body := "\x7b\"urls\":[\"http://a\"]\x7d"

/-- Servers that keep nothing yet. -/
def emptyServers : BackendServers := ⟨⟨fun _ => none, []⟩, ⟨∅, []⟩⟩

theorem readBody_slideRequest :
    readBody Submission.decoder 1048576 slideRequest = .ok ⟨["http://a"], .standard⟩ := by
  have hread : (Json.read slideRequest.body).1 =
      .object [(.string "urls", .array [.string "http://a"] none)] none :=
    Json.read_listed ['u', 'r', 'l', 's'] ['h', 't', 't', 'p', ':', '/', '/', 'a']
      (by simp [Json.Reader.IsPlain]) (by simp [Json.Reader.IsPlain]) rfl
  have hdecoded : Submission.decoder.ofBeginning slideRequest.body =
      .ok ⟨["http://a"], .standard⟩ := by
    rw [Json.Decoder.ofBeginning, hread]
    rfl
  rw [readBody, hdecoded, if_neg (by decide +kernel), if_neg (by decide +kernel)]

theorem acceptable_slideRequest : Acceptable {} 1048576 slideRequest := by
  refine ⟨_, readBody_slideRequest, ?_⟩
  have hvalid : ((⟨["http://a"], .standard⟩ : Submission).validate 1000).isOk = true := by
    decide +kernel
  cases h : (⟨["http://a"], .standard⟩ : Submission).validate 1000 with
  | ok _ => rfl
  | error e =>
      rw [h] at hvalid
      cases hvalid

theorem exists_free_emptyServers :
    ∃ id, emptyServers.store.document (jobStore.nameOf id) = none :=
  ⟨"holiday", rfl⟩

/-- Where no answer to a create gets lost, the request is answered and accounted for. -/
theorem createVideo_accounts_slide :
    (∃ id, emptyServers.store.document (jobStore.nameOf id) = none) ∧
    (∃ response y, Handled jobStore {} {} 1048576 slideRequest False emptyServers
      response y) ∧
    ∀ response y, Handled jobStore {} {} 1048576 slideRequest False emptyServers
      response y → response.status ≠ 202 → NoneOpened jobStore emptyServers y := by
  obtain ⟨hhandled, -, -, hnone⟩ := createVideo_accounts jobStore {} {} 1048576
    slideRequest False exists_free_emptyServers
  exact ⟨exists_free_emptyServers, hhandled, hnone.mpr fun h => h.1⟩

/-- The request may be turned down although its record was created and stays open. -/
theorem not_noneOpened_slide :
    ¬ ∀ response y, Handled jobStore {} {} 1048576 slideRequest True emptyServers
      response y → response.status ≠ 202 → NoneOpened jobStore emptyServers y := by
  intro h
  obtain ⟨t, y, response, ht, hleads, hstatus, hstrands⟩ :=
    (possibly_createVideo_stranded (q := {}) trivial exists_free_emptyServers
      acceptable_slideRequest).exists_run
  exact hstrands.not_noneOpened (h response y ⟨t, ht, hleads⟩ hstatus)

end Service

end Slideshow
