import Slideshow.Proofs.Store.Refinement

/-! # Creating a record

A record is created by a request that is tried again if its answer gets lost. If it did take effect,
the document is there already when it is tried again, and the create fails although the record is
there. -/

namespace Slideshow

open DocumentRequest (createWrite)

/-- A request that creates a document. -/
def DocumentRequest.IsCreate : DocumentRequest → Prop
  | create _ _ _ => True
  | get _ _ | patch _ _ _ _ _ | commit _ => False

/-- Creates may get lost, and their answers if `loses` says so; everything else arrives. -/
def Faults.creating (loses : Prop) : Faults where
  drops := DocumentRequest.IsCreate
  loses r := r.IsCreate ∧ loses

theorem StoreConfig.documentName_inj {c : StoreConfig} {collection id id' : String} :
    c.documentName collection id = c.documentName collection id' ↔ id = id' :=
  String.append_right_inj _

theorem JobRecord.fits_fresh (id : JobId) (now : Timestamp) : (fresh id now).Fits :=
  ⟨fun _ h => (nomatch h), (by decide : 0 < UInt32.size), fun _ h => nomatch h⟩

theorem DocumentRequest.admitted_createWrite {fields : Fields} {found : Option Document} :
    (createWrite fields).Admitted found ↔ found = none := by
  refine ⟨fun h => ?_, ?_⟩
  · have hpresent := (h _ rfl).1 false rfl
    exact Option.not_isSome_iff_eq_none.mp (by simp [hpresent])
  · rintro rfl _ ⟨⟩
    exact ⟨fun b h => (by cases h; rfl), fun t h => nomatch h⟩

namespace RecordStore

open StoreClient DocumentServer Program

variable {s : RecordStore} {f : Faults} {x y : DocumentServer} {r : JobRecord} {loses : Prop}

/-- The record was created, and nothing else was written. -/
def Created (s : RecordStore) (x : DocumentServer) (r : JobRecord) (y : DocumentServer) : Prop :=
  ∃ time, y = x.write (s.nameOf r.id) (createWrite r.toFields) time

/-- The request that creates a record. -/
abbrev createRequest (s : RecordStore) (r : JobRecord) : DocumentRequest :=
  .create s.config.jobs r.id r.toFields

theorem Created.document_ne_none (h : s.Created x r y) : y.document (s.nameOf r.id) ≠ none := by
  obtain ⟨time, rfl⟩ := h
  simp [document_write]

theorem assures_create {others own : DocumentServer → DocumentServer → Prop}
    {I : DocumentServer → Prop} {Q : Except StoreError Unit → DocumentServer → Prop}
    (ha : Among others own) (hI : Stable others I) (hQ : ∀ result, Stable others (Q result))
    (h : Writes s.config f others own (s.createRequest r) (s.nameOf r.id) (createWrite r.toFields)
      (fun _ => True) I Q) (hx : I x) :
    (s.create r).Assures (ClientCall.Answered s.config f) others own Q x := by
  rw [create, Program.assures_bind]
  exact ((h.discard Document).handles (reads_create _ _ _ _ _) ha).retrying ha hI
    (fun result => hQ _) _ _ hx

/-- Where there is no record yet, it is created at most once. If the answer says that it was not,
either it was not or the answer that says that it was has got lost. -/
theorem assures_create_new (hfree : x.document (s.nameOf r.id) = none) :
    (s.create r).Alone (ClientCall.Answered s.config (.creating loses))
      (fun result z => z = x ∧ (∃ e, result = .error e) ∨
        s.Created x r z ∧ (result = .ok () ∨ loses ∧ ∃ e, result = .error e)) x := by
  refine assures_create (I := fun y => y = x ∨ loses ∧ s.Created x r y) among_nobody
    (stable_nobody _) (fun _ => stable_nobody _) ⟨rfl, fun _ _ => .inl trivial, ?_, ?_, ?_⟩ (.inl rfl)
  -- a try that was lost may have created the record; then no later one is admitted
  · rintro y time (rfl | ⟨-, hcreated⟩) hadmitted -
    · exact ⟨trivial, fun _ => .inr ⟨⟨time, rfl⟩, .inl rfl⟩, fun hlost =>
        ⟨.inr ⟨hlost.2, time, rfl⟩, fun e => .inr ⟨⟨time, rfl⟩, .inr ⟨hlost.2, e, rfl⟩⟩⟩⟩
    · exact (hcreated.document_ne_none (DocumentRequest.admitted_createWrite.mp hadmitted)).elim
  · rintro y e (rfl | ⟨hloses, hcreated⟩) hrefused -
    · exact (hrefused (DocumentRequest.admitted_createWrite.mpr hfree)).elim
    · exact .inr ⟨hcreated, .inr ⟨hloses, e, rfl⟩⟩
  · rintro y e (rfl | ⟨hloses, hcreated⟩) -
    · exact .inl ⟨rfl, e, rfl⟩
    · exact .inr ⟨hcreated, .inr ⟨hloses, e, rfl⟩⟩

/-- Where there is a record, none is created. -/
theorem assures_attempt_again (hthere : x.document (s.nameOf r.id) ≠ none) :
    (createDocument s.base s.config.jobs r.id r.toFields).Alone
      (ClientCall.Answered s.config (.creating loses))
      (fun result z => (z = x ∧ ∃ e, result = .error e) ∧ ∀ e, result = .error e → z = x) x := by
  have hwrites : Writes s.config (.creating loses) Eq (fun _ _ => True) (s.createRequest r)
      (s.nameOf r.id) (createWrite r.toFields) (fun _ => True) (fun y => y = x)
      (fun (result : Except StoreError Document) z => z = x ∧ ∃ e, result = .error e) := by
    refine ⟨rfl, fun _ _ => .inl trivial, ?_, ?_, ?_⟩
    · rintro y time rfl hadmitted -
      exact (hthere (DocumentRequest.admitted_createWrite.mp hadmitted)).elim
    · rintro y e rfl - -
      exact ⟨rfl, e, rfl⟩
    · rintro y e rfl -
      exact ⟨rfl, e, rfl⟩
  exact (hwrites.handles (reads_create _ _ _ _ _) among_nobody).request among_nobody
    (stable_nobody _) (fun _ => stable_nobody _) rfl

/-- The record is created, and nobody answers. -/
theorem possibly_attempt_lost (hloses : loses) (hfree : x.document (s.nameOf r.id) = none) :
    (createDocument s.base s.config.jobs r.id r.toFields).Possibly
      (ClientCall.Answered s.config (.creating loses))
      (fun result z => s.Created x r z ∧ ∃ reason, result = .error (.network reason)) x := by
  obtain ⟨time, htime⟩ := x.exists_new_time
  have hadmitted : (createWrite r.toFields).Admitted (x.document (s.nameOf r.id)) :=
    DocumentRequest.admitted_createWrite.mpr hfree
  obtain ⟨reply, hreply⟩ := DocumentRequest.exists_confirmed (c := s.config) (r := s.createRequest r)
    rfl (d := x.written (s.nameOf r.id) (createWrite r.toFields) time)
    (by rintro _ ⟨⟩; exact readable_createWrite r)
  have hanswered : (s.createRequest r).Answered s.config (.creating loses) x
      (.error .unreadableBody) (x.write (s.nameOf r.id) (createWrite r.toFields) time) :=
    .inr ⟨(fun _ h => nomatch h),
      .inr ⟨⟨trivial, hloses⟩, reply, .written rfl hadmitted htime hreply⟩⟩
  have hsend : (StoreClient.send (s.createRequest r)).Possibly
      (ClientCall.Answered s.config (.creating loses))
      (fun result z => s.Created x r z ∧ ∃ reason, result = .error (.network reason)) x :=
    ⟨.ok "", x, ⟨⟨"", rfl⟩, rfl⟩, .error .unreadableBody, _, hanswered, ⟨time, rfl⟩, _, rfl⟩
  rw [createDocument, request, possibly_bind]
  refine hsend.weaken ?_
  rintro _ z ⟨hcreated, reason, rfl⟩
  exact ⟨(), z, rfl, hcreated, reason, rfl⟩

/-- What may have taken effect although nobody answered fails for good when it is tried again. -/
theorem possibly_attempts_lost {β : Type} {attempt : Asking (Except StoreError β)}
    {P : DocumentServer → Prop}
    (hlost : attempt.Possibly (ClientCall.Answered s.config f)
      (fun result z => P z ∧ ∃ reason, result = .error (.network reason)) x)
    (hagain : ∀ z, P z → attempt.Alone (ClientCall.Answered s.config f)
      (fun result z' => (P z' ∧ ∃ e, result = .error e) ∧ ∀ e, result = .error e → P z') z)
    (p : RetryPolicy) (operation : String) :
    (StoreClient.retrying p operation attempt).Possibly (ClientCall.Answered s.config f)
      (fun result z => P z ∧ ∃ e, result = .error e) x := by
  have htry : ((Retry.attempt (β := β)).expand (answerRetry attempt)) = attempt :=
    Program.expand_ask RetryCall.attempt
  rw [StoreClient.retrying, Retry.run]
  cases p.maxRetries with
  | zero =>
      rw [Retry.attempts, htry]
      refine hlost.weaken ?_
      rintro _ z ⟨hz, reason, rfl⟩
      exact ⟨hz, _, rfl⟩
  | succ left =>
      rw [Retry.attempts, expand_bind, htry, possibly_bind]
      -- only the first try is chosen; whatever answers follow, it cannot succeed any more
      refine hlost.weaken ?_
      rintro _ z ⟨hz, reason, rfl⟩
      have hI := stable_nobody P
      have hdelay : ((Retry.delay p 0 (.network reason)).expand (answerRetry attempt)).Possibly
          (ClientCall.Answered s.config f) (fun _ z => P z) z :=
        (assures_delay among_nobody hI hz p 0 _).possibly
      simp only [StoreError.isRetryable, if_true]
      rw [expand_bind, possibly_bind]
      refine hdelay.weaken fun ms z' hz' => ?_
      rw [expand_bind, possibly_bind]
      refine (assures_quiet among_nobody hI hz' (.count _) trivial).possibly.weaken fun _ z hz => ?_
      rw [expand_bind, possibly_bind]
      refine (assures_quiet among_nobody hI hz (.wait ms) trivial).possibly.weaken fun _ z hz => ?_
      exact (assures_attempts among_nobody hI hagain p operation 1 left hz).possibly

/-- A record may be created although its creator is told that it was not. -/
theorem possibly_create_lost (hloses : loses) (hfree : x.document (s.nameOf r.id) = none) :
    (s.create r).Possibly (ClientCall.Answered s.config (.creating loses))
      (fun result z => s.Created x r z ∧ ∃ e, result = .error e) x := by
  rw [create, possibly_bind]
  refine (possibly_attempts_lost (possibly_attempt_lost hloses hfree) ?_ _ _).weaken ?_
  · intro z hz
    refine (assures_attempt_again hz.document_ne_none).weaken ?_
    rintro result z' ⟨⟨rfl, herror⟩, -⟩
    exact ⟨⟨hz, herror⟩, fun _ _ => hz⟩
  · rintro _ z ⟨hcreated, e, rfl⟩
    exact ⟨hcreated, e, rfl⟩

/-! ## What is read of it -/

/-- There is one more record, and all documents but its own are as before. -/
structure Gained (s : RecordStore) (x : DocumentServer) (r : JobRecord) (y : DocumentServer) :
    Prop where
  fresh : x.document (s.nameOf r.id) = none
  kept : ∃ d, s.Keeps y r d
  others : ∀ name, name ≠ s.nameOf r.id → y.document name = x.document name

theorem Created.gained (h : s.Created x r y) (hfree : x.document (s.nameOf r.id) = none)
    (hr : r.Fits) : s.Gained x r y := by
  obtain ⟨time, rfl⟩ := h
  exact ⟨hfree, ⟨_, .created hr x time⟩, fun name hname => Function.update_of_ne hname _ _⟩

/-- A new record that is marked as failed is still the only one. -/
theorem Gained.failureWrite (h : s.Gained x r y) (reason : String) (now : Timestamp)
    (time : String) : s.Gained x (r.withFailure reason)
      (y.write (s.nameOf r.id) (RecordStore.failureWrite reason now) time) := by
  obtain ⟨d, hd⟩ := h.kept
  refine ⟨h.fresh, ?_, fun name hname => ?_⟩
  · exact hd.write (rfl : (r.withFailure reason).id = r.id)
      (represents_failureWrite hd.represents reason now)
      (fun _ hfields => readable_failureWrite hfields reason now) time
  · exact (Function.update_of_ne hname _ _).trans (h.others name hname)

/-- A new record is marked as failed where nothing else may fail than a create. -/
theorem assures_markFailed_gained (h : s.Gained x r y) (reason : String) :
    (s.markFailed r.id reason).Alone (ClientCall.Answered s.config (.creating loses))
      (fun result z => result = .ok () ∧ s.Gained x (r.withFailure reason) z) y := by
  obtain ⟨d, hd⟩ := h.kept
  have hundisturbed : ∀ now request,
      DocumentRequest.write? s.config request = some (s.nameOf r.id, failureWrite reason now) →
        ¬ ((Faults.creating loses).drops request ∨ (Faults.creating loses).loses request) := by
    intro now request hwrite
    cases request with
    | create collection id fields =>
        have hw := (Prod.mk.inj (Option.some.inj hwrite)).2
        exact (nomatch congrArg DocumentWrite.precondition hw)
    | _ => exact fun h => h.elim id And.left
  have hwritten := performs_alone hundisturbed (fun now => admitted_of_none rfl _)
    fun now => readable_written hd.readable_document
      fun _ hfields => readable_failureWrite hfields reason now
  refine (assures_markFailed among_nobody (stable_nobody _) (fun _ => stable_nobody _) hwritten
    rfl).weaken ?_
  rintro result z ⟨hresult, now, time, rfl⟩
  exact ⟨hresult, h.failureWrite reason now time⟩

/-- Every record that can be read now and was not there before is that one. -/
theorem Gained.status_eq (h : s.Gained x r y) {r' : JobRecord}
    (hfree : x.document (s.nameOf r'.id) = none) (hr' : s.ReadAs y r') : r'.status = r.status := by
  obtain ⟨d, hd⟩ := h.kept
  obtain ⟨d', hd', hread⟩ := hr'
  by_cases hname : s.nameOf r'.id = s.nameOf r.id
  · have hid := StoreConfig.documentName_inj.mp hname
    obtain ⟨r'', hr'', huntimed⟩ := hd.represents.ofDocument ⟨0, 0⟩
    rw [hname, hd.document] at hd'
    cases hd'
    have hsame := hread ⟨0, 0⟩
    rw [hid, hr'', Except.map, huntimed] at hsame
    exact (congrArg JobRecord.status (Except.ok.inj hsame)).symm
  · rw [h.others _ hname, hfree] at hd'
    cases hd'

end RecordStore

end Slideshow
