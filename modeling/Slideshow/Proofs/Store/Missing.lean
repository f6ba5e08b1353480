import Slideshow.Proofs.Store.Creation

/-! # Calls about a record that is not there

A write that asks for the record to be there is refused, and nothing comes of it. A write that does
not ask creates the record, with the few fields that the write gives. -/

namespace Slideshow

/-- A call that writes the record whether it is there or not. -/
def StoreCall.Upserts : StoreCall → Prop
  | .setStatus _ _ _ | .markFailed _ _ => True
  | .load _ | .setBatchCount _ _ | .appendOutput _ _ | .claimJoin _ _ => False

/-- A request may get lost, or its answer. -/
def Faults.Disturbs (f : Faults) (r : DocumentRequest) : Prop := f.drops r ∨ f.loses r

theorem Faults.not_disturbs_none (r : DocumentRequest) : ¬ Faults.none.Disturbs r :=
  fun h => h.elim id id

/-- Faults only add to how a call may be answered. -/
theorem ClientCall.Answered.of_none {c : StoreConfig} {f : Faults} {call : ClientCall}
    {x y : DocumentServer} {a : call.Answer} (h : call.Answered c .none x a y) :
    call.Answered c f x a y := by
  cases call with
  | send r t =>
      rcases h with h | ⟨-, ⟨h, -⟩ | ⟨h, -⟩⟩
      · exact .inl h
      · exact h.elim
      · exact h.elim
  | _ => exact h

/-- The record of a job of which nothing is known but that it failed. -/
def JobRecord.failed (id : JobId) (reason : String) : JobRecord :=
  (fresh id ⟨0, 0⟩).withFailure reason

namespace RecordStore

open StoreClient DocumentServer Program

variable {s : RecordStore} {f : Faults} {x y : DocumentServer} {id : JobId} {w : DocumentWrite}

/-! ## Calls that ask for the record -/

theorem not_admitted_missing (hw : w.precondition = some .exists?) : ¬ w.Admitted none := by
  intro h
  exact absurd ((h _ hw).1 true rfl) Bool.false_ne_true

/-- Nothing comes of a write that is not admitted. -/
theorem performs_refused {w : Timestamp → DocumentWrite}
    (hw : ∀ now, ¬ (w now).Admitted (x.document (s.nameOf id))) :
    Performs s f Eq (fun _ _ => True) id w (fun y => y = x) (fun _ y => y = x) := by
  intro now r hr
  refine ⟨hr, ?_, ?_, ?_, ?_⟩
  · rintro _ rfl
    obtain ⟨reply, hreply⟩ := r.exists_refused
    exact .inr ⟨reply, _, .refused hr (hw now) hreply⟩
  · rintro _ time rfl hadmitted -
    exact (hw now hadmitted).elim
  · rintro _ e rfl - -
    rfl
  · rintro _ e rfl -
    rfl

theorem readable_missing (hmissing : x.document (s.nameOf id) = none) :
    ∀ d, x.document (s.nameOf id) = some d → d.Readable :=
  fun _ hd => nomatch hmissing.symm.trans hd

/-- No record is found, unless reading it goes wrong. -/
theorem assures_load_missing (hmissing : x.document (s.nameOf id) = none) :
    (s.load id).Alone (ClientCall.Answered s.config f)
      (fun result y => (result = .ok none ∨
        (∃ e, result = .error e) ∧ f.Disturbs (.get s.config.jobs id)) ∧ y = x) x := by
  refine assures_load (I := fun y => y = x) among_nobody (stable_nobody _) (fun _ => stable_nobody _)
    ?_ ?_ ?_ rfl
  · rintro _ rfl
    exact .inr (DocumentRequest.exists_served_get (readable_missing hmissing))
  · rintro _ now rfl
    rw [hmissing]
    exact ⟨.inl rfl, rfl⟩
  · rintro _ e rfl hdisturbed
    exact ⟨.inr ⟨⟨e, rfl⟩, hdisturbed⟩, rfl⟩

theorem assures_claim_missing (hmissing : x.document (s.nameOf id) = none) (batch left : ℕ) :
    (s.claim id batch (left + 1)).Alone (ClientCall.Answered s.config f) (fun _ y => y = x) x := by
  rw [claim_succ, Program.Alone, assures_bind]
  refine (assures_load_missing hmissing).weaken ?_
  rintro _ y ⟨rfl | ⟨⟨e, rfl⟩, -⟩, rfl⟩ <;> rfl

theorem assures_answer_load (hmissing : x.document (s.nameOf id) = none) :
    (s.answer (.load id)).Alone (ClientCall.Answered s.config f)
      (fun (a : (StoreCall.load id).Answer) y => (a = .ok none ∨
        (∃ e, a = .error e) ∧ f.Disturbs (.get s.config.jobs id)) ∧ y = x) x := by
  refine assures_forWorker.mpr ((assures_bind _ _).mpr ((assures_load_missing hmissing).weaken ?_))
  rintro _ y ⟨rfl | ⟨⟨e, rfl⟩, hdisturbed⟩, rfl⟩
  · exact ⟨.inl rfl, rfl⟩
  · exact ⟨.inr ⟨⟨_, rfl⟩, hdisturbed⟩, rfl⟩

/-- A call that does not upsert leaves everything as it is. -/
theorem assures_answer_missing {c : StoreCall} (hmissing : x.document (s.nameOf c.jobId) = none)
    (hc : ¬ c.Upserts) :
    (s.answer c).Alone (ClientCall.Answered s.config f) (fun _ y => y = x) x := by
  have hrefused : ∀ {w : Timestamp → DocumentWrite}, (∀ now, (w now).precondition = some .exists?) →
      Performs s f Eq (fun _ _ => True) c.jobId w (fun y => y = x) (fun _ y => y = x) := by
    intro w hw
    refine performs_refused fun now => ?_
    rw [hmissing]
    exact not_admitted_missing (hw now)
  cases c with
  | load id => exact (assures_answer_load hmissing).weaken fun _ _ h => h.2
  | setBatchCount id count =>
      exact assures_forWorker.mpr (assures_setBatchCount among_nobody (stable_nobody _)
        (fun _ => stable_nobody _) (hrefused fun _ => rfl) rfl)
  | appendOutput id output =>
      exact assures_forWorker.mpr (assures_appendOutput among_nobody (stable_nobody _)
        (fun _ => stable_nobody _) (hrefused fun _ => rfl) rfl)
  | claimJoin id batch => exact assures_forWorker.mpr (assures_claim_missing hmissing batch _)
  | setStatus id status video => exact (hc trivial).elim
  | markFailed id reason => exact (hc trivial).elim

/-! ## Calls that do not ask -/

/-- All that is known of a job without a record is that it failed. -/
theorem represents_failureWrite_nil (id : JobId) (reason : String) (now : Timestamp) :
    Fields.Represents ((failureWrite reason now).apply []) (.failed id reason) := by
  have hbatches : ((failureWrite reason now).apply []).lookup "batches" = none := by
    simp [lookup_failureWrite]
  have hinner : Fields.inner ((failureWrite reason now).apply []) "batches" = [] := by
    rw [Fields.inner, hbatches]
  refine ⟨?_, ?_, ?_, ?_, ?_, ?_, ?_, fun _ h => (List.not_mem_nil h).elim⟩
  · simp [Fields.status?, lookup_failureWrite, StoreValue.string?, JobStatus.ofText?_text,
      JobRecord.failed, JobRecord.withFailure]
  · simp [Fields.text?, lookup_failureWrite, JobRecord.failed, JobRecord.withFailure,
      JobRecord.fresh]
  · simp [Fields.text?, lookup_failureWrite, StoreValue.string?, JobRecord.failed,
      JobRecord.withFailure]
  · simp [Fields.joiner?, lookup_failureWrite, JobRecord.failed, JobRecord.withFailure,
      JobRecord.fresh]
  · rw [hbatches]
    rfl
  · rw [Fields.batchCount, hinner]
    rfl
  · rw [Fields.outputValues, hinner]
    rfl

theorem fields_missing (hmissing : x.document (s.nameOf id) = none) :
    x.fields (s.nameOf id) = [] := by
  rw [DocumentServer.fields, hmissing]
  rfl

/-- The first note of a failure creates the record. -/
theorem gained_failureWrite (hmissing : x.document (s.nameOf id) = none) (reason : String)
    (now : Timestamp) (time : String) :
    s.Gained x (.failed id reason) (x.write (s.nameOf id) (failureWrite reason now) time) := by
  refine ⟨hmissing, ⟨_, document_write, rfl, ?_, ?_⟩,
    fun name hname => Function.update_of_ne hname _ _⟩
  · exact readable_written (readable_missing hmissing)
      (fun _ hfields => readable_failureWrite hfields reason now) time
  · have hwritten : Fields.Represents ((failureWrite reason now).apply (x.fields (s.nameOf id)))
        (.failed id reason) := by
      rw [fields_missing hmissing]
      exact represents_failureWrite_nil id reason now
    exact hwritten

/-- A request that notes a failure may get lost before the server sees it. -/
def DropsFailure (s : RecordStore) (f : Faults) (id : JobId) (reason : String) : Prop :=
  ∃ now r, r.write? s.config = some (s.nameOf id, failureWrite reason now) ∧ f.drops r

/-- The failure of a job without a record was noted, in a new record; or that got lost. -/
def Notes (s : RecordStore) (f : Faults) (x : DocumentServer) (id : JobId) (reason : String)
    (y : DocumentServer) : Prop :=
  s.Gained x (.failed id reason) y ∨ y = x ∧ s.DropsFailure f id reason

theorem Notes.gained {reason : String} (h : s.Notes .none x id reason y) :
    s.Gained x (.failed id reason) y :=
  h.resolve_right fun ⟨_, _, _, _, hdrops⟩ => hdrops

/-- A failure is noted whether the record is there or not. -/
theorem assures_markFailed_missing (hmissing : x.document (s.nameOf id) = none) (reason : String) :
    (s.markFailed id reason).Alone (ClientCall.Answered s.config f)
      (fun _ y => s.Notes f x id reason y) x := by
  -- a try whose answer was lost has created the record, and the next one writes the same again
  have hwritten : ∀ {y} now time, y = x ∨ s.Gained x (.failed id reason) y →
      s.Gained x (.failed id reason) (y.write (s.nameOf id) (failureWrite reason now) time) := by
    rintro y now time (rfl | h)
    · exact gained_failureWrite hmissing reason now time
    · exact h.failureWrite reason now time
  refine assures_markFailed (I := fun y => y = x ∨ s.Gained x (.failed id reason) y) among_nobody
    (stable_nobody _) (fun _ => stable_nobody _) (fun now r hr => ⟨hr, ?_, ?_, ?_, ?_⟩) (.inl rfl)
  · intro y hy
    refine .inr (DocumentRequest.exists_served hr fun time => ?_)
    obtain ⟨d, hd⟩ := (hwritten now time hy).kept
    cases document_write.symm.trans hd.document
    exact hd.readable
  · rintro y time hy - -
    have h := hwritten now time hy
    exact ⟨trivial, fun _ => .inl h, fun _ => ⟨.inr h, fun _ => .inl h⟩⟩
  · rintro y e hy hrefused -
    exact (hrefused (admitted_of_none rfl _)).elim
  · rintro y e (rfl | h) (hdrops | ⟨-, hrefused⟩)
    · exact .inr ⟨rfl, now, r, hr, hdrops⟩
    · exact (hrefused (admitted_of_none rfl _)).elim
    · exact .inl h
    · exact (hrefused (admitted_of_none rfl _)).elim

theorem assures_answer_markFailed (hmissing : x.document (s.nameOf id) = none) (reason : String) :
    (s.answer (.markFailed id reason)).Alone (ClientCall.Answered s.config f)
      (fun _ y => s.Notes f x id reason y) x :=
  assures_forWorker.mpr (assures_markFailed_missing hmissing reason)

theorem assures_setStatus_missing (hmissing : x.document (s.nameOf id) = none) (status : JobStatus)
    (video : Option String) :
    (s.setStatus id status video).Alone (ClientCall.Answered s.config .none)
      (fun _ y => y.document (s.nameOf id) ≠ none) x := by
  have hwritten : Performs s .none Eq (fun _ _ => True) id (statusWrite status video)
      (fun y => y = x) _ :=
    performs_alone (fun _ r _ => Faults.not_disturbs_none r) (fun _ => admitted_of_none rfl _)
      fun now time => readable_written (readable_missing hmissing)
        (fun _ hfields => readable_statusWrite hfields status video now) time
  refine (assures_setStatus among_nobody (stable_nobody _) (fun _ => stable_nobody _) hwritten
    rfl).weaken ?_
  rintro result y ⟨-, now, time, rfl⟩
  simp [document_write]

/-- Where nothing gets lost, a call that upserts creates the record. -/
theorem assures_answer_upserts {c : StoreCall} (hmissing : x.document (s.nameOf c.jobId) = none)
    (hc : c.Upserts) :
    (s.answer c).Alone (ClientCall.Answered s.config .none)
      (fun _ y => y.document (s.nameOf c.jobId) ≠ none) x := by
  cases c with
  | setStatus id status video =>
      exact assures_forWorker.mpr (assures_setStatus_missing hmissing status video)
  | markFailed id reason =>
      refine (assures_answer_markFailed hmissing reason).weaken fun a y hy hnone => ?_
      obtain ⟨d, hd⟩ := hy.gained.kept
      exact nomatch hnone.symm.trans hd.document
  | _ => exact hc.elim

/-- Calls about a record that is not there create none, whatever happens on the way, exactly if they
do not upsert. -/
theorem creates_none_iff {c : StoreCall} (hmissing : x.document (s.nameOf c.jobId) = none) :
    (∀ a y, (s.answer c).Yields (ClientCall.Answered s.config f) x a y →
      y.document (s.nameOf c.jobId) = none) ↔ ¬ c.Upserts := by
  refine ⟨fun hnone hc => ?_, fun hc a y h => ?_⟩
  · obtain ⟨a, y, hyields, hthere⟩ := (assures_answer_upserts hmissing hc).exists_yields
    exact hthere (hnone a y (hyields.mono ClientCall.Answered.of_none))
  · rw [(assures_answer_missing hmissing hc).of_yields h]
    exact hmissing

end RecordStore

end Slideshow
