import Slideshow.Proofs.Store.Representation

/-! # The record store keeps what the ledger keeps

Where no request fails and nobody else writes, a record in the document store and the same record in
the ledger are told apart by their times only: every sequence of calls has the same answers. -/

namespace Slideshow

/-! ## Answers without times -/

/-- An answer without the times of the record that was loaded. -/
def StoreCall.untimed : (c : StoreCall) → c.Answer → c.Answer
  | .load _, a => a.map fun found => found.map JobRecord.untimed
  | .setBatchCount _ _, a | .setStatus _ _ _, a | .appendOutput _ _, a | .claimJoin _ _, a
  | .markFailed _ _, a => a

/-- A call with its answer, without times. -/
def StoreCall.told (a : Σ c : StoreCall, c.Answer) : Σ c : StoreCall, c.Answer :=
  ⟨a.1, a.1.untimed a.2⟩

/-- The batches of a call have 32-bit numbers. -/
def StoreCall.Fits : StoreCall → Prop
  | .setBatchCount _ count => count < UInt32.size
  | .appendOutput _ output => output.batch < UInt32.size
  | .claimJoin _ batch => batch < UInt32.size
  | .load _ | .setStatus _ _ _ | .markFailed _ _ => True

namespace Ledger

/-- Calls after one another, with their answers. -/
def performAll (calls : List StoreCall) : StateM Ledger (List (Σ c : StoreCall, c.Answer)) :=
  calls.mapM fun c => return ⟨c, ← Ledger.answer c⟩

theorem performAll_cons {c : StoreCall} {rest : List StoreCall} {l l' : Ledger} {a : c.Answer}
    (h : Ledger.answer c l = (a, l')) :
    performAll (c :: rest) l = (⟨c, a⟩ :: (performAll rest l').1, (performAll rest l').2) := by
  rw [performAll, List.mapM_cons]
  simp only [bind, StateT.bind, h]
  rfl

end Ledger

namespace RecordStore

open StoreClient DocumentServer
open DocumentRequest (createWrite)

/-- The document of a job holds a record. -/
structure Keeps (s : RecordStore) (x : DocumentServer) (r : JobRecord) (d : Document) : Prop where
  document : x.document (s.nameOf r.id) = some d
  version : d.updateTime.isSome = true
  readable : d.Readable
  represents : Fields.Represents (d.fields.getD []) r

variable {s : RecordStore} {x : DocumentServer} {r : JobRecord} {d : Document}

namespace Keeps

theorem readable_document (h : s.Keeps x r d) :
    ∀ d', x.document (s.nameOf r.id) = some d' → d'.Readable := by
  intro d' hd'
  cases h.document.symm.trans hd'
  exact h.readable

theorem fields_eq (h : s.Keeps x r d) : x.fields (s.nameOf r.id) = d.fields.getD [] :=
  fields_of_document h.document

/-- A record that has just been created is kept. -/
theorem created (hr : r.Fits) (x : DocumentServer) (time : String) :
    s.Keeps (x.write (s.nameOf r.id) (createWrite r.toFields) time) r
      (x.written (s.nameOf r.id) (createWrite r.toFields) time) where
  document := document_write
  version := rfl
  readable := by
    rintro _ ⟨⟩
    exact readable_createWrite r
  represents := by
    have hwritten : Fields.Represents
        ((createWrite r.toFields).apply (x.fields (s.nameOf r.id))) r := represents_createWrite hr
    exact hwritten

/-- A write that goes with a change of the record. -/
theorem write {r' : JobRecord} {w : DocumentWrite} (h : s.Keeps x r d) (hid : r'.id = r.id)
    (hrepresents : Fields.Represents (w.apply (d.fields.getD [])) r')
    (hreadable : ∀ fields : Fields, fields.Readable Json.maxDepth →
      (w.apply fields).Readable Json.maxDepth) (time : String) :
    ∃ d', s.Keeps (x.write (s.nameOf r.id) w time) r' d' := by
  refine ⟨x.written (s.nameOf r.id) w time, ?_, rfl,
    readable_written h.readable_document hreadable _, ?_⟩
  · rw [hid, document_write]
  · rw [← h.fields_eq] at hrepresents
    exact hrepresents

/-- Where nothing fails, a write that goes with a change of the record is made. -/
theorem performs {r' : JobRecord} {w : Timestamp → DocumentWrite} (h : s.Keeps x r d)
    (hw : ∀ now, (w now).Admitted (some d))
    (hrepresents : ∀ now, Fields.Represents ((w now).apply (d.fields.getD [])) r')
    (hreadable : ∀ now (fields : Fields), fields.Readable Json.maxDepth →
      ((w now).apply fields).Readable Json.maxDepth) (hid : r'.id = r.id) :
    Performs s .none Eq (fun _ _ => True) r.id w (fun y => y = x)
      (fun result z => result = .ok () ∧ ∃ d', s.Keeps z r' d') := by
  intro now q hq
  have hperforms := performs_alone (f := .none) (w := w) (fun _ _ _ h => h.elim id id)
    (fun now => h.document ▸ hw now)
    fun now => readable_written h.readable_document (hreadable now)
  refine (hperforms now q hq).weaken ?_
  rintro result z ⟨hresult, now, time, rfl⟩
  exact ⟨hresult, h.write hid (hrepresents now) (hreadable now) time⟩

end Keeps

theorem admitted_exists? {w : DocumentWrite} (hw : w.precondition = some .exists?) (d : Document) :
    w.Admitted (some d) := by
  intro p hp
  cases hw.symm.trans hp
  exact ⟨fun b hb => (by cases hb; rfl), fun t ht => nomatch ht⟩

theorem admitted_of_none {w : DocumentWrite} (hw : w.precondition = none) (found : Option Document) :
    w.Admitted found := by
  intro p hp
  cases hw.symm.trans hp

/-- The record is loaded as it is kept. -/
theorem assures_load_alone (h : s.Keeps x r d) :
    (s.load r.id).Alone (ClientCall.Answered s.config .none)
      (fun result z => z = x ∧ ∃ stored, result = .ok (some stored) ∧
        stored.version = d.updateTime ∧ stored.record.untimed = r.untimed) x := by
  refine assures_load (I := fun y => y = x) among_nobody (stable_nobody _) (fun _ => stable_nobody _)
    ?_ ?_ (fun _ _ _ h => (h.elim id id).elim) rfl
  · rintro _ rfl
    exact .inr (DocumentRequest.exists_served_get h.readable_document)
  · rintro _ now rfl
    obtain ⟨r', hr', huntimed⟩ := h.represents.ofDocument now
    refine ⟨rfl, ⟨r', d.updateTime⟩, ?_, rfl, huntimed⟩
    have hd : _ = some d := h.document
    rw [hd, loaded, hr']
    rfl

/-- The version in which the record is kept is that of its document, so it is taken over. -/
theorem assures_takeOver_alone {batch : ℕ} (hbatch : batch < UInt32.size) (h : s.Keeps x r d)
    {version : String} (hversion : d.updateTime = some version) (left : ℕ) :
    (s.takeOver r.id batch left version).Alone (ClientCall.Answered s.config .none)
      (fun result z => result = .ok true ∧ ∃ d', s.Keeps z (r.withJoiner batch) d') x := by
  have hadmitted : ∀ now, (claimWrite batch version now).Admitted (some d) := by
    rintro now _ ⟨⟩
    refine ⟨fun _ h => (nomatch h), ?_⟩
    rintro t ⟨⟩
    exact ⟨d, rfl, hversion⟩
  refine assures_takeOver among_nobody (stable_nobody _) (fun _ => stable_nobody _)
    (fun now => h.performs hadmitted (represents_claimWrite h.represents hbatch version)
      (fun now _ hfields => readable_claimWrite hfields batch version now) rfl now _ rfl) ?_ ?_ ?_ rfl
  · exact fun z hz => ⟨rfl, hz.2⟩
  · exact fun e z hz _ => nomatch hz.1
  · exact fun e z hz _ => nomatch hz.1

theorem assures_claim_alone {batch : ℕ} (hbatch : batch < UInt32.size) (h : s.Keeps x r d)
    (left : ℕ) :
    (s.claim r.id batch (left + 1)).Alone (ClientCall.Answered s.config .none)
      (fun result z => result = .ok ((StoreCall.claimJoin r.id batch).reply r) ∧
        ∃ d', s.Keeps z ((StoreCall.claimJoin r.id batch).change r) d') x := by
  rw [claim_succ, Program.Alone, Program.assures_bind]
  refine (assures_load_alone h).weaken ?_
  rintro _ z ⟨rfl, stored, rfl, hversion, huntimed⟩
  have hstatus : stored.record.untimed.status = r.untimed.status := by rw [huntimed]
  have hjoiner : stored.record.untimed.joiner = r.untimed.joiner := by rw [huntimed]
  simp only [JobRecord.untimed] at hstatus hjoiner
  have howned : stored.record.joinOwnedBy batch = r.joinOwnedBy batch := by
    rw [JobRecord.joinOwnedBy, hstatus, hjoiner, JobRecord.joinOwnedBy]
  rw [goOn, howned, hstatus, hversion]
  by_cases hopen : r.status = .processing
  · have hfree : ¬ r.joinOwnedBy batch = true := by simp [JobRecord.joinOwnedBy, hopen]
    have hchange : (StoreCall.claimJoin r.id batch).change r = r.withJoiner batch := if_pos hopen
    obtain ⟨v, hv⟩ := Option.isSome_iff_exists.mp h.version
    rw [if_neg hfree, if_neg (not_not_intro hopen), hv, hchange, StoreCall.reply_claimJoin _ _ hopen]
    exact assures_takeOver_alone hbatch h hv left
  · have hchange : (StoreCall.claimJoin r.id batch).change r = r := if_neg hopen
    have hreply : (StoreCall.claimJoin r.id batch).reply r = r.joinOwnedBy batch := by
      have hclosed : (r.status == .processing) = false := by simpa using hopen
      rw [StoreCall.reply, hclosed, Bool.or_false]
    rw [hchange, hreply]
    cases howner : r.joinOwnedBy batch with
    | true =>
        rw [if_pos rfl]
        exact ⟨rfl, d, h⟩
    | false =>
        rw [if_neg Bool.false_ne_true, if_pos hopen]
        exact ⟨rfl, d, h⟩

/-- What is done without a mistake is told the worker as it is. -/
theorem alone_forWorker {β : Type} {p : Asking (Except StoreError β)} {b : β}
    {ends : DocumentServer → Prop} (h : p.Alone (ClientCall.Answered s.config .none)
      (fun result z => result = .ok b ∧ ends z) x) :
    (forWorker p).Alone (ClientCall.Answered s.config .none)
      (fun result z => result = .ok b ∧ ends z) x := by
  refine assures_forWorker.mpr (h.weaken ?_)
  rintro _ z ⟨rfl, hz⟩
  exact ⟨rfl, hz⟩

/-- A call is answered as the ledger does, and does to the record what the ledger does. -/
theorem assures_answer_alone {c : StoreCall} (hc : c.jobId = r.id) (hfits : c.Fits)
    (h : s.Keeps x r d) :
    (s.answer c).Alone (ClientCall.Answered s.config .none)
      (fun a z => c.untimed a = c.untimed (.ok (c.reply r)) ∧ ∃ d', s.Keeps z (c.change r) d') x := by
  have hI := stable_nobody (fun y => y = x)
  have hQ : ∀ r' (result : Except StoreError Unit),
      Stable Eq fun z => result = .ok () ∧ ∃ d', s.Keeps z r' d' := fun _ _ => stable_nobody _
  cases c with
  | load id =>
      obtain rfl : id = r.id := hc
      refine assures_forWorker.mpr ((Program.assures_bind _ _).mpr ?_)
      refine (assures_load_alone h).weaken ?_
      rintro _ z ⟨rfl, stored, rfl, -, huntimed⟩
      exact ⟨congrArg (fun r => Except.ok (some r)) huntimed, d, h⟩
  | setBatchCount id count =>
      obtain rfl : id = r.id := hc
      exact alone_forWorker (assures_setBatchCount among_nobody hI (hQ _)
        (h.performs (fun _ => admitted_exists? rfl d)
          (represents_countWrite h.represents hfits)
          (fun now _ hfields => readable_countWrite hfields count now) rfl) rfl)
  | setStatus id status video =>
      obtain rfl : id = r.id := hc
      exact alone_forWorker (assures_setStatus among_nobody hI (hQ _)
        (h.performs (fun _ => admitted_of_none rfl (some d))
          (represents_statusWrite h.represents status video)
          (fun now _ hfields => readable_statusWrite hfields status video now) rfl) rfl)
  | appendOutput id output =>
      obtain rfl : id = r.id := hc
      exact alone_forWorker (assures_appendOutput among_nobody hI (hQ _)
        (h.performs (fun _ => admitted_exists? rfl d)
          (represents_outputWrite h.represents hfits s r.id)
          (fun now _ hfields => readable_outputWrite hfields s r.id output now) rfl) rfl)
  | claimJoin id batch =>
      obtain rfl : id = r.id := hc
      exact alone_forWorker (assures_claim_alone hfits h _)
  | markFailed id reason =>
      obtain rfl : id = r.id := hc
      exact alone_forWorker (assures_markFailed among_nobody hI (hQ _)
        (h.performs (fun _ => admitted_of_none rfl (some d))
          (represents_failureWrite h.represents reason)
          (fun now _ hfields => readable_failureWrite hfields reason now) rfl) rfl)

/-! ## Sequences of calls -/

/-- Calls after one another, with their answers. -/
def performAll (s : RecordStore) (calls : List StoreCall) :
    Asking (List (Σ c : StoreCall, c.Answer)) :=
  calls.mapM s.perform

theorem assures_performAll_alone {l : Ledger} (hl : l.get? r.id = some r) {calls : List StoreCall}
    (hcalls : ∀ c ∈ calls, c.jobId = r.id ∧ c.Fits) (h : s.Keeps x r d) :
    (s.performAll calls).Alone (ClientCall.Answered s.config .none)
      (fun answers z =>
        answers.map StoreCall.told = (Ledger.performAll calls l).1.map StoreCall.told ∧
        ∃ r' d', (Ledger.performAll calls l).2.get? r.id = some r' ∧ r'.id = r.id ∧
          s.Keeps z r' d') x := by
  induction calls generalizing x r d l with
  | nil => exact ⟨rfl, r, d, hl, rfl, h⟩
  | cons c rest ih =>
      obtain ⟨hc, hfits⟩ := hcalls c List.mem_cons_self
      obtain ⟨l', hanswer, hl', -⟩ := Ledger.answer_of_get? (c := c) (hc ▸ hl)
      rw [hc, ← StoreCall.id_change c r] at hl'
      rw [Ledger.performAll_cons hanswer, performAll, List.mapM_cons, Program.Alone,
        Program.assures_bind, perform, Program.assures_bind]
      refine (assures_answer_alone hc hfits h).weaken ?_
      rintro a z ⟨ha, d', hd'⟩
      have hrest := ih hl' (fun c' hc' => by simpa using hcalls c' (List.mem_cons_of_mem _ hc')) hd'
      rw [StoreCall.id_change] at hrest
      refine (Program.assures_bind _ _).mpr (hrest.weaken ?_)
      rintro answers z' ⟨hanswers, hkept⟩
      refine ⟨?_, hkept⟩
      rw [List.map_cons, List.map_cons, hanswers]
      exact congrArg (fun b => (⟨c, b⟩ : Σ c : StoreCall, c.Answer) :: _) ha

/-- What is loaded from a document is a record, up to its times. -/
def ReadAs (s : RecordStore) (x : DocumentServer) (r : JobRecord) : Prop :=
  ∃ d, x.document (s.nameOf r.id) = some d ∧
    ∀ now, (JobRecord.ofDocument r.id now d).map JobRecord.untimed = .ok r.untimed

theorem Keeps.readAs (h : s.Keeps x r d) : s.ReadAs x r := by
  refine ⟨d, h.document, fun now => ?_⟩
  obtain ⟨r', hr', huntimed⟩ := h.represents.ofDocument now
  rw [hr', Except.map, huntimed]

/-- Where nothing fails, calls on a record that is kept in the store and in a ledger are answered,
their answers are the same but for times, and so is the record that can be read afterwards. -/
theorem answers_as_ledger (s : RecordStore) {x : DocumentServer} {r : JobRecord} {d : Document}
    (h : s.Keeps x r d) {l : Ledger} (hl : l.get? r.id = some r) (calls : List StoreCall)
    (hcalls : ∀ c ∈ calls, c.jobId = r.id ∧ c.Fits) :
    (∃ t y answers, System.Allowed (ClientCall.Answered s.config .none) t x y ∧
      (s.performAll calls).Leads t (.done answers)) ∧
    ∀ t y answers, System.Allowed (ClientCall.Answered s.config .none) t x y →
      (s.performAll calls).Leads t (.done answers) →
      answers.map StoreCall.told = (Ledger.performAll calls l).1.map StoreCall.told ∧
        ∃ r', (Ledger.performAll calls l).2.get? r.id = some r' ∧ s.ReadAs y r' := by
  have hassured := assures_performAll_alone hl hcalls h
  refine ⟨?_, fun t y answers ht hleads => ?_⟩
  · obtain ⟨t, y, answers, ht, hleads, -⟩ := hassured.exists_run
    exact ⟨t, y, answers, ht, hleads⟩
  · obtain ⟨hanswers, r', d', hr', -, hkept⟩ := hassured.ends_of_run ht hleads
    exact ⟨hanswers, r', hr', hkept.readAs⟩

/-- The record of a job that was just accepted. -/
theorem answers_as_ledger_fresh :
    ∃ (s : RecordStore) (x : DocumentServer) (d : Document) (l : Ledger),
      s.Keeps x (.fresh "holiday" ⟨0, 0⟩) d ∧ l.get? "holiday" = some (.fresh "holiday" ⟨0, 0⟩) ∧
      ∃ t y answers, System.Allowed (ClientCall.Answered s.config .none) t x y ∧
        (s.performAll [.appendOutput "holiday" ⟨1, "one"⟩, .claimJoin "holiday" 1]).Leads t
          (.done answers) ∧
        answers.map StoreCall.told =
          [⟨.appendOutput "holiday" ⟨1, "one"⟩, .ok ()⟩, ⟨.claimJoin "holiday" 1, .ok true⟩] := by
  have hfits : (JobRecord.fresh "holiday" ⟨0, 0⟩).Fits :=
    ⟨fun _ h => (nomatch h), by decide, fun _ h => nomatch h⟩
  have hkeeps := Keeps.created (s := jobStore) hfits ⟨fun _ => none, []⟩ "10:00"
  have hknown : (Ledger.mk [.fresh "holiday" ⟨0, 0⟩] 0).get? "holiday" =
      some (.fresh "holiday" ⟨0, 0⟩) := rfl
  obtain ⟨⟨t, y, answers, ht, hleads⟩, hagree⟩ := answers_as_ledger jobStore hkeeps hknown
    [.appendOutput "holiday" ⟨1, "one"⟩, .claimJoin "holiday" 1] fun c hc => by
      have hbatch : 1 < UInt32.size := by decide
      rcases List.mem_pair.mp hc with rfl | rfl <;> exact ⟨rfl, hbatch⟩
  exact ⟨_, _, _, _, hkeeps, hknown, t, y, answers, ht, hleads, (hagree t y answers ht hleads).1⟩

end RecordStore

end Slideshow
