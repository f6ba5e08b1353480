import Slideshow.Proofs.Store.Asking

/-! # Taking over a join

Many batches may try to take over the join of a job at once, while others write to its record, and
the server may apply a request whose answer gets lost. A record that is no longer open never changes
hands: a claim writes only if the record is as it was when it was read open. -/

namespace Slideshow

/-! ## Status and joiner of a stored record -/

namespace Fields

def status? (fields : Fields) : Option JobStatus :=
  (fields.lookup "status" >>= StoreValue.string?) >>= JobStatus.ofText?

def joiner? (fields : Fields) : Option ℕ := fields.lookup "joiner" >>= StoreValue.word?

end Fields

theorem Document.field?_eq (d : Document) (name : String) :
    d.field? name = (d.fields.getD []).lookup name := by
  cases hd : d.fields <;> simp [field?, hd]

theorem JobRecord.of_ofDocument {id : JobId} {now : Timestamp} {d : Document} {r : JobRecord}
    (h : JobRecord.ofDocument id now d = .ok r) :
    Fields.status? (d.fields.getD []) = some r.status ∧
      Fields.joiner? (d.fields.getD []) = r.joiner := by
  simp only [ofDocument, Document.field?_eq] at h
  split at h
  · cases h
  · rename_i status hstatus
    cases h
    exact ⟨hstatus, rfl⟩

/-- A document with a status is a record. -/
theorem JobRecord.exists_ofDocument {d : Document} {status : JobStatus}
    (h : Fields.status? (d.fields.getD []) = some status) (id : JobId) (now : Timestamp) :
    ∃ r, JobRecord.ofDocument id now d = .ok r := by
  rw [Fields.status?] at h
  simp only [ofDocument, Document.field?_eq, h]
  exact ⟨_, rfl⟩

namespace DocumentServer

variable {x y z : DocumentServer} {name : String} {w : DocumentWrite} {time : String}

/-- The status in the record with a name. -/
def status? (x : DocumentServer) (name : String) : Option JobStatus := (x.fields name).status?

/-- Who joins, by the record with a name. -/
def joiner? (x : DocumentServer) (name : String) : Option ℕ := (x.fields name).joiner?

theorem fields_of_document {d : Document} (h : x.document name = some d) :
    x.fields name = d.fields.getD [] := by
  simp [fields, h]

@[simp] theorem document_write :
    (x.write name w time).document name = some (x.written name w time) := by
  simp [write]

@[simp] theorem fields_write : (x.write name w time).fields name = w.apply (x.fields name) := by
  simp [fields, written]

/-! ## How a record may change -/

/-- The document is there, and the time of its last write was given by the server. -/
def Dated (x : DocumentServer) (name : String) : Prop :=
  ∃ d v, x.document name = some d ∧ d.updateTime = some v ∧ v ∈ x.times

/-- No time is given twice, so that a document with the same time is the same; and a record that is
not open never is again, nor gets another joiner. -/
structure Evolves (name : String) (x y : DocumentServer) : Prop where
  times : x.times ⊆ y.times
  version : ∀ d, x.document name = some d → y.document name = some d ∨
    ∃ d' v, y.document name = some d' ∧ d'.updateTime = some v ∧ v ∉ x.times ∧ v ∈ y.times
  closed : x.status? name ≠ some .processing →
    y.status? name ≠ some .processing ∧ y.joiner? name = x.joiner? name

namespace Evolves

theorem refl (name : String) (x : DocumentServer) : Evolves name x x :=
  ⟨List.Subset.refl _, fun _ h => .inl h, fun h => ⟨h, rfl⟩⟩

theorem trans (h : Evolves name x y) (h' : Evolves name y z) : Evolves name x z where
  times := List.Subset.trans h.times h'.times
  version d hd := by
    rcases h.version d hd with hy | ⟨d', v, hy, hv, hnew, hgiven⟩
    · rcases h'.version d hy with hz | ⟨d'', v, hz, hv, hnew, hgiven⟩
      · exact .inl hz
      · exact .inr ⟨d'', v, hz, hv, fun hold => hnew (h.times hold), hgiven⟩
    · rcases h'.version d' hy with hz | ⟨d'', v', hz, hv', hnew', hgiven'⟩
      · exact .inr ⟨d', v, hz, hv, hnew, h'.times hgiven⟩
      · exact .inr ⟨d'', v', hz, hv', fun hold => hnew' (h.times hold), hgiven'⟩
  closed hx := by
    obtain ⟨hy, hjoiner⟩ := h.closed hx
    obtain ⟨hz, hjoiner'⟩ := h'.closed hy
    exact ⟨hz, hjoiner'.trans hjoiner⟩

theorem dated (h : Evolves name x y) (hx : x.Dated name) : y.Dated name := by
  obtain ⟨d, v, hd, hv, hgiven⟩ := hx
  rcases h.version d hd with hy | ⟨d', v', hy, hv', -, hgiven'⟩
  · exact ⟨d, v, hy, hv, h.times hgiven⟩
  · exact ⟨d', v', hy, hv', hgiven'⟩

/-- A document with the time of an earlier one is that document. -/
theorem document_eq (h : Evolves name x y) {d d' : Document} {v : String}
    (hd : x.document name = some d) (hv : v ∈ x.times) (hd' : y.document name = some d')
    (hv' : d'.updateTime = some v) : d' = d := by
  rcases h.version d hd with hy | ⟨d'', v'', hy, hv'', hnew, -⟩
  · exact Option.some.inj (hd'.symm.trans hy)
  · cases hd'.symm.trans hy
    cases hv'.symm.trans hv''
    exact (hnew hv).elim

/-- A write at a new time, which does not open the record again nor give it another joiner. -/
theorem of_write (htime : time ∉ x.times)
    (hclosed : (x.fields name).status? ≠ some .processing →
      (w.apply (x.fields name)).status? ≠ some .processing ∧
        (w.apply (x.fields name)).joiner? = (x.fields name).joiner?) :
    Evolves name x (x.write name w time) where
  times := List.subset_cons_self _ _
  version _ _ := .inr ⟨_, time, document_write, rfl, htime, List.mem_cons_self⟩
  closed h := by
    simp only [status?, joiner?, fields_write] at h ⊢
    exact hclosed h

end Evolves

/-- A record that is not open any more and is joined by a batch. -/
def Owned (name : String) (batch : ℕ) (x : DocumentServer) : Prop :=
  x.status? name ≠ some .processing ∧ x.joiner? name = some batch

theorem Owned.later {batch : ℕ} (h : Owned name batch x) (hxy : Evolves name x y) :
    Owned name batch y := by
  obtain ⟨hopen, hjoiner⟩ := h
  obtain ⟨hopen', hjoiner'⟩ := hxy.closed hopen
  exact ⟨hopen', hjoiner'.trans hjoiner⟩

end DocumentServer

/-! ## What the calls do to status and joiner -/

/-- The calls that may be made while batches contend for the join of a job: batches have 32-bit
numbers, and the only status that is set is that of a finished job. -/
def StoreCall.Contends (id : JobId) : StoreCall → Prop
  | .claimJoin id' batch => id' = id ∧ batch < UInt32.size
  | .setStatus id' status _ => id' = id ∧ status = .processed
  | c => c.jobId = id

namespace RecordStore

open StoreClient DocumentServer

variable {fields : Fields}

/-- A write that leaves the joiner of a record that is not open, and does not open it. -/
def KeepsClosed (w : DocumentWrite) : Prop :=
  ∀ fields : Fields, fields.status? ≠ some .processing →
    Fields.status? (w.apply fields) ≠ some .processing ∧
      Fields.joiner? (w.apply fields) = fields.joiner?

theorem keepsClosed_countWrite (count : ℕ) (now : Timestamp) :
    KeepsClosed (countWrite count now) := by
  intro fields h
  simpa [Fields.status?, Fields.joiner?, apply_countWrite, Json.lookup_insertSorted] using h

theorem keepsClosed_outputWrite (s : RecordStore) (id : JobId) (output : BatchOutput)
    (now : Timestamp) : KeepsClosed (s.outputWrite id output now) := by
  intro fields h
  simpa [Fields.status?, Fields.joiner?, apply_outputWrite, Json.lookup_insertSorted] using h

theorem keepsClosed_failureWrite (reason : String) (now : Timestamp) :
    KeepsClosed (failureWrite reason now) := by
  intro fields h
  simp [Fields.status?, Fields.joiner?, lookup_failureWrite, StoreValue.string?,
    JobStatus.ofText?_text]

theorem keepsClosed_statusWrite {status : JobStatus} (hstatus : status ≠ .processing)
    (video : Option String) (now : Timestamp) : KeepsClosed (statusWrite status video now) := by
  intro fields h
  simp [Fields.status?, Fields.joiner?, lookup_statusWrite, StoreValue.string?,
    JobStatus.ofText?_text, hstatus]

theorem status?_claimWrite (batch : ℕ) (version : String) (now : Timestamp) :
    Fields.status? ((claimWrite batch version now).apply fields) = some .joining := by
  simp [Fields.status?, lookup_claimWrite, StoreValue.string?, JobStatus.ofText?_text]

theorem joiner?_claimWrite {batch : ℕ} (h : batch < UInt32.size) (version : String)
    (now : Timestamp) :
    Fields.joiner? ((claimWrite batch version now).apply fields) = some batch := by
  simp [Fields.joiner?, lookup_claimWrite, StoreValue.word?_ofNat h]

/-! ## Where answers get lost -/

variable {s : RecordStore} {id : JobId} {x y : DocumentServer}

theorem among_evolves (name : String) : Among (Evolves name) (Evolves name) where
  refl := Evolves.refl name
  trans := Evolves.trans
  idle := Evolves.refl name

theorem stable_evolves (name : String) (x : DocumentServer) :
    Stable (Evolves name) (Evolves name x) :=
  fun _ _ hyz hy => hy.trans hyz

theorem writes_keepsClosed {r : DocumentRequest} {w : DocumentWrite} {refusal : StoreError → Prop}
    (hw : KeepsClosed w) (hr : r.write? s.config = some (s.nameOf id, w)) :
    Writes s.config .any (Evolves (s.nameOf id)) (Evolves (s.nameOf id)) r (s.nameOf id) w refusal
      (fun _ => True) (fun (_ : Except StoreError Unit) _ => True) where
  write := hr
  answered _ _ := .inl trivial
  written _ _ _ _ htime :=
    ⟨.of_write htime (hw _), fun _ => trivial, fun _ => ⟨trivial, fun _ => trivial⟩⟩
  refused _ _ _ _ _ := trivial
  lost _ _ _ _ := trivial

/-- At some time between two states the record was as it is stored. -/
def LoadedBetween (s : RecordStore) (id : JobId) (x : DocumentServer) (stored : StoredRecord)
    (z : DocumentServer) : Prop :=
  ∃ y d, Evolves (s.nameOf id) x y ∧ Evolves (s.nameOf id) y z ∧
    y.document (s.nameOf id) = some d ∧ stored.version = d.updateTime ∧
    y.status? (s.nameOf id) = some stored.record.status ∧
    y.joiner? (s.nameOf id) = stored.record.joiner

/-- Whatever is loaded was the record at some time. -/
theorem assures_load_any (x : DocumentServer) :
    (s.load id).Assures (ClientCall.Answered s.config .any) (Evolves (s.nameOf id))
      (Evolves (s.nameOf id)) (fun result z => ∀ stored, result = .ok (some stored) →
        LoadedBetween s id x stored z) x := by
  refine assures_load (I := Evolves (s.nameOf id) x) (among_evolves _) (stable_evolves _ x)
    ?_ ?_ ?_ ?_
    (Evolves.refl _ x)
  · intro result y z hyz hy stored hstored
    obtain ⟨y', d, hx, hy', hd⟩ := hy stored hstored
    exact ⟨y', d, hx, hy'.trans hyz, hd⟩
  · exact fun _ _ => .inl trivial
  · intro y now hy stored hstored
    cases hd : y.document (s.nameOf id) with
    | none =>
        rw [hd] at hstored
        cases hstored
    | some d =>
        rw [hd] at hstored
        cases hr : JobRecord.ofDocument id now d with
        | error e => simp [loaded, hr, Except.map] at hstored
        | ok r =>
            simp only [loaded, hr, Except.map, Except.ok.injEq, Option.some.injEq] at hstored
            subst hstored
            obtain ⟨hstatus, hjoiner⟩ := JobRecord.of_ofDocument hr
            rw [← fields_of_document hd] at hstatus hjoiner
            exact ⟨y, d, hy, .refl _ y, hd, rfl, hstatus, hjoiner⟩
  · exact fun y e _ _ stored hstored => nomatch hstored

/-- A write for a version of a document finds that very document, if it happens at all. -/
theorem document_of_claimWrite {name : String} {d : Document} {v : String} {batch : ℕ}
    {now : Timestamp} (hxy : Evolves name x y) (hd : x.document name = some d)
    (hv : v ∈ x.times) (hadmitted : (claimWrite batch v now).Admitted (y.document name)) :
    y.document name = some d := by
  obtain ⟨d', hd', hv'⟩ := (hadmitted _ rfl).2 v rfl
  rw [hd', hxy.document_eq hd hv hd' hv']

/-- A write for the version in which a record was open hands it over, if it happens at all. -/
theorem writes_claim_any {batch : ℕ} (hbatch : batch < UInt32.size) {d : Document} {v : String}
    (hd : x.document (s.nameOf id) = some d) (hv : v ∈ x.times)
    (hopen : x.status? (s.nameOf id) = some .processing) (hxy : Evolves (s.nameOf id) x y)
    (now : Timestamp) :
    Writes s.config .any (Evolves (s.nameOf id)) (Evolves (s.nameOf id))
      (.patch s.config.jobs id
        ([("status", .string JobStatus.joining.text), ("joiner", .ofNat batch)] ++
          [("updated_at", .ofTimestamp now)]) (["status", "joiner"] ++ ["updated_at"])
        (some { updateTime := some v }))
      (s.nameOf id) (claimWrite batch v now) (fun e => e.isPreconditionFailed = true)
      (Evolves (s.nameOf id) y) (fun (result : Except StoreError Unit) z =>
        Evolves (s.nameOf id) y z ∧ (result = .ok () → Owned (s.nameOf id) batch z)) where
  write := rfl
  answered _ _ := .inl trivial
  written z time hz hadmitted htime := by
    have hd' := document_of_claimWrite (hxy.trans hz) hd hv hadmitted
    have hfields : z.fields (s.nameOf id) = x.fields (s.nameOf id) := by
      rw [fields_of_document hd', fields_of_document hd]
    have hwrite : Evolves (s.nameOf id) z (z.write (s.nameOf id) (claimWrite batch v now) time) := by
      refine .of_write htime fun hclosed => (hclosed ?_).elim
      rw [hfields]
      exact hopen
    refine ⟨hwrite, fun _ => ⟨hz.trans hwrite, fun _ => ?_⟩,
      fun _ => ⟨hz.trans hwrite, fun e => ⟨hz.trans hwrite, fun h => nomatch h⟩⟩⟩
    rw [Owned, status?, joiner?, fields_write, status?_claimWrite, joiner?_claimWrite hbatch]
    exact ⟨fun h => (nomatch h), rfl⟩
  refused z e hz _ _ := ⟨hz, fun h => nomatch h⟩
  lost z e hz _ := ⟨hz, fun h => nomatch h⟩

/-- What a claim does with a record that was loaded at some time. -/
theorem assures_goOn_any {batch left : ℕ} (hbatch : batch < UInt32.size)
    (hx : x.Dated (s.nameOf id))
    (hclaim : ∀ {z}, z.Dated (s.nameOf id) →
      (s.claim id batch left).Assures (ClientCall.Answered s.config .any) (Evolves (s.nameOf id))
        (Evolves (s.nameOf id)) (fun result z => result = .ok true → Owned (s.nameOf id) batch z) z)
    {stored : StoredRecord} {z : DocumentServer} (h : LoadedBetween s id x stored z) :
    (s.goOn id batch left (.ok (some stored))).Assures (ClientCall.Answered s.config .any)
      (Evolves (s.nameOf id)) (Evolves (s.nameOf id))
      (fun result z => result = .ok true → Owned (s.nameOf id) batch z) z := by
  obtain ⟨y, d, hxy, hyz, hd, hversion, hstatus, hjoiner⟩ := h
  rw [goOn]
  by_cases howned : stored.record.joinOwnedBy batch = true
  · rw [if_pos howned]
    simp only [JobRecord.joinOwnedBy, Bool.and_eq_true, beq_iff_eq] at howned
    have hy : Owned (s.nameOf id) batch y := by
      rw [Owned, hstatus, hjoiner, howned.1, howned.2]
      exact ⟨fun h => (nomatch h), rfl⟩
    exact fun _ => hy.later hyz
  rw [if_neg howned]
  by_cases hopen : stored.record.status = .processing
  · rw [if_neg (not_not_intro hopen)]
    rw [hopen] at hstatus
    obtain ⟨d', v, hd', hv, hgiven⟩ := hxy.dated hx
    cases hd.symm.trans hd'
    rw [hversion, hv]
    -- the write asks for the version of the document that was loaded, which is never given again
    refine assures_takeOver (among_evolves _) (stable_evolves _ z) ?_
      (writes_claim_any hbatch hd hgiven hstatus hyz) ?_ ?_ ?_ (.refl _ z)
    · exact fun result y z hyz hy => ⟨hy.1.trans hyz, fun h => (hy.2 h).later hyz⟩
    · exact fun z' hz' _ => hz'.2 rfl
    · exact fun e z' hz' _ => hclaim ((hxy.trans (hyz.trans hz'.1)).dated hx)
    · exact fun e z' _ _ h => nomatch h
  · rw [if_pos hopen]
    exact fun h => nomatch h

/-- A batch that is told to join is the one that joins, also if answers get lost. The induction is
on the tries that are left; a try that fails leaves a record that may be read again. -/
theorem assures_claim_any {batch : ℕ} (hbatch : batch < UInt32.size) (left : ℕ)
    (hx : x.Dated (s.nameOf id)) :
    (s.claim id batch left).Assures (ClientCall.Answered s.config .any) (Evolves (s.nameOf id))
      (Evolves (s.nameOf id)) (fun result z => result = .ok true → Owned (s.nameOf id) batch z)
      x := by
  induction left generalizing x with
  | zero => exact fun h => nomatch h
  | succ left ih =>
      rw [claim_succ, Program.assures_bind]
      refine (assures_load_any x).weaken fun result z hz => ?_
      cases result with
      | error e => exact fun h => nomatch h
      | ok found =>
          cases found with
          | none => exact fun h => nomatch h
          | some stored => exact assures_goOn_any hbatch hx ih (hz stored rfl)

/-- A call together with its answer. -/
def perform (s : RecordStore) (c : StoreCall) : Asking (Σ c : StoreCall, c.Answer) := do
  return ⟨c, ← s.answer c⟩

theorem assures_answer_any {c : StoreCall} (hc : c.Contends id)
    (hclaim : ∀ id batch, c ≠ .claimJoin id batch) :
    (s.answer c).Assures (ClientCall.Answered s.config .any) (Evolves (s.nameOf id))
      (Evolves (s.nameOf id)) (fun _ _ => True) x := by
  have ha := among_evolves (s.nameOf id)
  have hI : Stable (Evolves (s.nameOf id)) fun _ => True := fun _ _ _ _ => trivial
  cases c with
  | claimJoin id' batch => exact (hclaim id' batch rfl).elim
  | load id' =>
      obtain rfl : id' = id := hc
      refine assures_forWorker.mpr ((Program.assures_bind _ _).mpr ?_)
      exact (assures_load_any x).weaken fun _ _ _ => trivial
  | setBatchCount id' count =>
      obtain rfl : id' = id := hc
      exact assures_forWorker.mpr (assures_setBatchCount ha hI (fun _ => hI)
        (fun now _ => writes_keepsClosed (keepsClosed_countWrite count now)) trivial)
  | setStatus id' status video =>
      obtain ⟨rfl, rfl⟩ := hc
      exact assures_forWorker.mpr (assures_setStatus ha hI (fun _ => hI)
        (fun now _ => writes_keepsClosed (keepsClosed_statusWrite (by decide) video now)) trivial)
  | appendOutput id' output =>
      obtain rfl : id' = id := hc
      exact assures_forWorker.mpr (assures_appendOutput ha hI (fun _ => hI)
        (fun now _ => writes_keepsClosed (keepsClosed_outputWrite s id' output now)) trivial)
  | markFailed id' reason =>
      obtain rfl : id' = id := hc
      exact assures_forWorker.mpr (assures_markFailed ha hI (fun _ => hI)
        (fun now _ => writes_keepsClosed (keepsClosed_failureWrite reason now)) trivial)

/-- The calls of a contest share a record that evolves; who was told to join owns the join. -/
def contention (s : RecordStore) (id : JobId) :
    Sharing s.perform (ClientCall.Answered s.config .any) where
  Evolves := Evolves (s.nameOf id)
  refl := .refl _
  trans := .trans
  own _ := Evolves (s.nameOf id)
  evolves_of_own h := h
  ends _ r x := ∀ batch, r = ⟨.claimJoin id batch, .ok true⟩ → Owned (s.nameOf id) batch x
  ends_later h hxy batch hr := (h batch hr).later hxy

theorem contention_starts {c : StoreCall} (hc : c.Contends id) (hx : x.Dated (s.nameOf id)) :
    (contention s id).Starts c x := by
  rw [Sharing.Starts, perform, Program.assures_bind]
  by_cases hclaim : ∃ id batch, c = .claimJoin id batch
  · obtain ⟨id, batch, rfl⟩ := hclaim
    obtain ⟨rfl, hbatch⟩ := hc
    refine assures_forWorker.mpr ((assures_claim_any hbatch _ hx).weaken ?_)
    rintro result z hz batch' hresult
    cases result with
    | error e => cases hresult
    | ok yes =>
        cases hresult
        exact hz rfl
  · refine (assures_answer_any hc fun id batch h => hclaim ⟨id, batch, h⟩).weaken ?_
    rintro a z - batch hresult
    cases hresult
    exact (hclaim ⟨id, batch, rfl⟩).elim

end RecordStore

end Slideshow
