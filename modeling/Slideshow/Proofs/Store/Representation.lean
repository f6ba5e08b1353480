import Slideshow.Proofs.Store.Claim
import Slideshow.Proofs.Store.Ledger

/-! # Fields that stand for a record

The fields of a document stand for a record if that is what is read back, and if the outputs are
stored as they would be written now: the store compares whole values when it appends one. Every
write of the record store goes with a change of the record. -/

namespace Slideshow

/-! ## Outputs as values -/

theorem Decimal.natText_injective : Function.Injective natText := by
  intro m n h
  have hnat := congrArg nat? h
  rwa [nat?_natText, nat?_natText, Option.some.injEq] at hnat

theorem BatchOutput.toValue_injective : Function.Injective toValue := by
  rintro ⟨batch, output⟩ ⟨batch', output'⟩ h
  simp only [toValue, StoreValue.ofNat, StoreValue.map.injEq, Option.some.injEq, List.cons.injEq,
    Prod.mk.injEq, StoreValue.integer.injEq, StoreValue.string.injEq, true_and, and_true] at h
  rw [Decimal.natText_injective h.1, h.2]

theorem BatchOutput.ofValue?_toValue {o : BatchOutput} (h : o.batch < UInt32.size) :
    ofValue? o.toValue = some o := by
  simp [ofValue?, toValue, StoreValue.field?, Json.lookup_cons_eq, StoreValue.word?_ofNat h,
    StoreValue.string?]

theorem BatchOutput.filterMap_toValue {outputs : List BatchOutput}
    (h : ∀ o ∈ outputs, o.batch < UInt32.size) :
    (outputs.map toValue).filterMap ofValue? = outputs := by
  rw [List.filterMap_map]
  have hsome : ∀ o ∈ outputs, (ofValue? ∘ toValue) o = some o := fun o ho => ofValue?_toValue (h o ho)
  rw [List.filterMap_congr hsome, List.filterMap_some]

namespace Fields

/-! ## Parts of a record -/

def text? (fields : Fields) (name : String) : Option String :=
  fields.lookup name >>= StoreValue.string?

/-- Into how many batches a job is split. -/
def batchCount (fields : Fields) : ℕ :=
  (((fields.inner "batches").lookup "count") >>= StoreValue.word?).getD 0

/-- The outputs of batches, as values. -/
def outputValues (fields : Fields) : List StoreValue :=
  (((fields.inner "batches").lookup "outputs").map StoreValue.elements).getD []

/-- The fields are those of a record. -/
structure Represents (fields : Fields) (r : JobRecord) : Prop where
  status : fields.status? = some r.status
  video : fields.text? "video" = r.video
  error : fields.text? "error" = r.error
  joiner : fields.joiner? = r.joiner
  split : (fields.lookup "batches").isSome = r.batches.isSome
  count : fields.batchCount = r.expectedBatches
  outputs : fields.outputValues = r.outputs.map BatchOutput.toValue
  fits : ∀ o ∈ r.outputs, o.batch < UInt32.size

variable {fields : Fields} {r : JobRecord}

/-- Whatever is under the name of the batches is read as the fields of a map. -/
theorem ofValue_batches {v : StoreValue} (h : fields.lookup "batches" = some v) :
    BatchSummary.ofValue v =
      ⟨fields.batchCount, fields.outputValues.filterMap BatchOutput.ofValue?⟩ := by
  have hinner : ∀ name, v.field? name = (fields.inner "batches").lookup name := by
    intro name
    rw [inner, h]
    cases v with
    | map found => cases found <;> rfl
    | _ => rfl
  rw [BatchSummary.ofValue, hinner, hinner, batchCount, outputValues]
  cases (fields.inner "batches").lookup "outputs" <;> rfl

theorem Represents.batches (h : Represents fields r) :
    (fields.lookup "batches").map BatchSummary.ofValue = r.batches := by
  have hsplit := h.split
  cases hfound : fields.lookup "batches" with
  | none =>
      cases hbatches : r.batches with
      | none => rfl
      | some summary => simp [hfound, hbatches] at hsplit
  | some v =>
      cases hbatches : r.batches with
      | none => simp [hfound, hbatches] at hsplit
      | some summary =>
          have houtputs : r.outputs = summary.outputs := by simp [JobRecord.outputs, hbatches]
          have hcount : r.expectedBatches = summary.count := by
            simp [JobRecord.expectedBatches, hbatches]
          rw [Option.map_some, ofValue_batches hfound, h.count, h.outputs,
            BatchOutput.filterMap_toValue h.fits, houtputs, hcount]

end Fields

/-- A record without its times. -/
def JobRecord.untimed (r : JobRecord) : JobRecord :=
  { r with createdAt := ⟨0, 0⟩, updatedAt := ⟨0, 0⟩ }

/-- What is read of a document is the record that its fields stand for. -/
theorem Fields.Represents.ofDocument {d : Document} {r : JobRecord}
    (h : Represents (d.fields.getD []) r) (now : Timestamp) :
    ∃ r', JobRecord.ofDocument r.id now d = .ok r' ∧ r'.untimed = r.untimed := by
  have hstatus := h.status
  rw [Fields.status?] at hstatus
  simp only [JobRecord.ofDocument, Document.field?_eq, hstatus]
  refine ⟨_, rfl, ?_⟩
  have hvideo : ((d.fields.getD []).lookup "video" >>= StoreValue.string?) = r.video := h.video
  have herror : ((d.fields.getD []).lookup "error" >>= StoreValue.string?) = r.error := h.error
  have hjoiner : ((d.fields.getD []).lookup "joiner" >>= StoreValue.word?) = r.joiner := h.joiner
  simp only [JobRecord.untimed, hvideo, herror, hjoiner, h.batches]

/-! ## The fields of a new document -/

/-- The numbers of a record have 32 bits. -/
structure JobRecord.Fits (r : JobRecord) : Prop where
  joiner : ∀ n, r.joiner = some n → n < UInt32.size
  count : r.expectedBatches < UInt32.size
  outputs : ∀ o ∈ r.outputs, o.batch < UInt32.size

theorem Json.lookup_toList {α β : Type} (value : Option α) (f : α → β) (key name : String) :
    (value.map fun a => (key, f a)).toList.lookup name =
      if name = key then value.map f else none := by
  cases value <;> simp [Json.lookup_cons_eq]

theorem JobRecord.lookup_toFields (r : JobRecord) (name : String) :
    r.toFields.lookup name =
      (((((if name = "status" then some (.string r.status.text)
        else if name = "created_at" then some (.ofTimestamp r.createdAt)
        else if name = "updated_at" then some (.ofTimestamp r.updatedAt) else none).or
        (if name = "video" then r.video.map .string else none)).or
        (if name = "error" then r.error.map .string else none)).or
        (if name = "joiner" then r.joiner.map .ofNat else none)).or
        (if name = "batches" then r.batches.map BatchSummary.toValue else none)) := by
  simp only [toFields, List.lookup_append, Json.lookup_toList, Json.lookup_cons_eq, List.lookup_nil]

/-- The fields that are written of a record, in whatever order, are those of the record. -/
theorem Fields.represents_toFields {fields : Fields} {r : JobRecord} (hr : r.Fits)
    (h : ∀ name, fields.lookup name = r.toFields.lookup name) : Represents fields r := by
  have hlookup : ∀ name, fields.lookup name = _ := fun name => (h name).trans (r.lookup_toFields name)
  have hbatches : fields.lookup "batches" = r.batches.map BatchSummary.toValue := by
    simp [hlookup]
  have hinner : fields.inner "batches" = (r.batches.map fun summary =>
      [("count", .ofNat summary.count),
        ("outputs", .array (some (summary.outputs.map BatchOutput.toValue)))]).getD [] := by
    rw [inner, hbatches]
    cases r.batches <;> rfl
  refine ⟨?_, ?_, ?_, ?_, ?_, ?_, ?_, hr.outputs⟩
  · simp [status?, hlookup, StoreValue.string?, JobStatus.ofText?_text]
  · cases hvideo : r.video <;> simp [text?, hlookup, hvideo, StoreValue.string?]
  · cases herror : r.error <;> simp [text?, hlookup, herror, StoreValue.string?]
  · cases hjoiner : r.joiner with
    | none => simp [joiner?, hlookup, hjoiner]
    | some n => simp [joiner?, hlookup, hjoiner, StoreValue.word?_ofNat (hr.joiner n hjoiner)]
  · rw [hbatches, Option.isSome_map]
  · have hcount := hr.count
    rw [batchCount, hinner]
    cases hsome : r.batches with
    | none => simp [JobRecord.expectedBatches, hsome]
    | some summary =>
        simp only [JobRecord.expectedBatches, hsome, Option.map_some, Option.getD_some] at hcount ⊢
        simp [StoreValue.word?_ofNat hcount]
  · rw [outputValues, hinner]
    cases hsome : r.batches with
    | none => simp [JobRecord.outputs, hsome]
    | some summary => simp [JobRecord.outputs, hsome, Json.lookup_cons_eq, StoreValue.elements]

/-! ## What the writes do -/

namespace RecordStore

open DocumentRequest (createWrite)

variable {fields : Fields} {r : JobRecord}

theorem represents_createWrite (hr : r.Fits) :
    Fields.Represents ((createWrite r.toFields).apply fields) r :=
  Fields.represents_toFields hr fun _ => lookup_createWrite r

/-- A write that has nothing to do with the batches. -/
theorem represents_of_batches {fields' : Fields} {r' : JobRecord} (h : fields.Represents r)
    (hfields : fields'.lookup "batches" = fields.lookup "batches") (hr : r'.batches = r.batches)
    (hstatus : fields'.status? = some r'.status) (hvideo : fields'.text? "video" = r'.video)
    (herror : fields'.text? "error" = r'.error) (hjoiner : fields'.joiner? = r'.joiner) :
    fields'.Represents r' := by
  have hinner : fields'.inner "batches" = fields.inner "batches" := by
    rw [Fields.inner, hfields, Fields.inner]
  have houtputs : r'.outputs = r.outputs := by rw [JobRecord.outputs, hr, JobRecord.outputs]
  refine ⟨hstatus, hvideo, herror, hjoiner, ?_, ?_, ?_, houtputs ▸ h.fits⟩
  · rw [hfields, hr, h.split]
  · rw [Fields.batchCount, hinner, JobRecord.expectedBatches, hr]
    exact h.count
  · rw [Fields.outputValues, hinner, houtputs]
    exact h.outputs

theorem represents_statusWrite (h : fields.Represents r) (status : JobStatus)
    (video : Option String) (now : Timestamp) :
    Fields.Represents ((statusWrite status video now).apply fields) (r.withStatus status video) := by
  refine represents_of_batches h (by simp [lookup_statusWrite]) rfl ?_ ?_ ?_ ?_
  · simp [Fields.status?, lookup_statusWrite, StoreValue.string?, JobStatus.ofText?_text,
      JobRecord.withStatus]
  · cases video <;> simp [Fields.text?, lookup_statusWrite, JobRecord.withStatus, StoreValue.string?]
  · simpa [Fields.text?, lookup_statusWrite, JobRecord.withStatus] using h.error
  · simpa [Fields.joiner?, lookup_statusWrite, JobRecord.withStatus] using h.joiner

theorem represents_failureWrite (h : fields.Represents r) (reason : String) (now : Timestamp) :
    Fields.Represents ((failureWrite reason now).apply fields) (r.withFailure reason) := by
  refine represents_of_batches h (by simp [lookup_failureWrite]) rfl ?_ ?_ ?_ ?_
  · simp [Fields.status?, lookup_failureWrite, StoreValue.string?, JobStatus.ofText?_text,
      JobRecord.withFailure]
  · simpa [Fields.text?, lookup_failureWrite, JobRecord.withFailure] using h.video
  · simp [Fields.text?, lookup_failureWrite, JobRecord.withFailure, StoreValue.string?]
  · simpa [Fields.joiner?, lookup_failureWrite, JobRecord.withFailure] using h.joiner

theorem represents_claimWrite (h : fields.Represents r) {batch : ℕ} (hbatch : batch < UInt32.size)
    (version : String) (now : Timestamp) :
    Fields.Represents ((claimWrite batch version now).apply fields) (r.withJoiner batch) := by
  refine represents_of_batches h (by simp [lookup_claimWrite]) rfl
    (status?_claimWrite batch version now) ?_ ?_ (joiner?_claimWrite hbatch version now)
  · simpa [Fields.text?, lookup_claimWrite, JobRecord.withJoiner] using h.video
  · simpa [Fields.text?, lookup_claimWrite, JobRecord.withJoiner] using h.error

theorem represents_countWrite (h : fields.Represents r) {count : ℕ} (hcount : count < UInt32.size)
    (now : Timestamp) :
    Fields.Represents ((countWrite count now).apply fields) (r.withBatchCount count) := by
  have houtputs : (r.withBatchCount count).outputs = r.outputs := by
    cases hbatches : r.batches <;> simp [JobRecord.withBatchCount, JobRecord.outputs, hbatches]
  refine ⟨?_, ?_, ?_, ?_, ?_, ?_, ?_, houtputs ▸ h.fits⟩
  · simpa [Fields.status?, apply_countWrite, Json.lookup_insertSorted, JobRecord.withBatchCount]
      using h.status
  · simpa [Fields.text?, apply_countWrite, Json.lookup_insertSorted, JobRecord.withBatchCount]
      using h.video
  · simpa [Fields.text?, apply_countWrite, Json.lookup_insertSorted, JobRecord.withBatchCount]
      using h.error
  · simpa [Fields.joiner?, apply_countWrite, Json.lookup_insertSorted, JobRecord.withBatchCount]
      using h.joiner
  · simp [apply_countWrite, Json.lookup_insertSorted, JobRecord.withBatchCount]
  · simp [Fields.batchCount, Fields.inner, apply_countWrite, Json.lookup_insertSorted,
      StoreValue.word?_ofNat hcount, JobRecord.withBatchCount, JobRecord.expectedBatches]
  · rw [houtputs, ← h.outputs]
    simp [Fields.outputValues, Fields.inner, apply_countWrite, Json.lookup_insertSorted]

theorem represents_outputWrite (h : fields.Represents r) {output : BatchOutput}
    (houtput : output.batch < UInt32.size) (s : RecordStore) (id : JobId) (now : Timestamp) :
    Fields.Represents ((s.outputWrite id output now).apply fields) (r.withOutput output) := by
  have hmem : output.toValue ∈ fields.outputValues ↔ output ∈ r.outputs := by
    rw [h.outputs, List.mem_map_of_injective BatchOutput.toValue_injective]
  have happend : Fields.appendMissing [output.toValue] fields.outputValues =
      (r.withOutput output).outputs.map BatchOutput.toValue := by
    obtain ⟨hthere, hnew⟩ := appendMissing_singleton output.toValue fields.outputValues
    rw [JobRecord.outputs_withOutput]
    by_cases hin : output ∈ r.outputs
    · rw [hthere (hmem.mpr hin), if_pos hin, h.outputs]
    · rw [hnew fun h => hin (hmem.mp h), if_neg hin, h.outputs, List.map_append, List.map_singleton]
  refine ⟨?_, ?_, ?_, ?_, ?_, ?_, ?_, ?_⟩
  · simpa [Fields.status?, apply_outputWrite, Json.lookup_insertSorted, JobRecord.withOutput]
      using h.status
  · simpa [Fields.text?, apply_outputWrite, Json.lookup_insertSorted, JobRecord.withOutput]
      using h.video
  · simpa [Fields.text?, apply_outputWrite, Json.lookup_insertSorted, JobRecord.withOutput]
      using h.error
  · simpa [Fields.joiner?, apply_outputWrite, Json.lookup_insertSorted, JobRecord.withOutput]
      using h.joiner
  · rw [apply_outputWrite, Json.lookup_insertSorted, if_pos rfl, JobRecord.withOutput]
    dsimp only
    split <;> rfl
  · rw [r.expectedBatches_withOutput, ← h.count]
    simp [Fields.batchCount, Fields.inner, apply_outputWrite, Json.lookup_insertSorted]
  · rw [← happend]
    simp [Fields.outputValues, Fields.inner, apply_outputWrite, Json.lookup_insertSorted,
      StoreValue.elements]
  · rw [JobRecord.outputs_withOutput]
    split
    · exact h.fits
    · intro o ho
      rcases List.mem_append.mp ho with ho | ho
      · exact h.fits o ho
      · rw [List.mem_singleton.mp ho]
        exact houtput

end RecordStore

end Slideshow
