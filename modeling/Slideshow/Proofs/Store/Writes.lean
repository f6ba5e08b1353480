import Slideshow.Proofs.Filter.Label
import Slideshow.Proofs.Store.Server
import Slideshow.Store.Records

/-! # What the calls of the record store write

Which fields of a document each write changes, and what they are afterwards; all others stay. -/

namespace Slideshow

open DocumentRequest (createWrite patchWrite)

/-! ## Values that are read back -/

theorem Decimal.nat?_natText (n : ℕ) : nat? (natText n) = some n := by
  have hdigits : ∀ c ∈ Nat.toDigits 10 n, c.isDigit = true := fun c hc => isDigit_of_mem_toDigits hc
  have hvalue : digitsValue (Nat.toDigits 10 n) = n := Nat.ofDigitChars_ten_toDigits
  rw [nat?, toList_natText]
  cases hcs : Nat.toDigits 10 n with
  | nil => exact (Nat.toDigits_ne_nil hcs).elim
  | cons first rest =>
      rw [hcs] at hdigits hvalue
      have hfirst : first ≠ '+' := by
        rintro rfl
        exact absurd (hdigits '+' List.mem_cons_self) (by decide)
      have hall : (first :: rest).all Char.isDigit = true := List.all_eq_true.mpr hdigits
      split
      · rename_i h
        exact (hfirst (List.cons.inj h).1).elim
      · simp only [hall, hvalue, List.isEmpty_cons, Bool.not_true, Bool.or_self]
        rfl

theorem StoreValue.word?_ofNat {n : ℕ} (h : n < UInt32.size) :
    (StoreValue.ofNat n).word? = some n := by
  simp [StoreValue.ofNat, StoreValue.word?, Decimal.natBelow?, Decimal.nat?_natText, h]

theorem JobStatus.ofText?_text (status : JobStatus) :
    JobStatus.ofText? status.text = some status := by
  cases status <;> rfl

/-! ## Names -/

namespace Fields

theorem names_status : names "status" = ["status"] := by decide

theorem names_video : names "video" = ["video"] := by decide

theorem names_error : names "error" = ["error"] := by decide

theorem names_joiner : names "joiner" = ["joiner"] := by decide

theorem names_updatedAt : names "updated_at" = ["updated_at"] := by decide

theorem names_batchCount : names "batches.count" = ["batches", "count"] := by decide

theorem names_batchOutputs : names "batches.outputs" = ["batches", "outputs"] := by decide

end Fields

namespace RecordStore

/-- The name of the document that holds the record of a job. -/
abbrev nameOf (s : RecordStore) (id : JobId) : String := s.config.documentName s.config.jobs id

/-! ## The writes -/

def countWrite (count : ℕ) (now : Timestamp) : DocumentWrite :=
  patchWrite ([("batches", .map (some [("count", .ofNat count)]))] ++
    [("updated_at", .ofTimestamp now)]) (["batches.count"] ++ ["updated_at"]) (some .exists?)

def statusWrite (status : JobStatus) (video : Option String) (now : Timestamp) : DocumentWrite :=
  patchWrite (("status", .string status.text) ::
      (video.map fun url => ("video", StoreValue.string url)).toList ++
    [("updated_at", .ofTimestamp now)]) (["status", "video"] ++ ["updated_at"]) none

def failureWrite (reason : String) (now : Timestamp) : DocumentWrite :=
  patchWrite ([("status", .string JobStatus.failed.text), ("error", .string reason)] ++
    [("updated_at", .ofTimestamp now)]) (["status", "error"] ++ ["updated_at"]) none

def claimWrite (batch : ℕ) (version : String) (now : Timestamp) : DocumentWrite :=
  patchWrite ([("status", .string JobStatus.joining.text), ("joiner", .ofNat batch)] ++
    [("updated_at", .ofTimestamp now)]) (["status", "joiner"] ++ ["updated_at"])
    (some { updateTime := some version })

variable {fields : Fields} {name : String}

theorem apply_patchWrite {given : Fields} {mask : List String} {p : Option Precondition}
    (h : mask ≠ []) :
    (patchWrite given mask p).apply fields = Fields.writeMask given mask fields := by
  simp [patchWrite, DocumentWrite.apply, DocumentWrite.given, h]

/-- Where the mask is made of names, a field is as given if its name is among them. -/
theorem lookup_patchWrite {given : Fields} {mask : List String} {p : Option Precondition}
    (h : mask ≠ []) (hmask : ∀ path ∈ mask, Fields.names path = [path]) :
    ((patchWrite given mask p).apply fields).lookup name =
      if name ∈ mask then given.lookup name else fields.lookup name := by
  rw [apply_patchWrite h, Fields.lookup_writeMask hmask]

theorem lookup_statusWrite (status : JobStatus) (video : Option String) (now : Timestamp) :
    ((statusWrite status video now).apply fields).lookup name =
      if name = "status" then some (.string status.text)
      else if name = "video" then video.map .string
      else if name = "updated_at" then some (.ofTimestamp now)
      else fields.lookup name := by
  rw [statusWrite, lookup_patchWrite (by simp)
    (by simp [Fields.names_status, Fields.names_video, Fields.names_updatedAt])]
  by_cases hstatus : name = "status"
  · simp [hstatus]
  · by_cases hvideo : name = "video"
    · cases video <;> simp [hvideo, Json.lookup_cons_eq]
    · by_cases hupdated : name = "updated_at"
      · cases video <;> simp [hupdated, Json.lookup_cons_eq]
      · simp [hstatus, hvideo, hupdated]

theorem lookup_failureWrite (reason : String) (now : Timestamp) :
    ((failureWrite reason now).apply fields).lookup name =
      if name = "status" then some (.string JobStatus.failed.text)
      else if name = "error" then some (.string reason)
      else if name = "updated_at" then some (.ofTimestamp now)
      else fields.lookup name := by
  rw [failureWrite, lookup_patchWrite (by simp)
    (by simp [Fields.names_status, Fields.names_error, Fields.names_updatedAt])]
  by_cases hstatus : name = "status"
  · simp [hstatus]
  · by_cases herror : name = "error"
    · simp [herror, Json.lookup_cons_eq]
    · by_cases hupdated : name = "updated_at"
      · simp [hupdated, Json.lookup_cons_eq]
      · simp [hstatus, herror, hupdated]

theorem lookup_claimWrite (batch : ℕ) (version : String) (now : Timestamp) :
    ((claimWrite batch version now).apply fields).lookup name =
      if name = "status" then some (.string JobStatus.joining.text)
      else if name = "joiner" then some (.ofNat batch)
      else if name = "updated_at" then some (.ofTimestamp now)
      else fields.lookup name := by
  rw [claimWrite, lookup_patchWrite (by simp)
    (by simp [Fields.names_status, Fields.names_joiner, Fields.names_updatedAt])]
  by_cases hstatus : name = "status"
  · simp [hstatus]
  · by_cases hjoiner : name = "joiner"
    · simp [hjoiner, Json.lookup_cons_eq]
    · by_cases hupdated : name = "updated_at"
      · simp [hupdated, Json.lookup_cons_eq]
      · simp [hstatus, hjoiner, hupdated]

theorem nodup_toFields (r : JobRecord) : (r.toFields.map Prod.fst).Nodup := by
  obtain ⟨id, status, video, batches, joiner, error, created, updated⟩ := r
  cases video <;> cases batches <;> cases joiner <;> cases error <;> simp [JobRecord.toFields]

/-- A new document has the fields it was given. -/
theorem lookup_createWrite (r : JobRecord) :
    ((createWrite r.toFields).apply fields).lookup name = r.toFields.lookup name := by
  have hsorted := Json.lookup_insertAll (nodup_toFields r) [] name
  rw [List.lookup_nil, Option.or_none] at hsorted
  exact hsorted

/-- The count of the batches is put beside their outputs. -/
theorem apply_countWrite (count : ℕ) (now : Timestamp) :
    (countWrite count now).apply fields =
      Json.insertSorted "updated_at" (.ofTimestamp now)
        (Json.insertSorted "batches"
          (.map (some (Json.insertSorted "count" (.ofNat count) (fields.inner "batches"))))
          fields) := by
  rw [countWrite, apply_patchWrite (by simp)]
  simp [Fields.writeMask, Fields.writeAt, Fields.names_updatedAt, Fields.names_batchCount,
    Fields.valueAt?, Fields.putAt, Fields.inner, Json.lookup_cons_eq]

/-- The outputs of batches are put beside their count, with those that are new at the end. -/
theorem apply_outputWrite (s : RecordStore) (id : JobId) (output : BatchOutput) (now : Timestamp) :
    (s.outputWrite id output now).apply fields =
      Json.insertSorted "batches"
        (.map (some (Json.insertSorted "outputs"
          (.array (some (Fields.appendMissing [output.toValue]
            (((fields.inner "batches").lookup "outputs").map StoreValue.elements |>.getD []))))
          (fields.inner "batches"))))
        (Json.insertSorted "updated_at" (.ofTimestamp now) fields) := by
  have hinner : Fields.inner (Json.insertSorted "updated_at" (.ofTimestamp now) fields) "batches" =
      fields.inner "batches" := by
    simp [Fields.inner, Json.lookup_insertSorted]
  simp [outputWrite, DocumentWrite.apply, DocumentWrite.given, Fields.writeMask, Fields.writeAt,
    Fields.transform, Fields.names_updatedAt, Fields.names_batchOutputs, Fields.valueAt?,
    Fields.putAt, hinner]

theorem appendMissing_singleton (v : StoreValue) (there : List StoreValue) :
    (v ∈ there → Fields.appendMissing [v] there = there) ∧
      (v ∉ there → Fields.appendMissing [v] there = there ++ [v]) := by
  constructor <;> intro h <;> simp [Fields.appendMissing, h]

/-! ## They can be read back -/

theorem readable_toValue (o : BatchOutput) (n : ℕ) : o.toValue.Readable (n + 2) := by
  have hsorted : "batch" < "output" := by decide
  refine ⟨List.pairwise_pair.mpr hsorted, fun f hf => ?_⟩
  rcases List.mem_pair.mp hf with rfl | rfl <;> trivial

theorem readable_toFields (r : JobRecord) : ∀ f ∈ r.toFields, f.2.Readable Json.maxDepth := by
  have hbatches : ∀ summary : BatchSummary, summary.toValue.Readable Json.maxDepth := by
    intro summary
    have hsorted : "count" < "outputs" := by decide
    refine ⟨List.pairwise_pair.mpr hsorted, fun f hf => ?_⟩
    rcases List.mem_pair.mp hf with rfl | rfl
    · trivial
    · intro v hv
      obtain ⟨o, -, rfl⟩ := List.mem_map.mp hv
      exact readable_toValue o _
  intro f hf
  simp only [JobRecord.toFields, List.mem_append, List.mem_cons, Option.mem_toList,
    Option.map_eq_some_iff, List.not_mem_nil, or_false] at hf
  rcases hf with
    ((((rfl | rfl | rfl) | ⟨_, -, rfl⟩) | ⟨_, -, rfl⟩) | ⟨_, -, rfl⟩) | ⟨summary, -, rfl⟩
  · trivial
  · trivial
  · trivial
  · trivial
  · trivial
  · trivial
  · exact hbatches summary

theorem readable_createWrite (r : JobRecord) :
    ((createWrite r.toFields).apply fields).Readable Json.maxDepth :=
  (Fields.readable_nil _).insertAll (readable_toFields r)

theorem readable_patchWrite {given : Fields} {mask : List String} {p : Option Precondition}
    (hfields : fields.Readable Json.maxDepth) (h : mask ≠ [])
    (hmask : ∀ path ∈ mask, Fields.names path = [path])
    (hgiven : ∀ f ∈ given, f.2.Readable Json.maxDepth) :
    ((patchWrite given mask p).apply fields).Readable Json.maxDepth := by
  rw [apply_patchWrite h]
  refine hfields.writeMask fun path hpath v hv => ?_
  rw [hmask path hpath] at hv ⊢
  exact hgiven _ (Fields.mem_of_lookup hv)

theorem readable_claimWrite (hfields : fields.Readable Json.maxDepth) (batch : ℕ)
    (version : String) (now : Timestamp) :
    ((claimWrite batch version now).apply fields).Readable Json.maxDepth := by
  refine readable_patchWrite hfields (by simp)
    (by simp [Fields.names_status, Fields.names_joiner, Fields.names_updatedAt]) ?_
  simp only [List.cons_append, List.nil_append, List.mem_cons, List.not_mem_nil, or_false]
  rintro f (rfl | rfl | rfl) <;> trivial

theorem readable_statusWrite (hfields : fields.Readable Json.maxDepth) (status : JobStatus)
    (video : Option String) (now : Timestamp) :
    ((statusWrite status video now).apply fields).Readable Json.maxDepth := by
  refine readable_patchWrite hfields (by simp)
    (by simp [Fields.names_status, Fields.names_video, Fields.names_updatedAt]) fun f hf => ?_
  simp only [List.mem_append, List.mem_cons, Option.mem_toList, Option.map_eq_some_iff,
    List.not_mem_nil, or_false] at hf
  rcases hf with (rfl | ⟨url, -, rfl⟩) | rfl <;> trivial

theorem readable_failureWrite (hfields : fields.Readable Json.maxDepth) (reason : String)
    (now : Timestamp) : ((failureWrite reason now).apply fields).Readable Json.maxDepth := by
  refine readable_patchWrite hfields (by simp)
    (by simp [Fields.names_status, Fields.names_error, Fields.names_updatedAt]) ?_
  simp only [List.cons_append, List.nil_append, List.mem_cons, List.not_mem_nil, or_false]
  rintro f (rfl | rfl | rfl) <;> trivial

/-- A field in the map of the batches. -/
theorem readable_insertBatches {v : StoreValue} (hfields : fields.Readable Json.maxDepth)
    (name : String) (hv : v.Readable (Json.maxDepth - 1)) :
    (StoreValue.map (some (Json.insertSorted name v (fields.inner "batches")))).Readable
      Json.maxDepth :=
  (Fields.Readable.inner hfields "batches").insertSorted name hv

theorem readable_countWrite (hfields : fields.Readable Json.maxDepth) (count : ℕ)
    (now : Timestamp) : ((countWrite count now).apply fields).Readable Json.maxDepth := by
  have hcount : (StoreValue.ofNat count).Readable (Json.maxDepth - 1) := trivial
  have hnow : (StoreValue.ofTimestamp now).Readable Json.maxDepth := trivial
  rw [apply_countWrite]
  refine Fields.Readable.insertSorted ?_ "updated_at" hnow
  exact hfields.insertSorted "batches" (readable_insertBatches hfields "count" hcount)

theorem mem_appendMissing {v w : StoreValue} {there : List StoreValue}
    (h : w ∈ Fields.appendMissing [v] there) : w = v ∨ w ∈ there := by
  obtain ⟨hthere, hnew⟩ := appendMissing_singleton v there
  by_cases hv : v ∈ there
  · rw [hthere hv] at h
    exact .inr h
  · rw [hnew hv] at h
    exact (List.mem_append.mp h).symm.imp_left List.mem_singleton.mp

theorem readable_outputWrite (hfields : fields.Readable Json.maxDepth) (s : RecordStore) (id : JobId)
    (output : BatchOutput) (now : Timestamp) :
    ((s.outputWrite id output now).apply fields).Readable Json.maxDepth := by
  have hnow : (StoreValue.ofTimestamp now).Readable Json.maxDepth := trivial
  have hthere : ∀ v ∈ (((fields.inner "batches").lookup "outputs").map StoreValue.elements).getD [],
      v.Readable (Json.maxDepth - 2) := by
    intro v hv
    cases hfound : (fields.inner "batches").lookup "outputs" with
    | none => simp [hfound] at hv
    | some there =>
        have hreadable : there.Readable (Json.maxDepth - 1) :=
          (Fields.Readable.inner hfields "batches").of_lookup hfound
        rw [hfound] at hv
        cases there with
        | array values =>
            cases values with
            | none => cases hv
            | some values => exact hreadable v hv
        | _ => cases hv
  rw [apply_outputWrite]
  refine Fields.Readable.insertSorted (hfields.insertSorted "updated_at" hnow) "batches"
    (readable_insertBatches hfields "outputs" fun v hv => ?_)
  rcases mem_appendMissing hv with rfl | hv
  · exact readable_toValue output _
  · exact hthere v hv

/-- A store whose records are in the collection of jobs. -/
def jobStore : RecordStore where
  config := ⟨"slides", "(default)", "jobs", none, 30, 5, {}⟩
  endpoint := "https://store"

end RecordStore

end Slideshow
