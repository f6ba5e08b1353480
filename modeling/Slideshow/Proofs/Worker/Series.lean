import Slideshow.Proofs.Worker.Pieces
import Mathlib.Data.List.Nodup

/-! # Series of deliveries

The message of a request and those of its batches are delivered one after another, in any order and
any number of times, and nothing fails. `Kept` is what is kept of such a series: in the record of
the job, in the journal and in the storage there is what the batches that have arrived account for,
once each, and the join when none is missing. -/

namespace Slideshow

open WorkerExchange WorkerCall

variable {α : Type}

/-- The job was just accepted, and nothing was done for it. -/
structure Rehearsal.Ready (id : JobId) (r : Rehearsal α) : Prop where
  known : ∃ now, r.memory.ledger.get? id = some (.fresh id now)
  claims : r.memory.ledger.claims = 0
  dispatched : r.memory.dispatched = []
  journal : r.journal = []

variable [Scalar α] {p : SplitRequest α}

namespace SplitRequest

/-- The message of the request or of one of its batches, at a place where a track is chosen among
those there are. -/
structure Delivery (p : SplitRequest α) where
  place : Workplace
  job : QueueJob α
  chooses : ∀ n, 0 < n → place.choose n < n
  belongs : job = .createVideo p.request ∨ ∃ b ∈ p.batches, job = .renderBatch b

/-- A delivery in which nothing fails. -/
def deliver (p : SplitRequest α) (d : p.Delivery) :
    StateM (Rehearsal α) (Except WorkerError Unit) :=
  Rehearsal.deliver p.limits d.place p.surroundings .quiet d.job

/-- Deliveries one after another. -/
def deliverAll (p : SplitRequest α) (ds : List p.Delivery) :
    StateM (Rehearsal α) (List (Except WorkerError Unit)) :=
  ds.mapM p.deliver

/-- The numbers of the batches that have arrived, in order of first arrival. -/
def arrivals (ds : List p.Delivery) : List ℕ := (ds.filterMap fun d => d.job.batch).eraseDups

/-- Some batch has not arrived. -/
def Lacks (p : SplitRequest α) (arrived : List ℕ) : Prop := ∃ b ∈ p.batches, b.batch ∉ arrived

theorem lacks_iff {arrived : List ℕ} :
    p.Lacks arrived ↔ ∃ b ∈ List.range' 1 p.count, b ∉ arrived := by
  simp [Lacks, ← p.map_batch_batches]

theorem lacks_nil (p : SplitRequest α) : p.Lacks [] := by
  have hpos := p.count_pos
  exact lacks_iff.mpr ⟨1, List.mem_range'_1.mpr (by omega), List.not_mem_nil⟩

theorem mem_of_not_lacks {arrived : List ℕ} (hall : ¬ p.Lacks arrived) {b : ℕ}
    (hb : b ∈ List.range' 1 p.count) : b ∈ arrived := by
  by_contra hmissing
  exact hall (lacks_iff.mpr ⟨b, hb, hmissing⟩)

/-! ## The record -/

/-- The record of the job has the outputs of the batches that have arrived, in order of arrival. -/
structure Reports (p : SplitRequest α) (arrived : List ℕ) (j : JobRecord) : Prop where
  outputs : j.outputs = arrived.map p.output
  nodup : arrived.Nodup
  numbered : ∀ b ∈ arrived, b ∈ List.range' 1 p.count

namespace Reports

variable {arrived : List ℕ} {j : JobRecord} {b : ℕ}

theorem map_batch_outputs (h : p.Reports arrived j) :
    j.outputs.map BatchOutput.batch = arrived := by
  simp [h.outputs, output, Function.comp_def]

theorem hasReceived_iff (h : p.Reports arrived j) : j.hasReceived b = true ↔ b ∈ arrived := by
  rw [JobRecord.hasReceived_iff, h.map_batch_outputs]

theorem isNumbered (h : p.Reports arrived j) : j.Numbered p.count := by
  intro x hx
  have hmem := h.numbered x.batch (h.map_batch_outputs ▸ List.mem_map_of_mem hx)
  rw [List.mem_range'_1] at hmem
  omega

theorem complete_iff (h : p.Reports arrived j) : j.Complete p.count ↔ ¬ p.Lacks arrived := by
  simp only [JobRecord.Complete, h.hasReceived_iff, lacks_iff, List.mem_range'_1, not_exists,
    not_and, not_not]
  exact ⟨fun hall b hb => hall b hb.1 (by omega), fun hall b hb hbn => hall b ⟨hb, by omega⟩⟩

theorem readyToJoin_iff (h : p.Reports arrived j) (hexpected : j.expectedBatches = p.count) :
    j.readyToJoin = true ↔ j.status = .processing ∧ ¬ p.Lacks arrived := by
  rw [h.isNumbered.readyToJoin_iff hexpected p.count_pos, h.complete_iff]

theorem orderedOutputs_eq (h : p.Reports arrived j) (hall : ¬ p.Lacks arrived) :
    j.orderedOutputs = (List.range' 1 p.count).map p.output := by
  have hown : ∀ x ∈ j.orderedOutputs, p.output x.batch = x := by
    intro x hx
    have hmem := JobRecord.mem_outputs_of_mem_orderedOutputs hx
    rw [h.outputs] at hmem
    obtain ⟨b, -, rfl⟩ := List.mem_map.mp hmem
    rfl
  rw [← (h.complete_iff.mpr hall).batches_eq h.isNumbered, List.map_map]
  exact ((List.map_congr_left hown).trans (List.map_id _)).symm

theorem length_eq (h : p.Reports arrived j) (hall : ¬ p.Lacks arrived) :
    arrived.length = p.count := by
  have hperm : arrived.Perm (List.range' 1 p.count) :=
    (List.perm_ext_iff_of_nodup h.nodup List.nodup_range').mpr
      fun b => ⟨h.numbered b, mem_of_not_lacks hall⟩
  rw [hperm.length_eq, List.length_range']

/-- Only the outputs matter. -/
theorem of_outputs {j' : JobRecord} (h : p.Reports arrived j) (heq : j'.outputs = j.outputs) :
    p.Reports arrived j' :=
  ⟨heq.trans h.outputs, h.nodup, h.numbered⟩

theorem append (h : p.Reports arrived j) (hb : b ∈ List.range' 1 p.count) (hnew : b ∉ arrived) :
    p.Reports (arrived ++ [b]) (j.withOutput (p.output b)) where
  outputs := by
    have hnot : p.output b ∉ j.outputs := by
      intro hmem
      exact hnew (h.map_batch_outputs ▸ List.mem_map_of_mem hmem)
    rw [JobRecord.outputs_withOutput, if_neg hnot, h.outputs, List.map_append]
    rfl
  nodup := List.concat_eq_append ▸ h.nodup.concat hnew
  numbered a ha := by
    rcases List.mem_append.mp ha with ha | ha
    · exact h.numbered a ha
    · exact List.mem_singleton.mp ha ▸ hb

end Reports

/-! ## What is kept -/

/-- The job is open: what has arrived was rendered and stored, and nothing was joined. -/
structure Waits (p : SplitRequest α) (arrived : List ℕ) (r : Rehearsal α) (j : JobRecord) :
    Prop where
  status : j.status = .processing
  video : j.video = none
  joiner : j.joiner = none
  claims : r.memory.ledger.claims = 0
  renders : List.Forall₂ p.Shows arrived r.renders
  uploads : r.uploads = arrived.map p.address
  downloads : r.downloads = []

/-- The job is done: the parts were fetched back in order, joined and stored with a track, for the
batch that arrived last. -/
structure Joined (p : SplitRequest α) (arrived : List ℕ) (r : Rehearsal α) (j : JobRecord) :
    Prop where
  status : j.status = .processed
  video : j.video = some p.video
  joiner : j.joiner = arrived.getLast?
  claims : r.memory.ledger.claims = 1
  renders : ∃ parts joined final, r.renders = parts ++ [joined, final] ∧
    List.Forall₂ p.Shows arrived parts ∧ p.Joins joined ∧ final.audio.isSome = true
  length_renders : r.renders.length = p.count + 2
  uploads : r.uploads = arrived.map p.address ++ [p.video]
  downloads : r.downloads = (List.range' 1 p.count).map p.address

/-- What is kept when these batches have arrived. -/
structure Kept (p : SplitRequest α) (arrived : List ℕ) (r : Rehearsal α) (j : JobRecord) :
    Prop where
  known : r.memory.ledger.get? p.request.jobId = some j
  expected : j.expectedBatches = p.count
  reports : p.Reports arrived j
  dispatched : ∃ k, r.memory.dispatched = (List.replicate (k + 1) p.batches).flatten
  produced : ∀ b ∈ arrived, p.Produces b r.calls
  stored : ∀ b ∈ arrived, (r.memory.objects.lookup (p.address b)).isSome = true
  waits : p.Lacks arrived → p.Waits arrived r j
  joined : ¬ p.Lacks arrived → p.Joined arrived r j

variable {arrived : List ℕ} {r r' : Rehearsal α} {j : JobRecord} {batch : BatchJob α}

theorem Waits.of_adds (h : p.Waits arrived r j)
    (hclaims : r'.memory.ledger.claims = r.memory.ledger.claims) (hadds : r.Adds r' [] [] []) :
    p.Waits arrived r' j := by
  refine ⟨h.status, h.video, h.joiner, hclaims.trans h.claims, ?_, ?_, ?_⟩
  · simpa [hadds.renders] using h.renders
  · simpa [hadds.uploads] using h.uploads
  · simpa [hadds.downloads] using h.downloads

theorem Joined.of_adds (h : p.Joined arrived r j)
    (hclaims : r'.memory.ledger.claims = r.memory.ledger.claims) (hadds : r.Adds r' [] [] []) :
    p.Joined arrived r' j := by
  refine ⟨h.status, h.video, h.joiner, hclaims.trans h.claims, ?_, ?_, ?_, ?_⟩
  · simpa [hadds.renders] using h.renders
  · simpa [hadds.renders] using h.length_renders
  · simpa [hadds.uploads] using h.uploads
  · simpa [hadds.downloads] using h.downloads

namespace Kept

/-- A delivery that changes nothing. -/
theorem of_adds (h : p.Kept arrived r j) (hmemory : r'.memory = { r.memory with files := [] })
    (hadds : r.Adds r' [] [] []) : p.Kept arrived r' j := by
  have hclaims : r'.memory.ledger.claims = r.memory.ledger.claims := by rw [hmemory]
  refine ⟨?_, h.expected, h.reports, ?_, fun b hb => (h.produced b hb).mono hadds.calls.isInfix, ?_,
    fun hlacks => (h.waits hlacks).of_adds hclaims hadds,
    fun hall => (h.joined hall).of_adds hclaims hadds⟩
  · rw [hmemory]
    exact h.known
  · rw [hmemory]
    exact h.dispatched
  · rw [hmemory]
    exact h.stored

theorem waits_of_not_mem (h : p.Kept arrived r j) (hbatch : batch ∈ p.batches)
    (hnew : batch.batch ∉ arrived) : p.Waits arrived r j :=
  h.waits ⟨batch, hbatch, hnew⟩

theorem status_ne_failed (h : p.Kept arrived r j) : j.status ≠ .failed := by
  by_cases hlacks : p.Lacks arrived
  · simp [(h.waits hlacks).status]
  · simp [(h.joined hlacks).status]

theorem readyToJoin_eq_false (h : p.Kept arrived r j) : j.readyToJoin = false := by
  rw [Bool.eq_false_iff, Ne, h.reports.readyToJoin_iff h.expected]
  rintro ⟨hopen, hall⟩
  rw [(h.joined hall).status] at hopen
  cases hopen

theorem joinOwnedBy_eq_false (h : p.Kept arrived r j) (b : ℕ) : j.joinOwnedBy b = false := by
  by_cases hlacks : p.Lacks arrived
  · simp [JobRecord.joinOwnedBy, (h.waits hlacks).status]
  · simp [JobRecord.joinOwnedBy, (h.joined hlacks).status]

end Kept

/-! ## The message of the request -/

/-- While the job is open, its message has it split, again or for the first time. -/
theorem Reports.exists_kept (hreports : p.Reports arrived j) (w : Workplace)
    (hj : r.memory.ledger.get? p.request.jobId = some j) (hlacks : p.Lacks arrived)
    (hwaits : p.Waits arrived r j)
    (hdispatched : ∃ k, r.memory.dispatched = (List.replicate k p.batches).flatten)
    (hproduced : ∀ b ∈ arrived, p.Produces b r.calls)
    (hstored : ∀ b ∈ arrived, (r.memory.objects.lookup (p.address b)).isSome = true) :
    ∃ r', Rehearsal.deliver p.limits w p.surroundings .quiet (.createVideo p.request) r =
        (.ok (), r') ∧ p.Kept arrived r' (j.withBatchCount p.count) := by
  have hopen : j.status.isTerminal = false := by
    rw [hwaits.status]
    rfl
  obtain ⟨r', hrun, hknown, hclaims, hobjects, hmore, hadds⟩ := p.exists_split w hj hopen
  have hcounted : p.Waits arrived r (j.withBatchCount p.count) :=
    ⟨hwaits.status, hwaits.video, hwaits.joiner, hwaits.claims, hwaits.renders, hwaits.uploads,
      hwaits.downloads⟩
  have houtputs : (j.withBatchCount p.count).outputs = j.outputs := by
    cases h : j.batches <;> simp [JobRecord.withBatchCount, JobRecord.outputs, h]
  refine ⟨r', hrun, hknown, rfl, hreports.of_outputs houtputs, ?_,
    fun b hb => (hproduced b hb).mono hadds.calls.isInfix, ?_,
    fun _ => hcounted.of_adds hclaims hadds, fun hall => (hall hlacks).elim⟩
  · obtain ⟨k, hk⟩ := hdispatched
    refine ⟨k, ?_⟩
    rw [hmore, hk, List.replicate_succ', List.flatten_append]
    simp
  · rw [hobjects]
    exact hstored

theorem exists_kept_nil (p : SplitRequest α) (w : Workplace) (hr : r.Ready p.request.jobId) :
    ∃ r' j, Rehearsal.deliver p.limits w p.surroundings .quiet (.createVideo p.request) r =
        (.ok (), r') ∧ p.Kept [] r' j := by
  obtain ⟨now, hnow⟩ := hr.known
  have hreports : p.Reports [] (.fresh p.request.jobId now) :=
    ⟨rfl, List.nodup_nil, fun _ h => nomatch h⟩
  have hwaits : p.Waits [] r (.fresh p.request.jobId now) := by
    refine ⟨rfl, rfl, rfl, hr.claims, ?_, ?_, ?_⟩ <;>
      simp [Rehearsal.renders, Rehearsal.uploads, Rehearsal.downloads, Rehearsal.calls, hr.journal]
  obtain ⟨r', hrun, hkept⟩ := hreports.exists_kept w hnow p.lacks_nil hwaits
    ⟨0, hr.dispatched⟩ (fun _ h => nomatch h) fun _ h => nomatch h
  exact ⟨r', _, hrun, hkept⟩

theorem Kept.exists_createVideo (h : p.Kept arrived r j) (w : Workplace) :
    ∃ r' j', Rehearsal.deliver p.limits w p.surroundings .quiet (.createVideo p.request) r =
        (.ok (), r') ∧ p.Kept arrived r' j' := by
  by_cases hlacks : p.Lacks arrived
  · obtain ⟨k, hk⟩ := h.dispatched
    obtain ⟨r', hrun, hkept⟩ := h.reports.exists_kept w h.known hlacks (h.waits hlacks)
      ⟨_, hk⟩ h.produced h.stored
    exact ⟨r', _, hrun, hkept⟩
  · have hended : j.status.isTerminal = true := by
      rw [(h.joined hlacks).status]
      rfl
    obtain ⟨r', hrun, hmemory, hcalls⟩ := Rehearsal.deliver_of_leads p.fetches
      (Worker.leads_handle_createVideo_of_isTerminal p.limits w hended)
      (.cons (remembered_load h.known) (.nil _))
    refine ⟨r', j, hrun, h.of_adds hmemory (Rehearsal.adds_nil_of_plain hcalls ?_)⟩
    simp [WorkerCall.Plain]

/-! ## The message of a batch -/

/-- A batch that has arrived before has nothing left to do. -/
theorem Kept.exists_again (h : p.Kept arrived r j) (w : Workplace) (hbatch : batch ∈ p.batches)
    (hold : batch.batch ∈ arrived) :
    ∃ r', Rehearsal.deliver p.limits w p.surroundings .quiet (.renderBatch batch) r =
        (.ok (), r') ∧ p.Kept arrived r' j := by
  have hleads : (Worker.approach w batch).run.Leads
      [loaded batch.jobId j, loaded batch.jobId j] (.done (.ok none)) :=
    Worker.leads_approach_of_received h.status_ne_failed (h.reports.hasReceived_iff.mpr hold)
      (Worker.leads_takeOver_of_waiting (h.joinOwnedBy_eq_false _) h.readyToJoin_eq_false)
  have hload := remembered_load_of_mem hbatch h.known
  obtain ⟨r', hrun, hmemory, hcalls⟩ := Rehearsal.deliver_of_leads p.fetches
    (Worker.leads_handle_of_none hleads) (.cons hload (.cons hload (.nil _)))
  refine ⟨r', hrun, h.of_adds hmemory (Rehearsal.adds_nil_of_plain hcalls ?_)⟩
  simp [WorkerCall.Plain]

section Arrival

variable {w : Workplace} {paths : List String} {plan : RenderPlan α} {m : Memory α}

theorem Rendering.reports (hr : p.Rendering w batch paths plan r.memory m j)
    (h : p.Kept arrived r j) (hnew : batch.batch ∉ arrived) :
    p.Reports (arrived ++ [batch.batch]) (j.withOutput (p.output batch.batch)) :=
  h.reports.append (mem_range_of_mem hr.mem) hnew

theorem Rendering.stored (hr : p.Rendering w batch paths plan r.memory m j)
    (h : p.Kept arrived r j) :
    ∀ b ∈ arrived ++ [batch.batch], (m.objects.lookup (p.address b)).isSome = true := by
  intro b hb
  refine hr.stores.isSome ?_
  rcases List.mem_append.mp hb with hb | hb
  · exact .inr (h.stored b hb)
  · exact .inl (congrArg p.address (List.mem_singleton.mp hb))

theorem Rendering.produced (hr : p.Rendering w batch paths plan r.memory m j)
    (h : p.Kept arrived r j) (hmore : r.calls <+: r'.calls)
    (hcalls : listing (Worker.rendering w batch paths plan (p.address batch.batch)) <:+: r'.calls) :
    ∀ b ∈ arrived ++ [batch.batch], p.Produces b r'.calls := by
  intro b hb
  rcases List.mem_append.mp hb with hb | hb
  · exact (h.produced b hb).mono hmore.isInfix
  · exact List.mem_singleton.mp hb ▸ hr.produces.mono hcalls

theorem Rendering.shows_append (hr : p.Rendering w batch paths plan r.memory m j)
    (h : p.Waits arrived r j) :
    List.Forall₂ p.Shows (arrived ++ [batch.batch]) (r.renders ++ [plan]) :=
  List.rel_append h.renders (.cons hr.shows .nil)

/-- With one part more the job waits as before. -/
theorem Rendering.waits (hr : p.Rendering w batch paths plan r.memory m j)
    (h : p.Waits arrived r j) (hclaims : r'.memory.ledger.claims = m.ledger.claims)
    (hadds : r.Adds r' [plan] [p.address batch.batch] []) :
    p.Waits (arrived ++ [batch.batch]) r' (j.withOutput (p.output batch.batch)) := by
  refine ⟨h.status, h.video, h.joiner, hclaims.trans (hr.stores.claims.trans h.claims), ?_, ?_, ?_⟩
  · rw [hadds.renders]
    exact hr.shows_append h
  · rw [hadds.uploads, h.uploads, List.map_append]
    rfl
  · rw [hadds.downloads, h.downloads]
    rfl

/-- With the last part and the join the job is done. -/
theorem Rendering.joined {joined final : RenderPlan α}
    (hr : p.Rendering w batch paths plan r.memory m j) (h : p.Waits arrived r j)
    (hlength : (arrived ++ [batch.batch]).length = p.count)
    (hclaims : r'.memory.ledger.claims = m.ledger.claims + 1) (hjoins : p.Joins joined)
    (haudio : final.audio.isSome = true)
    (hadds : r.Adds r' [plan, joined, final] [p.address batch.batch, p.video]
      ((List.range' 1 p.count).map p.address)) :
    p.Joined (arrived ++ [batch.batch]) r' (((j.withOutput (p.output batch.batch)).withJoiner
      batch.batch).withStatus .processed (some p.video)) := by
  refine ⟨rfl, rfl, List.getLast?_concat.symm, ?_,
    ⟨r.renders ++ [plan], joined, final, ?_, hr.shows_append h, hjoins, haudio⟩, ?_, ?_, ?_⟩
  · rw [hclaims, hr.stores.claims, h.claims]
  · rw [hadds.renders, List.append_assoc]
    rfl
  · rw [hadds.renders, List.length_append, ← h.renders.length_eq, ← hlength, List.length_append]
    rfl
  · rw [hadds.uploads, h.uploads, List.map_append, List.append_assoc]
    rfl
  · rw [hadds.downloads, h.downloads]
    rfl

/-- A batch that has not arrived before is rendered, whatever comes of it. -/
theorem Rendering.leads_approach (hr : p.Rendering w batch paths plan r.memory m j)
    (h : p.Kept arrived r j) (hnew : batch.batch ∉ arrived) {t : List (WorkerExchange α)}
    {next : Option JobRecord}
    (ht : (Worker.takeOver batch.jobId batch.batch).run.Leads t (.done (.ok next))) :
    (Worker.approach w batch).run.Leads
      (loaded batch.jobId j ::
        (Worker.rendering w batch paths plan (p.address batch.batch) ++ t)) (.done (.ok next)) := by
  refine Worker.leads_approach_of_missing h.status_ne_failed ?_
    (Worker.leads_renderPart hr.plan_eq _) ht
  rw [Bool.eq_false_iff, Ne, h.reports.hasReceived_iff]
  exact hnew

theorem Rendering.exists_waits (hr : p.Rendering w batch paths plan r.memory m j)
    (h : p.Kept arrived r j) (hnew : batch.batch ∉ arrived)
    (hlacks : p.Lacks (arrived ++ [batch.batch])) :
    ∃ r', Rehearsal.deliver p.limits w p.surroundings .quiet (.renderBatch batch) r =
        (.ok (), r') ∧
      p.Kept (arrived ++ [batch.batch]) r' (j.withOutput (p.output batch.batch)) := by
  have hreports := hr.reports h hnew
  have hexpected : (j.withOutput (p.output batch.batch)).expectedBatches = p.count :=
    (j.expectedBatches_withOutput _).trans h.expected
  have howned : (j.withOutput (p.output batch.batch)).joinOwnedBy batch.batch = false :=
    h.joinOwnedBy_eq_false batch.batch
  have hready : (j.withOutput (p.output batch.batch)).readyToJoin = false := by
    rw [Bool.eq_false_iff, Ne, hreports.readyToJoin_iff hexpected]
    exact fun hready => hready.2 hlacks
  have hfirst := remembered_load_of_mem hr.mem h.known
  have hlast := remembered_load_of_mem hr.mem hr.stores.known
  obtain ⟨r', hrun, hmemory, hcalls⟩ := Rehearsal.deliver_of_leads p.fetches
    (Worker.leads_handle_of_none
      (hr.leads_approach h hnew (Worker.leads_takeOver_of_waiting howned hready)))
    (.cons hfirst (hr.allowed.append (.cons hlast (.nil _))))
  have hadds : r.Adds r' [plan] [p.address batch.batch] [] := by
    have hadds := Rehearsal.adds_of_calls hcalls
    simpa [Worker.rendering, listed, rendered?, uploaded?, downloaded?, Function.comp_def,
      List.filterMap_cons, address_of_mem hr.mem] using hadds
  have hproduced := hr.produced h hadds.calls
    ⟨r.calls ++ [store (.load batch.jobId)], [store (.load batch.jobId)], by simp [hcalls, listed]⟩
  have hclaims : r'.memory.ledger.claims = m.ledger.claims := by rw [hmemory]
  have hstill := hr.waits (h.waits_of_not_mem hr.mem hnew) hclaims hadds
  refine ⟨r', hrun, ?_, hexpected, hreports, ?_, hproduced, ?_, fun _ => hstill,
    fun hall => (hall hlacks).elim⟩
  · rw [hmemory]
    exact hr.stores.known
  · rw [hmemory]
    exact hr.stores.dispatched ▸ h.dispatched
  · rw [hmemory]
    exact hr.stored h

theorem Rendering.exists_joined (hr : p.Rendering w batch paths plan r.memory m j)
    (h : p.Kept arrived r j) (hnew : batch.batch ∉ arrived)
    (hw : ∀ n, 0 < n → w.choose n < n) (hall : ¬ p.Lacks (arrived ++ [batch.batch])) :
    ∃ r' j', Rehearsal.deliver p.limits w p.surroundings .quiet (.renderBatch batch) r =
        (.ok (), r') ∧ p.Kept (arrived ++ [batch.batch]) r' j' := by
  have hwaits := h.waits_of_not_mem hr.mem hnew
  have hreports := hr.reports h hnew
  have hexpected : (j.withOutput (p.output batch.batch)).expectedBatches = p.count :=
    (j.expectedBatches_withOutput _).trans h.expected
  have hopen : (j.withOutput (p.output batch.batch)).status = .processing := hwaits.status
  have howned : (j.withOutput (p.output batch.batch)).joinOwnedBy batch.batch = false :=
    h.joinOwnedBy_eq_false batch.batch
  have hready : (j.withOutput (p.output batch.batch)).readyToJoin = true :=
    (hreports.readyToJoin_iff hexpected).mpr ⟨hopen, hall⟩
  have hfirst := remembered_load_of_mem hr.mem h.known
  have hlast := remembered_load_of_mem hr.mem hr.stores.known
  obtain ⟨ledger, hclaim, hknown, hclaims⟩ := remembered_claimJoin (s := p.surroundings)
    (jobId_of_mem hr.mem ▸ hr.stores.known) hopen batch.batch
  have hparts : ∀ b ∈ List.range' 1 p.count, (m.objects.lookup (p.address b)).isSome = true :=
    fun b hb => hr.stored h b (mem_of_not_lacks hall hb)
  obtain ⟨t, joined, final, m', hjoin, hallowed, hstores, hjoins, haudio, hrenders, huploads,
      hdownloads⟩ := exists_joining (m := { m with ledger }) hw
    (Ledger.id_of_get? hr.stores.known) (hreports.orderedOutputs_eq hall) hparts
    (jobId_of_mem hr.mem ▸ hknown)
  obtain ⟨r', hrun, hmemory, hcalls⟩ := Rehearsal.deliver_of_leads p.fetches
    (Worker.leads_handle_of_joined
      (hr.leads_approach h hnew (Worker.leads_takeOver_of_ready howned hready)) hjoin)
    (System.Allowed.append (.cons hfirst (hr.allowed.append (.cons hlast (.cons hclaim (.nil _)))))
      hallowed)
  have hadds : r.Adds r' [plan, joined, final] [p.address batch.batch, p.video]
      ((List.range' 1 p.count).map p.address) := by
    have hadds := Rehearsal.adds_of_calls hcalls
    simpa [Worker.rendering, listed, rendered?, uploaded?, downloaded?, Function.comp_def,
      List.filterMap_cons, address_of_mem hr.mem, hrenders, huploads, hdownloads] using hadds
  have hproduced := hr.produced h hadds.calls
    ⟨r.calls ++ [store (.load batch.jobId)],
      store (.load batch.jobId) :: store (.claimJoin batch.jobId batch.batch) :: listing t,
      by simp [hcalls, listed]⟩
  let done := ((j.withOutput (p.output batch.batch)).withJoiner batch.batch).withStatus
    .processed (some p.video)
  have hdone : p.Joined (arrived ++ [batch.batch]) r' done := by
    refine hr.joined hwaits (hreports.length_eq hall) ?_ hjoins haudio hadds
    rw [hmemory]
    exact hstores.claims.trans hclaims
  refine ⟨r', done, hrun, ?_, hexpected, hreports.of_outputs rfl, ?_, hproduced, ?_,
    fun hlacks => (hall hlacks).elim, fun _ => hdone⟩
  · rw [hmemory]
    exact hstores.known
  · rw [hmemory]
    exact (hstores.dispatched.trans hr.stores.dispatched) ▸ h.dispatched
  · rw [hmemory]
    exact fun b hb => hstores.isSome (.inr (hr.stored h b hb))

end Arrival

/-! ## Series -/

/-- The batches that have arrived once a message has. -/
def arrive (arrived : List ℕ) : QueueJob α → List ℕ
  | .createVideo _ => arrived
  | .renderBatch batch =>
    if batch.batch ∈ arrived then arrived else arrived ++ [batch.batch]

theorem arrivals_concat (ds : List p.Delivery) (d : p.Delivery) :
    arrivals (ds ++ [d]) = arrive (arrivals ds) d.job := by
  simp only [arrivals, List.filterMap_append, List.eraseDups_append]
  generalize ds.filterMap (fun d => d.job.batch) = batches
  cases hjob : d.job with
  | createVideo request => simp [arrive, hjob, QueueJob.batch]
  | renderBatch batch =>
      by_cases hold : batch.batch ∈ batches
      · simp [arrive, hjob, QueueJob.batch, List.removeAll, hold]
      · simp [arrive, hjob, QueueJob.batch, List.removeAll, hold, List.eraseDups_cons]

theorem Kept.exists_deliver (h : p.Kept arrived r j) (hp : p.Plannable) (d : p.Delivery) :
    ∃ r' j', p.deliver d r = (.ok (), r') ∧ p.Kept (arrive arrived d.job) r' j' := by
  obtain ⟨w, job, hw, rfl | ⟨batch, hbatch, rfl⟩⟩ := d
  · exact h.exists_createVideo w
  · by_cases hold : batch.batch ∈ arrived
    · rw [arrive, if_pos hold]
      obtain ⟨r', hrun, hkept⟩ := h.exists_again w hbatch hold
      exact ⟨r', j, hrun, hkept⟩
    · rw [arrive, if_neg hold]
      obtain ⟨paths, plan, m, hr⟩ := exists_rendering hp w hbatch h.known
      by_cases hlacks : p.Lacks (arrived ++ [batch.batch])
      · obtain ⟨r', hrun, hkept⟩ := hr.exists_waits h hold hlacks
        exact ⟨r', _, hrun, hkept⟩
      · exact hr.exists_joined h hold hw hlacks

theorem deliverAll_cons {d : p.Delivery} {result : Except WorkerError Unit}
    (h : p.deliver d r = (result, r')) (ds : List p.Delivery) :
    p.deliverAll (d :: ds) r = (result :: (p.deliverAll ds r').1, (p.deliverAll ds r').2) := by
  simp only [deliverAll, List.mapM_cons, bind, StateT.bind, h]
  rfl

theorem Kept.exists_deliverAll {before : List p.Delivery} (h : p.Kept (arrivals before) r j)
    (hp : p.Plannable) (ds : List p.Delivery) :
    ∃ r' j', p.deliverAll ds r = (List.replicate ds.length (.ok ()), r') ∧
      p.Kept (arrivals (before ++ ds)) r' j' := by
  induction ds generalizing before r j with
  | nil =>
      rw [List.append_nil]
      exact ⟨r, j, rfl, h⟩
  | cons d rest ih =>
      obtain ⟨r₁, j₁, hrun, hkept⟩ := h.exists_deliver hp d
      rw [← arrivals_concat] at hkept
      obtain ⟨r₂, j₂, hrest, hkept⟩ := ih hkept
      refine ⟨r₂, j₂, ?_, List.append_cons before d rest ▸ hkept⟩
      rw [deliverAll_cons hrun, hrest]
      rfl

theorem address_injective (p : SplitRequest α) : Function.Injective p.address := by
  intro b b' h
  have hnumber : b.repr = b'.repr := by simpa [address, Memory.address] using h
  exact Decimal.toDigits_inj (String.ofList_injective hnumber)

theorem Kept.nodup_uploads (h : p.Kept arrived r j) : r.uploads.Nodup := by
  have hparts : (arrived.map p.address).Nodup := h.reports.nodup.map p.address_injective
  by_cases hlacks : p.Lacks arrived
  · rwa [(h.waits hlacks).uploads]
  · rw [(h.joined hlacks).uploads, ← List.concat_eq_append]
    refine hparts.concat fun hvideo => ?_
    obtain ⟨b, -, hb⟩ := List.mem_map.mp hvideo
    simp [address, video, Memory.address, Blob.finalSegment] at hb

/-- In a series that starts with the message of the request, each piece of work is done once: after
any number of deliveries, the record, the journal and the storage have what the batches that have
arrived account for. -/
theorem exists_kept_series {p : SplitRequest Float} {r : Rehearsal Float}
    (hr : r.Ready p.request.jobId) {first : p.Delivery}
    (hfirst : first.job = .createVideo p.request) (ds : List p.Delivery) :
    ∃ r' j, p.deliverAll (first :: ds) r = (List.replicate (ds.length + 1) (.ok ()), r') ∧
      p.Kept (arrivals (first :: ds)) r' j ∧ r'.uploads.Nodup := by
  obtain ⟨r₁, j₁, hrun, hkept⟩ := p.exists_kept_nil first.place hr
  have hdeliver : p.deliver first r = (.ok (), r₁) := by
    rw [deliver, hfirst]
    exact hrun
  have hbefore : p.Kept (arrivals [first]) r₁ j₁ := by
    simpa [arrivals, hfirst, QueueJob.batch] using hkept
  obtain ⟨r₂, j₂, hrest, hkept⟩ := hbefore.exists_deliverAll
    (p.plannable_of_double fun x => Scalar.float_mul_comm _ x) ds
  refine ⟨r₂, j₂, ?_, hkept, hkept.nodup_uploads⟩
  rw [deliverAll_cons hdeliver, hrest]
  rfl

/-- Three slides in batches of two, and a loop. -/
def three : SplitRequest Float where
  request := ⟨"three", ["https://h/1", "https://h/2", "https://h/3"], .standard⟩
  limits := ⟨2, 30⟩
  surroundings :=
    { invalid := [], failing := [], catalog := some ⟨[⟨"https://h/loop", 1, .loop⟩]⟩
      rendererFails := false, joinedDuration := 9, frame := (640, 480) }
  splittable := ⟨by decide +kernel, rfl⟩
  one_le_batchSize := by decide
  large := by decide
  few := by decide
  fetches := rfl
  renders := rfl
  tracks := by
    refine ⟨_, rfl, fun target => ?_⟩
    have hlong : Scalar.atMost (1 : Float) (Scalar.ofNat 0) = false := by decide +kernel
    simp [AudioCatalog.eligible, AudioTrack.isEligible, hlong]

/-- Their job was just accepted. -/
def threeReady : Rehearsal Float := { memory := { ledger := ⟨[.fresh "three" ⟨0, 0⟩], 0⟩ } }

/-- A message, delivered where the first track is chosen. -/
def threeDelivery (job : QueueJob Float)
    (h : job = .createVideo three.request ∨ ∃ b ∈ three.batches, job = .renderBatch b) :
    three.Delivery :=
  ⟨⟨"/tmp", fun _ => 0, []⟩, job, fun _ h => h, h⟩

def threeRequest : three.Delivery := threeDelivery (.createVideo three.request) (.inl rfl)

def threeBatch (i : Fin three.batches.length) : three.Delivery :=
  threeDelivery (.renderBatch three.batches[i]) (.inr ⟨_, List.getElem_mem i.2, rfl⟩)

/-- The second batch comes first, then the request again, the first batch, and the second again. -/
def threeSeries : List three.Delivery :=
  [threeBatch ⟨1, by decide +kernel⟩, threeRequest, threeBatch ⟨0, by decide +kernel⟩,
    threeBatch ⟨1, by decide +kernel⟩]

theorem exists_kept_series_three :
    threeReady.Ready three.request.jobId ∧ threeRequest.job = .createVideo three.request ∧
    arrivals (threeRequest :: threeSeries) = [2, 1] ∧ three.count = 2 ∧
    ∃ r' j, three.deliverAll (threeRequest :: threeSeries) threeReady =
        (List.replicate (threeSeries.length + 1) (.ok ()), r') ∧
      three.Kept (arrivals (threeRequest :: threeSeries)) r' j ∧ r'.uploads.Nodup := by
  have hready : threeReady.Ready three.request.jobId := ⟨⟨_, rfl⟩, rfl, rfl, rfl⟩
  exact ⟨hready, rfl, by decide +kernel, by decide +kernel,
    exists_kept_series hready rfl threeSeries⟩

end SplitRequest

end Slideshow
