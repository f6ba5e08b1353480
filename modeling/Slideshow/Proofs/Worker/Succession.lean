import Slideshow.Proofs.Worker.Split

/-! # One delivery after another

Where nothing fails, the batches of a job may be delivered one by one, and the last of them joins
the job. -/

namespace Slideshow

open WorkerExchange

variable {α : Type} (address : JobId → String → String)

namespace SplitJob

variable (job : SplitJob α)

/-! ## The batches so far -/

/-- The job is open, and its first `k` batches have reported in order. -/
structure Reported (k : ℕ) (l : Ledger) (r : JobRecord) : Prop where
  known : l.get? job.id = some r
  isOpen : r.status = .processing
  expected_eq : r.expectedBatches = job.count
  batches_eq : r.outputs.map BatchOutput.batch = List.range' 1 k

namespace Reported

variable {job} {k : ℕ} {l l' : Ledger} {r : JobRecord}

theorem hasReceived_iff (h : job.Reported k l r) {b : ℕ} :
    r.hasReceived b = true ↔ 1 ≤ b ∧ b ≤ k := by
  rw [JobRecord.hasReceived_iff, h.batches_eq, List.mem_range'_1]
  omega

theorem not_hasReceived (h : job.Reported k l r) : r.hasReceived (k + 1) = false := by
  by_contra hreceived
  have := h.hasReceived_iff.mp (by simpa using hreceived)
  omega

theorem readyToJoin_iff (h : job.Reported k l r) (hk : k ≤ job.count) :
    r.readyToJoin = true ↔ k = job.count := by
  have hnumbered : r.Numbered job.count := by
    intro x hx
    have := h.hasReceived_iff.mp (JobRecord.hasReceived_of_mem hx)
    omega
  rw [hnumbered.readyToJoin_iff h.expected_eq job.count_pos]
  constructor
  · intro hready
    have := h.hasReceived_iff.mp (hready.2 job.count job.count_pos le_rfl)
    omega
  · rintro rfl
    exact ⟨h.isOpen, fun b hb hbn => h.hasReceived_iff.mpr ⟨hb, hbn⟩⟩

theorem not_joinOwnedBy (h : job.Reported k l r) (b : ℕ) : r.joinOwnedBy b = false := by
  simp [JobRecord.joinOwnedBy, h.isOpen]

theorem append (h : job.Reported k l r) {url : String}
    (hknown : l'.get? job.id = some (r.withOutput ⟨k + 1, url⟩)) :
    job.Reported (k + 1) l' (r.withOutput ⟨k + 1, url⟩) := by
  refine ⟨hknown, h.isOpen, (r.expectedBatches_withOutput _).trans h.expected_eq, ?_⟩
  have hnew : (⟨k + 1, url⟩ : BatchOutput) ∉ r.outputs := by
    intro hmem
    have hreceived := JobRecord.hasReceived_of_mem hmem
    rw [h.not_hasReceived] at hreceived
    cases hreceived
  rw [JobRecord.outputs_withOutput, if_neg hnew, List.map_append, h.batches_eq,
    List.range'_concat]
  simp [Nat.add_comm]

end Reported

/-! ## Delivering the batches one by one -/

variable [Scalar α] (limits : WorkerLimits) {job}

theorem Reported.exists_rendered {k : ℕ} {l : Ledger} {r : JobRecord} (h : job.Reported k l r)
    {w : Workplace} {paths : List String} {plan : RenderPlan α}
    (hplan : Worker.slideshowPlan paths (job.part (k + 1)).options w.words = .ok plan) :
    ∃ t l' r', job.Reported (k + 1) l' r' ∧
      System.Allowed (WorkerCall.Faultless address) t l l' ∧
      ∀ u q, (Worker.takeOver (α := α) job.id (k + 1)).run.Leads u q →
        (Worker.approach w (job.part (k + 1))).run.Leads (t ++ u) q := by
  let url := address job.id (job.part (k + 1)).segmentName
  obtain ⟨l₁, hload, hl₁⟩ := WorkerCall.exists_told (α := α) address
    (c := .load job.id) h.known
  obtain ⟨l₂, happend, hl₂⟩ := WorkerCall.exists_told (α := α) address
    (c := .appendOutput job.id ⟨k + 1, url⟩) hl₁
  refine ⟨loaded job.id r :: Worker.rendering w (job.part (k + 1)) paths plan url, l₂, _,
    h.append hl₂, ?_, fun u q hq => ?_⟩
  · simp only [Worker.rendering, part_jobId, part_batch]
    refine .cons hload (.cons ⟨rfl, trivial⟩ (.cons ⟨rfl, trivial⟩ (.cons ⟨rfl, ?_⟩ ?_)))
    · exact fun _ h => (Except.ok.inj h).symm
    · exact .cons happend (.nil _)
  · have hfailed : r.status ≠ .failed := by simp [h.isOpen]
    have hmissing := h.not_hasReceived
    rw [← job.part_batch (k + 1)] at hmissing
    have hrender := Worker.leads_renderPart hplan url
    have := Worker.leads_approach_of_missing (t := u) hfailed hmissing hrender
      (by simpa using hq)
    simpa using this

/-- All batches but the last may report, one after another. -/
theorem exists_reported {l : Ledger} (hl : job.Dispatched l) {w : Workplace}
    (hplan : ∀ b, ∃ paths plan,
      Worker.slideshowPlan paths (job.part b).options w.words = .ok plan)
    {k : ℕ} (hk : k < job.count) :
    ∃ (s : System (job.deliver limits) Ledger) (r : JobRecord),
      System.Reaches (WorkerCall.Faultless address) System.Idle ⟨l, []⟩ s ∧
        (∀ d ∈ s.attempts, ¬ d.InFlight) ∧ job.Reported k s.shared r := by
  induction k with
  | zero =>
      obtain ⟨r, hknown, hopen, hbatches⟩ := hl
      refine ⟨⟨l, []⟩, r, .refl, by simp, hknown, hopen, ?_, ?_⟩
      · simp [JobRecord.expectedBatches, hbatches]
      · simp [JobRecord.outputs, hbatches]
  | succ k ih =>
      obtain ⟨s, r, hreach, hidle, hreported⟩ := ih (by omega)
      obtain ⟨paths, plan, hplan⟩ := hplan (k + 1)
      obtain ⟨t, l', r', hreported', hallowed, hleads⟩ :=
        hreported.exists_rendered address hplan
      have hready : r'.readyToJoin = false := by
        by_contra hready
        have := (hreported'.readyToJoin_iff hk.le).mp (by simpa using hready)
        omega
      obtain ⟨l'', hload, hl''⟩ := WorkerCall.exists_told (α := α) address
        (c := .load job.id) hreported'.known
      have happroach := hleads _ _
        (Worker.leads_takeOver_of_waiting (hreported'.not_joinOwnedBy _) hready)
      let m : job.Message := ⟨k + 1, by omega, hk.le, w⟩
      have hdeliver : (job.deliver limits m).Leads (t ++ [loaded job.id r']) (.done (.ok ())) :=
        Worker.leads_handle_of_none happroach
      refine ⟨_, r', hreach.trans (System.Reaches.deliver hidle hdeliver
        (hallowed.append (.cons hload (.nil _)))), ?_, ?_⟩
      · intro d hd
        rcases List.mem_append.mp hd with hd | hd
        · exact hidle d hd
        · cases List.mem_singleton.mp hd
          exact Attempt.not_inFlight_of_done rfl
      · exact { hreported' with known := hl'' }

/-- Then the last batch has the join, if nothing fails. -/
theorem exists_inJoin {l : Ledger} (hl : job.Dispatched l) {w : Workplace}
    (hplan : ∀ b, ∃ paths plan,
      Worker.slideshowPlan paths (job.part b).options w.words = .ok plan) :
    ∃ (s : System (job.deliver limits) Ledger) (d : Attempt (job.deliver limits)) (r : JobRecord),
      System.Reaches (WorkerCall.Faultless address) System.Idle ⟨l, []⟩ s ∧ d ∈ s.attempts ∧
        InJoin d ∧ s.shared.get? job.id = some r ∧ r.status = .joining := by
  obtain ⟨k, hk⟩ := Nat.exists_eq_succ_of_ne_zero job.count_pos.ne'
  obtain ⟨s, r, hreach, hidle, hreported⟩ :=
    exists_reported address limits hl hplan (k := k) (by omega)
  obtain ⟨paths, plan, hplan⟩ := hplan (k + 1)
  obtain ⟨t, l', r', hreported', hallowed, hleads⟩ :=
    hreported.exists_rendered address hplan
  have hready := (hreported'.readyToJoin_iff hk.ge).mpr hk.symm
  obtain ⟨l₁, hload, hl₁⟩ := WorkerCall.exists_told (α := α) address
    (c := .load job.id) hreported'.known
  obtain ⟨l₂, hclaim, hl₂⟩ := WorkerCall.exists_told (α := α) address
    (c := .claimJoin job.id (k + 1)) hl₁
  have happroach := hleads _ _
    (Worker.leads_takeOver_of_ready (hreported'.not_joinOwnedBy _) hready)
  have hreply := StoreCall.reply_claimJoin job.id (k + 1) hreported'.isOpen
  have hcomplete : r'.Complete job.count := fun b hb hbn =>
    hreported'.hasReceived_iff.mpr ⟨hb, by omega⟩
  obtain ⟨d, hdeliver, -, hjoin⟩ := exists_reaches_inJoin System.Idle
    (m := ⟨k + 1, by omega, hk.ge, w⟩) hidle
    (hallowed.append (.cons hload (.cons (hreply ▸ hclaim) (.nil _)))) happroach
    (hcomplete.orderedOutputs_ne_nil job.count_pos)
  refine ⟨_, d, _, hreach.trans hdeliver, List.mem_concat_self, hjoin, hl₂, ?_⟩
  simp [StoreCall.change, hreported'.isOpen, JobRecord.withJoiner]

/-- When the message of the owner is delivered once more before the join is finished, that delivery
joins too. -/
theorem exists_inJoin_of_joining {s : System (job.deliver limits) Ledger} {r : JobRecord}
    (hknown : s.shared.get? job.id = some r) (hr : r.Complete job.count)
    (m : job.Message) (howned : r.joinOwnedBy m.number = true) :
    ∃ l d, System.Reaches (WorkerCall.Faultless address) (fun _ _ => True) s
        ⟨l, s.attempts ++ [d]⟩ ∧ d.message = m ∧ InJoin d := by
  obtain ⟨l₁, hload₁, hl₁⟩ := WorkerCall.exists_told (α := α) address
    (c := .load job.id) hknown
  obtain ⟨l₂, hload₂, -⟩ := WorkerCall.exists_told (α := α) address
    (c := .load job.id) hl₁
  have hfailed : r.status ≠ .failed := by
    intro hfailed
    simp [JobRecord.joinOwnedBy, hfailed] at howned
  have hreceived : r.hasReceived (job.part m.number).batch = true := by
    rw [part_batch]
    exact hr _ m.one_le m.le_count
  have hresume : (Worker.takeOver (job.part m.number).jobId (job.part m.number).batch).run.Leads
      [loaded job.id r] (.done (.ok (some r)) : Program (WorkerCall.Answer (α := α)) _) := by
    rw [part_jobId, part_batch]
    exact Worker.leads_takeOver_of_owned howned
  have happroach := Worker.leads_approach_of_received (w := m.place) hfailed hreceived hresume
  rw [part_jobId] at happroach
  obtain ⟨d, hdeliver, hd⟩ := exists_reaches_inJoin (fun _ _ => True) (s := s) trivial
    (.cons hload₁ (.cons hload₂ (.nil _))) happroach
    (hr.orderedOutputs_ne_nil job.count_pos)
  exact ⟨l₂, d, hdeliver, hd⟩

/-! ## A job of two batches -/

/-- Two batches of one slide each. -/
def pair : SplitJob Rat where
  id := "pair"
  count := 2
  count_pos := by decide
  part b := .ofRequest "pair" b ["https://example.com/slide.png"] .standard
  part_jobId _ := rfl
  part_batch _ := rfl

/-- The record of the job when both messages have been sent. -/
def pairRecord : JobRecord := { JobRecord.fresh "pair" ⟨0, 0⟩ with batches := some ⟨2, []⟩ }

theorem pair_dispatched : pair.Dispatched ⟨[pairRecord], 0⟩ :=
  ⟨pairRecord, by simp [Ledger.get?, pairRecord, JobRecord.fresh, pair], rfl, rfl⟩

theorem pair_planned (b : ℕ) : ∃ paths plan,
    Worker.slideshowPlan paths (pair.part b).options [] = .ok plan := by
  have hfirst : (Worker.slideshowPlan (α := Rat) ["slide"]
      { SceneOptions.standard with audio := false, batchContinuation := .initial }
      []).toOption.isSome = true := by decide +kernel
  have hother : (Worker.slideshowPlan (α := Rat) ["slide"]
      { SceneOptions.standard with audio := false, batchContinuation := .continuation }
      []).toOption.isSome = true := by decide +kernel
  refine ⟨["slide"], ?_⟩
  have hplan :
      (Worker.slideshowPlan ["slide"] (pair.part b).options []).toOption.isSome = true := by
    simp only [pair, BatchJob.ofRequest]
    split
    · exact hfirst
    · exact hother
  cases h : Worker.slideshowPlan ["slide"] (pair.part b).options [] with
  | ok plan => exact ⟨plan, rfl⟩
  | error e =>
      rw [h] at hplan
      cases hplan

/-- Both batches report, and the second has the join. -/
theorem exists_pair_inJoin :
    ∃ (s : System (pair.deliver ⟨5, 30⟩) Ledger) (d : Attempt (pair.deliver ⟨5, 30⟩))
      (r : JobRecord), System.Reaches (WorkerCall.Faultless address) System.Idle
        ⟨⟨[pairRecord], 0⟩, []⟩ s ∧ d ∈ s.attempts ∧ InJoin d ∧
        s.shared.get? pair.id = some r ∧ r.status = .joining :=
  exists_inJoin address ⟨5, 30⟩ pair_dispatched (w := ⟨"work", fun _ => 0, []⟩) pair_planned

end SplitJob

end Slideshow
