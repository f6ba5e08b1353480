import Slideshow.Proofs.Program.System
import Slideshow.Proofs.Job.Outputs
import Slideshow.Proofs.Worker.Batch
import Slideshow.Proofs.Worker.Surroundings

/-! # Deliveries of the batches of one job

Any number of workers handle the batches of one job, each of their calls being one step. What they
keep true of its record is collected in `SplitJob.Sane`, and what an earlier answer still tells
about the record in the lemmas on `Exchange.Happened`. -/

namespace Slideshow

variable {α : Type}

/-! ## A job and its messages -/

/-- A job that was split into batches, numbered from one on. -/
structure SplitJob (α : Type) where
  id : JobId
  count : ℕ
  count_pos : 0 < count
  part : ℕ → BatchJob α
  part_jobId : ∀ b, (part b).jobId = id
  part_batch : ∀ b, (part b).batch = b

namespace SplitJob

attribute [simp] part_jobId part_batch

/-- The message of a batch, and what its delivery brings along. -/
structure Message (job : SplitJob α) where
  number : ℕ
  one_le : 1 ≤ number
  le_count : number ≤ job.count
  place : Workplace

variable (job : SplitJob α)

/-- What a worker does when a batch is delivered. -/
def deliver [Scalar α] (limits : WorkerLimits) (m : job.Message) :
    Program (WorkerCall.Answer (α := α)) (Except WorkerError Unit) :=
  Worker.handle limits m.place (.renderBatch (job.part m.number))

/-- A message is not delivered again as long as a delivery of it is in flight. -/
def OneByOne [Scalar α] {limits : WorkerLimits} (s : System (job.deliver limits) Ledger)
    (m : job.Message) : Prop :=
  ∀ d ∈ s.attempts, d.message.number = m.number → ¬ d.InFlight

/-- The number of batches is recorded, and none of them has been delivered. -/
def Dispatched (l : Ledger) : Prop :=
  ∃ r, l.get? job.id = some r ∧ r.status = .processing ∧ r.batches = some ⟨job.count, []⟩

/-- What is true of the record at all times: every output is that of a batch of the job, none is
recorded twice, and all of them are there when the batches are joined. -/
structure Fits (r : JobRecord) : Prop where
  expected_eq : r.expectedBatches = job.count
  numbered : r.Numbered job.count
  nodup : r.outputs.Nodup
  complete : r.status = .joining → r.Complete job.count

/-- The ledger has the record `r`, and at most one more claim than the `claims` of before. -/
structure Sane (claims : ℕ) (l : Ledger) (r : JobRecord) : Prop where
  known : l.get? job.id = some r
  fits : job.Fits r
  unclaimed : r.status = .processing → l.claims = claims
  claimed : r.status ≠ .processing → l.claims = claims ∨ l.claims = claims + 1 ∧ r.joiner.isSome

/-- The record has only evolved, and once the job was not open there was no other claim. -/
def Evolves (l l' : Ledger) : Prop :=
  ∀ r, l.get? job.id = some r → ∃ r', l'.get? job.id = some r' ∧ r.Evolves r' ∧
    (r.status ≠ .processing → l'.claims = l.claims)

variable {job}

theorem Dispatched.sane {l : Ledger} (h : job.Dispatched l) : ∃ r, job.Sane l.claims l r := by
  obtain ⟨r, hknown, hopen, hbatches⟩ := h
  have houtputs : r.outputs = [] := by simp [JobRecord.outputs, hbatches]
  refine ⟨r, hknown, ⟨?_, ?_, ?_, ?_⟩, fun _ => rfl, fun h => (h hopen).elim⟩
  · simp [JobRecord.expectedBatches, hbatches]
  · simp [JobRecord.Numbered, houtputs]
  · simp [houtputs]
  · simp [hopen]

theorem Evolves.refl (l : Ledger) : job.Evolves l l :=
  fun r h => ⟨r, h, .refl r, fun _ => rfl⟩

theorem Evolves.trans {l l' l'' : Ledger} (h : job.Evolves l l') (h' : job.Evolves l' l'') :
    job.Evolves l l'' := by
  intro r hr
  obtain ⟨r', hr', hevolves, hclaims⟩ := h r hr
  obtain ⟨r'', hr'', hevolves', hclaims'⟩ := h' r' hr'
  refine ⟨r'', hr'', hevolves.trans hevolves', fun hclosed => ?_⟩
  rw [hclaims' (hclosed ∘ hevolves.was_open), hclaims hclosed]

/-! ## What an answer still tells -/

section Happened

open WorkerExchange

variable {answers : (c : WorkerCall α) → Ledger → c.Answer → Ledger → Prop}
  (hatomic : ∀ {c l a l'}, answers c l a l' → WorkerCall.Atomic c l a l') {claims : ℕ}
  {l : Ledger} {now : JobRecord}

variable (job answers claims) in
/-- The exchange took place, and the record of the job has only evolved since. -/
abbrev Happened (e : WorkerExchange α) (l : Ledger) : Prop :=
  e.Happened answers (fun l => ∃ r, job.Sane claims l r) job.Evolves l

include hatomic

/-- A call that was answered well concerned an earlier record, and the record has evolved from what
the call made of it. -/
theorem Happened.store {c : StoreCall} {reply : c.Reply} (hc : c.jobId = job.id)
    (h : job.Happened answers claims ⟨.store c, .ok reply⟩ l) (hnow : l.get? job.id = some now) :
    ∃ before r, job.Sane claims before r ∧ reply = c.reply r ∧ (c.change r).Evolves now := by
  obtain ⟨before, after, ⟨r, hsane⟩, ha, hafter⟩ := h
  obtain ⟨l', hanswer, hknown, -⟩ := Ledger.answer_of_get? (hc ▸ hsane.known)
  rcases hatomic ha with htold | ⟨⟨e, he⟩, -⟩
  · obtain ⟨hreply, rfl⟩ := Prod.mk.inj (htold.trans hanswer)
    obtain ⟨r', hr', hevolves, -⟩ := hafter _ (hc ▸ hknown)
    cases hnow.symm.trans hr'
    exact ⟨before, r, hsane, Except.ok.inj hreply, hevolves⟩
  · cases he

theorem Happened.loaded {r : JobRecord} (h : job.Happened answers claims (loaded job.id r) l)
    (hnow : l.get? job.id = some now) :
    (∃ before, job.Sane claims before r) ∧ r.Evolves now := by
  obtain ⟨before, r', hsane, hreply, hevolves⟩ := h.store hatomic rfl hnow
  cases hreply
  exact ⟨⟨before, hsane⟩, hevolves⟩

theorem Happened.appended {output : BatchOutput}
    (h : job.Happened answers claims (appended job.id output) l)
    (hnow : l.get? job.id = some now) : output ∈ now.outputs := by
  obtain ⟨_, r, -, -, hevolves⟩ := h.store hatomic rfl hnow
  refine hevolves.outputs_prefix.subset ?_
  simp only [StoreCall.change, JobRecord.outputs_withOutput]
  split
  · assumption
  · exact List.mem_concat_self

/-- A claim leaves the job closed, and the batch owns the join if it was told so. -/
theorem Happened.claimed {b : ℕ} {won : Bool}
    (h : job.Happened answers claims (claimed job.id b won) l)
    (hnow : l.get? job.id = some now) :
    ∃ r : JobRecord, r.status ≠ .processing ∧ r.joinOwnedBy b = won ∧ r.Evolves now := by
  obtain ⟨_, r, -, rfl, hevolves⟩ := h.store hatomic rfl hnow
  exact ⟨_, StoreCall.closed_claimJoin _ _ r, StoreCall.joinOwnedBy_claimJoin _ _ r, hevolves⟩

theorem Happened.ended {c : StoreCall} {reply : c.Reply} (hc : c.jobId = job.id)
    (hends : ∀ r, (c.change r).status.isTerminal = true)
    (h : job.Happened answers claims ⟨.store c, .ok reply⟩ l) (hnow : l.get? job.id = some now) :
    now.status.isTerminal = true := by
  obtain ⟨_, r, -, -, hevolves⟩ := h.store hatomic hc hnow
  exact hevolves.stays_ended (hends r)

end Happened

/-! ## Every call keeps the record sane -/

/-- What the record must be like for a call of a batch: an output is that of a batch of the job, and
the join is asked for when all batches have reported. -/
def Allows (r : JobRecord) : StoreCall → Prop
  | .appendOutput _ output => 1 ≤ output.batch ∧ output.batch ≤ job.count
  | .claimJoin _ _ => r.Complete job.count
  | c => c.OfBatch

theorem Allows.ofBatch {r : JobRecord} {c : StoreCall} (h : job.Allows r c) : c.OfBatch := by
  cases c with
  | appendOutput _ _ | claimJoin _ _ => trivial
  | _ => exact h

theorem Fits.change {r : JobRecord} {c : StoreCall} (h : job.Fits r) (hc : job.Allows r c) :
    job.Fits (c.change r) := by
  cases c with
  | load id => exact h
  | setBatchCount id count => exact hc.elim
  | setStatus id status video =>
      cases hc
      exact ⟨h.expected_eq, h.numbered, h.nodup, fun h => nomatch h⟩
  | markFailed id reason => exact ⟨h.expected_eq, h.numbered, h.nodup, fun h => nomatch h⟩
  | claimJoin id b =>
      simp only [StoreCall.change]
      split
      · exact ⟨h.expected_eq, h.numbered, h.nodup, fun _ => hc⟩
      · exact h
  | appendOutput id output =>
      have hevolves := StoreCall.evolves_change (c := .appendOutput id output) trivial r
      refine ⟨hevolves.expected_eq.trans h.expected_eq, ?_, ?_,
        fun hjoining b hb hbn => hevolves.hasReceived (h.complete hjoining b hb hbn)⟩
      · intro x hx
        rcases StoreCall.mem_outputs_change hx with hx | ⟨_, heq⟩
        · exact h.numbered x hx
        · cases heq
          exact hc
      · rw [StoreCall.change, JobRecord.outputs_withOutput]
        split
        · exact h.nodup
        · rename_i hnew
          exact h.nodup.append (List.nodup_singleton _) (by simpa using hnew)

theorem Sane.change {claims : ℕ} {l l' : Ledger} {r : JobRecord} {c : StoreCall}
    (h : job.Sane claims l r) (hc : job.Allows r c)
    (hknown : l'.get? job.id = some (c.change r))
    (hclaims : l'.claims = l.claims + (c.swaps r).toNat) : job.Sane claims l' (c.change r) := by
  have hevolves := StoreCall.evolves_change hc.ofBatch r
  refine ⟨hknown, h.fits.change hc, ?_, ?_⟩
  · intro hopen
    have hswaps := StoreCall.swaps_eq_false (.inr hopen)
    simpa [hclaims, hswaps] using h.unclaimed (hevolves.was_open hopen)
  · intro _
    cases hswaps : c.swaps r with
    | true =>
        obtain ⟨hopen, -, hjoiner⟩ := StoreCall.of_swaps hswaps
        refine .inr ⟨?_, hjoiner⟩
        simpa [hclaims, hswaps] using h.unclaimed hopen
    | false =>
        by_cases hopen : r.status = .processing
        · exact .inl (by simpa [hclaims, hswaps] using h.unclaimed hopen)
        · rw [hevolves.joiner_eq hopen, hclaims, hswaps]
          exact h.claimed hopen

section Discipline

open WorkerExchange

variable {answers : (c : WorkerCall α) → Ledger → c.Answer → Ledger → Prop}
  (hatomic : ∀ {c l a l'}, answers c l a l' → WorkerCall.Atomic c l a l') {claims : ℕ}
  {l l' : Ledger} {r : JobRecord}

include hatomic

/-- What a delivery was told makes its calls fit the record. -/
theorem allows_of_issues {b : ℕ} {t : List (WorkerExchange α)} {c : StoreCall} (hpos : 1 ≤ b)
    (hle : b ≤ job.count) (hissues : (job.part b).Issues t (.store c))
    (htold : ∀ e ∈ t, job.Happened answers claims e l) (hr : job.Sane claims l r) :
    c.jobId = job.id ∧ job.Allows r c := by
  cases c with
  | load id => exact ⟨hissues.trans (job.part_jobId b), trivial⟩
  | markFailed id reason => exact ⟨hissues.trans (job.part_jobId b), trivial⟩
  | setBatchCount id count => exact hissues.elim
  | setStatus id status video =>
      obtain ⟨hstatus, r', hr', rfl⟩ := hissues
      rw [part_jobId] at hr'
      obtain ⟨⟨_, hr'⟩, -⟩ := Happened.loaded hatomic (htold _ hr') hr.known
      exact ⟨Ledger.id_of_get? hr'.known, hstatus⟩
  | appendOutput id output =>
      obtain ⟨hid, hbatch, -⟩ := hissues
      rw [part_batch] at hbatch
      exact ⟨hid.trans (job.part_jobId b), by rw [Allows, hbatch]; exact ⟨hpos, hle⟩⟩
  | claimJoin id number =>
      obtain ⟨hid, -, r', hr', hready⟩ := hissues
      rw [part_jobId] at hr'
      obtain ⟨⟨_, hr'⟩, hevolves⟩ := Happened.loaded hatomic (htold _ hr') hr.known
      rw [hr'.fits.numbered.readyToJoin_iff hr'.fits.expected_eq job.count_pos] at hready
      refine ⟨hid.trans (job.part_jobId b), ?_⟩
      exact fun k hk hkn => hevolves.hasReceived (hready.2 k hk hkn)

variable [Scalar α] {limits : WorkerLimits}

theorem store_cases {m : job.Message} {t : List (WorkerExchange α)} {c : StoreCall}
    {next : c.Answer → Program WorkerCall.Answer (Except WorkerError Unit)} {a : c.Answer}
    (hleads : (job.deliver limits m).Leads t (.call (.store c) next))
    (hr : job.Sane claims l r) (htold : ∀ e ∈ t, job.Happened answers claims e l)
    (ha : answers (.store c) l a l') :
    (job.part m.number).Issues t (.store c) ∧ job.Allows r c ∧
      (l' = l ∨
        l'.get? job.id = some (c.change r) ∧ l'.claims = l.claims + (c.swaps r).toNat) := by
  have hissues := (Worker.meets_handle limits m.place (job.part m.number)).issues_of_leads hleads
  obtain ⟨hid, hallows⟩ := allows_of_issues hatomic m.one_le m.le_count hissues htold hr
  refine ⟨hissues, hallows, ?_⟩
  rw [← hid]
  exact StoreCall.Answered.changes (hatomic ha) (hid ▸ hr.known)

/-- Every call of every delivery keeps the record sane and lets it evolve. -/
theorem sane_step {m : job.Message} {t : List (WorkerExchange α)} {c : WorkerCall α}
    {next : c.Answer → Program WorkerCall.Answer (Except WorkerError Unit)} {a : c.Answer}
    (hleads : (job.deliver limits m).Leads t (.call c next))
    (hl : ∃ r, job.Sane claims l r) (htold : ∀ e ∈ t, job.Happened answers claims e l)
    (ha : answers c l a l') : (∃ r, job.Sane claims l' r) ∧ job.Evolves l l' := by
  have hsame : l' = l → (∃ r, job.Sane claims l' r) ∧ job.Evolves l l' := by
    rintro rfl
    exact ⟨hl, .refl _⟩
  cases c with
  | store c =>
      obtain ⟨r, hr⟩ := hl
      obtain ⟨-, hallows, rfl | ⟨hknown, hclaims⟩⟩ := store_cases hatomic hleads hr htold ha
      · exact hsame rfl
      · refine ⟨⟨_, hr.change hallows hknown hclaims⟩, fun r' hr' => ?_⟩
        cases hr.known.symm.trans hr'
        refine ⟨_, hknown, StoreCall.evolves_change hallows.ofBatch r, fun hclosed => ?_⟩
        simp [hclaims, StoreCall.swaps_eq_false (.inl hclosed)]
  | _ => exact hsame (hatomic ha)

end Discipline

/-- The rules that all deliveries of the batches of a job keep. -/
def discipline [Scalar α] (job : SplitJob α) (limits : WorkerLimits)
    {answers : (c : WorkerCall α) → Ledger → c.Answer → Ledger → Prop}
    (hatomic : ∀ {c l a l'}, answers c l a l' → WorkerCall.Atomic c l a l') (claims : ℕ) :
    Discipline (job.deliver limits) answers where
  Holds l := ∃ r, job.Sane claims l r
  Evolves := job.Evolves
  refl := .refl
  trans := .trans
  step := sane_step hatomic

/-! ## Deliveries that join -/

variable [Scalar α] {job : SplitJob α} {limits : WorkerLimits}

/-- The delivery has begun to join: its approach ended on the record `r`. -/
def StartsJoin (d : Attempt (job.deliver limits)) (r : JobRecord) : Prop :=
  ∃ t, t <+: d.trace ∧
    (Worker.approach d.message.place (job.part d.message.number)).run.Leads t (.done (.ok (some r)))

/-- The delivery is in the middle of joining: it waits for the answer to a call of its join. -/
def InJoin (d : Attempt (job.deliver limits)) : Prop :=
  d.crashed = false ∧ ∃ r t u request next, d.trace = t ++ u ∧
    (Worker.approach d.message.place (job.part d.message.number)).run.Leads t
      (.done (.ok (some r))) ∧
    (Worker.join d.message.place r).run.Leads u (.call request next)

theorem InJoin.startsJoin {d : Attempt (job.deliver limits)} (h : InJoin d) :
    ∃ r, StartsJoin d r := by
  obtain ⟨-, r, t, u, request, next, htrace, happroach, -⟩ := h
  exact ⟨r, t, ⟨u, htrace.symm⟩, happroach⟩

theorem StartsJoin.joins {d : Attempt (job.deliver limits)} {r : JobRecord}
    (h : StartsJoin d r) : (job.part d.message.number).Joins d.trace r := by
  obtain ⟨t, hgrown, hleads⟩ := h
  obtain ⟨hloaded, howner⟩ := (Worker.meets_approach d.message.place
    (job.part d.message.number)).ends_of_leads hleads
  refine ⟨hgrown.subset hloaded, howner.imp_right fun h => ⟨h.1, hgrown.subset h.2⟩⟩

theorem InJoin.inFlight {d : Attempt (job.deliver limits)} (h : InJoin d) : d.InFlight := by
  obtain ⟨hcrashed, r, t, u, request, next, htrace, happroach, hjoin⟩ := h
  obtain ⟨next', hleads⟩ := Worker.leads_handle_of_some limits happroach hjoin
  exact ⟨hcrashed, request, next', d.leads.eq (htrace ▸ hleads)⟩

/-- A delivery whose approach ends on a record gets to join it. -/
theorem exists_reaches_inJoin
    {answers : (c : WorkerCall α) → Ledger → c.Answer → Ledger → Prop}
    (admits : System (job.deliver limits) Ledger → job.Message → Prop)
    {s : System (job.deliver limits) Ledger} {m : job.Message} {t : List (WorkerExchange α)}
    {l : Ledger} {r : JobRecord} (hm : admits s m) (ht : System.Allowed answers t s.shared l)
    (happroach : (Worker.approach m.place (job.part m.number)).run.Leads t (.done (.ok (some r))))
    (hr : r.orderedOutputs ≠ []) :
    ∃ d, System.Reaches answers admits s ⟨l, s.attempts ++ [d]⟩ ∧ d.message = m ∧ InJoin d := by
  obtain ⟨request, next, hjoin⟩ := Worker.join_eq_call (α := α) m.place hr
  have hleads : (Worker.join m.place r).run.Leads [] (.call request next) := hjoin ▸ .start _
  obtain ⟨next', hdeliver⟩ := Worker.leads_handle_of_some limits happroach hleads
  rw [List.append_nil] at hdeliver
  exact ⟨_, System.Reaches.deliver hm hdeliver ht, rfl, rfl, r, t, [], request, next,
    (List.append_nil t).symm, happroach, hleads⟩

end SplitJob

end Slideshow
