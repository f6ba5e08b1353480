import Slideshow.Proofs.Job.Outputs
import Slideshow.Proofs.Program.System
import Slideshow.Proofs.Worker.Request
import Slideshow.Proofs.Worker.Surroundings

/-! # Splitting a request again

The message of a request is delivered any number of times, also while batches of an earlier split
are queued or rendered, and every delivery may find other addresses valid. The queue takes a batch
once, but the number of batches that the record expects is that of the last split. The two agree
for good exactly if no valid addresses that may be found make another number of batches. -/

namespace Slideshow

open WorkerExchange

variable {α : Type}

/-! ## What the deliveries share -/

/-- The records of the jobs, and the batches that the queue has taken. -/
structure Intake (α : Type) where
  ledger : Ledger
  queued : List (BatchJob α)

/-- The queue drops a batch whose key it has seen. -/
def Intake.enqueue (queued : List (BatchJob α)) (batch : BatchJob α) : List (BatchJob α) :=
  if queued.any fun b => b.idempotencyKey == batch.idempotencyKey then queued
  else queued ++ [batch]

/-- Every call is a single step. `finds` tells which addresses may be found valid; the store and the
queue may fail, whether or not the call took effect. -/
def WorkerCall.Shared (finds : List String → Prop) :
    (c : WorkerCall α) → Intake α → c.Answer → Intake α → Prop
  | .store c, x, a, y => c.Answered x.ledger a y.ledger ∧ y.queued = x.queued
  | .dispatch batch, x, a, y => y.ledger = x.ledger ∧
    (a = .ok () ∧ y.queued = Intake.enqueue x.queued batch ∨
      (∃ e, a = .error e) ∧
        (y.queued = x.queued ∨ y.queued = Intake.enqueue x.queued batch))
  | .filterValid _, x, a, y => finds a ∧ y = x
  | _, x, _, y => y = x

/-- A message to the workers, and what its delivery brings along. -/
structure PlacedJob (α : Type) where
  job : QueueJob α
  place : Workplace

namespace Intake

theorem subset_enqueue (queued : List (BatchJob α)) (batch : BatchJob α) :
    queued ⊆ enqueue queued batch := by
  rw [enqueue]
  split
  · exact List.Subset.refl _
  · exact List.subset_append_left _ _

theorem mem_enqueue {queued : List (BatchJob α)} {b batch : BatchJob α}
    (h : b ∈ enqueue queued batch) : b ∈ queued ∨ b = batch := by
  rw [enqueue] at h
  split at h
  · exact .inl h
  · simpa using h

end Intake

section Shared

variable {finds : List String → Prop} {c : WorkerCall α} {x y : Intake α} {a : c.Answer}

theorem WorkerCall.Shared.queued_cases (h : c.Shared finds x a y) :
    y.queued = x.queued ∨ ∃ batch, c = .dispatch batch ∧
      y.queued = Intake.enqueue x.queued batch := by
  cases c with
  | store c => exact .inl h.2
  | dispatch batch =>
      obtain ⟨-, ⟨-, hy⟩ | ⟨-, hy | hy⟩⟩ := h
      · exact .inr ⟨batch, rfl, hy⟩
      · exact .inl hy
      · exact .inr ⟨batch, rfl, hy⟩
  | filterValid urls => exact .inl (congrArg Intake.queued h.2)
  | _ => exact .inl (congrArg Intake.queued h)

theorem WorkerCall.Shared.queued_subset (h : c.Shared finds x a y) : x.queued ⊆ y.queued := by
  rcases h.queued_cases with hy | ⟨batch, -, hy⟩ <;> rw [hy]
  · exact List.Subset.refl _
  · exact Intake.subset_enqueue _ _

theorem WorkerCall.Shared.ledger_cases (h : c.Shared finds x a y) :
    y.ledger = x.ledger ∨ ∃ s, c = .store s := by
  cases c with
  | store c => exact .inr ⟨c, rfl⟩
  | dispatch batch => exact .inl h.1
  | filterValid urls => exact .inl (congrArg Intake.ledger h.2)
  | _ => exact .inl (congrArg Intake.ledger h)

theorem WorkerCall.shared_aside (hc : c.Aside) (hfilter : ∀ urls, c ≠ .filterValid urls) :
    c.Shared finds x a x := by
  cases c with
  | store c | dispatch batch => exact hc.elim
  | filterValid urls => exact (hfilter urls rfl).elim
  | _ => rfl

end Shared

/-! ## Deliveries of the messages of a job -/

namespace VideoRequest

variable [Scalar α] (request : VideoRequest α) (limits : WorkerLimits)

/-- What a worker does when a message is delivered. -/
def deliver (m : PlacedJob α) : Program (WorkerCall.Answer (α := α)) (Except WorkerError Unit) :=
  Worker.handle limits m.place m.job

variable {limits}

/-- What is delivered: the request itself, and the batches that are in the queue, at any time and
any number of times. -/
def Admits (s : System (deliver (α := α) limits) (Intake α)) (m : PlacedJob α) : Prop :=
  m.job = .createVideo request ∨ ∃ batch ∈ s.shared.queued, m.job = .renderBatch batch

/-- Any number of calls of any deliveries. -/
abbrev Reaches (finds : List String → Prop) (s s' : System (deliver (α := α) limits) (Intake α)) :
    Prop :=
  System.Reaches (WorkerCall.Shared finds) request.Admits s s'

omit [Scalar α] in
/-- The job is open, it was not split, and the queue is empty. -/
def Accepted (x : Intake α) : Prop :=
  x.queued = [] ∧ ∃ r, x.ledger.get? request.jobId = some r ∧ r.status = .processing ∧
    r.batches = none

/-- The delivery has handed all `n` batches of a plan to the queue. -/
def Dispatched (d : Attempt (deliver (α := α) limits)) (n : ℕ) : Prop :=
  ∃ valid options, found request.urls valid ∈ d.trace ∧
    (planBatches request.jobId valid options limits.batchSize).length = n ∧
    ∀ batch ∈ planBatches request.jobId valid options limits.batchSize,
      dispatched batch ∈ d.trace

/-- Whatever happens from now on, an open job expects `n` batches, and is ready to be joined when
the batches from one to `n` have reported. -/
def SplitSafe (finds : List String → Prop) (s : System (deliver (α := α) limits) (Intake α))
    (n : ℕ) : Prop :=
  ∀ s', request.Reaches finds s s' → ∀ r, s'.shared.ledger.get? request.jobId = some r →
    r.status = .processing →
      r.expectedBatches = n ∧ (r.Complete n → r.readyToJoin = true)

variable {request}

/-! ## Where all answers make the same number of batches -/

variable (request) in
/-- The number of batches is `n` wherever one is noted, and all batches are numbered up to `n`. -/
structure Agreed (finds : List String → Prop) (n : ℕ)
    (s : System (deliver (α := α) limits) (Intake α)) : Prop where
  known : ∃ r, s.shared.ledger.get? request.jobId = some r ∧ r.Numbered n ∧
    ((∃ d ∈ s.attempts, ∃ count, counted request.jobId count ∈ d.trace) → r.expectedBatches = n)
  queued : ∀ batch ∈ s.shared.queued, 1 ≤ batch.batch ∧ batch.batch ≤ n
  admitted : ∀ d ∈ s.attempts, request.Admits s d.message
  found : ∀ d ∈ s.attempts, ∀ valid, found request.urls valid ∈ d.trace → finds valid

section Agreed

variable {finds : List String → Prop} {n : ℕ} {s s' : System (deliver (α := α) limits) (Intake α)}
  {d : Attempt (deliver (α := α) limits)}

theorem Accepted.agreed {x : Intake α} (h : request.Accepted x) :
    request.Agreed finds n (⟨x, []⟩ : System (deliver limits) (Intake α)) := by
  obtain ⟨hqueue, r, hr, -, hbatches⟩ := h
  refine ⟨⟨r, hr, ?_, by simp⟩, by simp [hqueue], by simp, by simp⟩
  simp [JobRecord.Numbered, JobRecord.outputs, hbatches]

theorem queued_subset (h : System.Step (WorkerCall.Shared finds) request.Admits s s') :
    s.shared.queued ⊆ s'.shared.queued := by
  cases h with
  | deliver m hm => exact List.Subset.refl _
  | crash i d hi hf => exact List.Subset.refl _
  | answer i d a after hi hc hrest ha => exact ha.queued_subset

theorem admitted_step (h : ∀ d ∈ s.attempts, request.Admits s d.message)
    (hstep : System.Step (WorkerCall.Shared finds) request.Admits s s') :
    ∀ d ∈ s'.attempts, request.Admits s' d.message := by
  intro d' hd'
  obtain ⟨j, hj⟩ := List.mem_iff_getElem?.mp hd'
  have hadmits : ∀ m, request.Admits s m → request.Admits s' m := fun m hm =>
    hm.imp_right fun ⟨batch, hbatch, hjob⟩ => ⟨batch, queued_subset hstep hbatch, hjob⟩
  rcases hstep.attempt_before hj with ⟨-, m, hm, rfl⟩ | ⟨d, hd, hmessage, -⟩
  · exact hadmits m hm
  · rw [hmessage]
    exact hadmits _ (h d (List.mem_of_getElem? hd))

theorem found_step
    (h : ∀ d ∈ s.attempts, ∀ valid, found request.urls valid ∈ d.trace → finds valid)
    (hstep : System.Step (WorkerCall.Shared finds) request.Admits s s') :
    ∀ d ∈ s'.attempts, ∀ valid, found request.urls valid ∈ d.trace → finds valid := by
  intro d' hd' valid hvalid
  obtain ⟨j, hj⟩ := List.mem_iff_getElem?.mp hd'
  rcases hstep.attempt_before hj with ⟨-, m, -, rfl⟩ | ⟨d, hd, -, -, htrace⟩
  · cases hvalid
  · have hbefore := h d (List.mem_of_getElem? hd) valid
    rcases htrace with htrace | ⟨-, e, htrace, ha⟩ <;> rw [htrace] at hvalid
    · exact hbefore hvalid
    · rcases List.mem_append.mp hvalid with hvalid | hvalid
      · exact hbefore hvalid
      · cases List.mem_singleton.mp hvalid
        exact ha.1

/-- Whoever waits for an answer works on the request or on a batch from the queue. -/
theorem Agreed.issues (h : request.Agreed finds n s) (hd : d ∈ s.attempts) {c : WorkerCall α}
    {next : c.Answer → Program WorkerCall.Answer (Except WorkerError Unit)}
    (hrest : d.rest = .call c next) :
    request.Issues limits d.trace c ∨
      ∃ batch ∈ s.shared.queued, batch.Issues d.trace c := by
  have hleads := hrest ▸ d.leads
  rw [deliver] at hleads
  rcases h.admitted d hd with hjob | ⟨batch, hbatch, hjob⟩ <;> rw [hjob] at hleads
  · have hissues := Worker.meets_handle_createVideo limits d.message.place request
    exact .inl (by simpa using hissues.issues_of_leads hleads)
  · have hissues := Worker.meets_handle limits d.message.place batch
    exact .inr ⟨batch, hbatch, by simpa using hissues.issues_of_leads hleads⟩

variable (hagree : ∀ valid, finds valid → limits.batchSize < valid.length →
  batchCount valid.length limits.batchSize = n) (hfew : n < UInt32.size)

include hagree hfew

/-- The number that is noted is `n`. -/
theorem Agreed.count_eq (h : request.Agreed finds n s) (hd : d ∈ s.attempts) {id : JobId} {k : ℕ}
    {next : _ → Program WorkerCall.Answer (Except WorkerError Unit)}
    (hrest : d.rest = .call (.store (.setBatchCount id k)) next) : k = n := by
  rcases h.issues hd hrest with ⟨-, -, valid, hfound, rfl⟩ | ⟨batch, -, himpossible⟩
  · rw [hagree valid (h.found d hd valid hfound.1) hfound.2]
    exact Nat.mod_eq_of_lt hfew
  · exact himpossible.elim

/-- What an answer makes of the record. -/
theorem Agreed.answered (h : request.Agreed finds n s) {r : JobRecord}
    (hr : s.shared.ledger.get? request.jobId = some r) (hnumbered : r.Numbered n)
    (hd : d ∈ s.attempts) {c : WorkerCall α} {a : c.Answer} {after : Intake α}
    {next : c.Answer → Program WorkerCall.Answer (Except WorkerError Unit)}
    (hrest : d.rest = .call c next) (ha : c.Shared finds s.shared a after) :
    ∃ r', after.ledger.get? request.jobId = some r' ∧ r'.Numbered n ∧
      (r.expectedBatches = n → r'.expectedBatches = n) ∧
      ∀ k, (⟨c, a⟩ : WorkerExchange α) = counted request.jobId k → r'.expectedBatches = n := by
  have hcounted : ∀ k, (⟨c, a⟩ : WorkerExchange α) = counted request.jobId k →
      ∃ r', after.ledger.get? request.jobId = some r' ∧ r'.expectedBatches = n := by
    rintro k hk
    cases hk
    exact ⟨_, ha.1.get?_of_ok hr, h.count_eq hagree hfew hd hrest⟩
  have hnoted : ∀ r', after.ledger.get? request.jobId = some r' →
      ∀ k, (⟨c, a⟩ : WorkerExchange α) = counted request.jobId k → r'.expectedBatches = n := by
    intro r' hr' k hk
    obtain ⟨r'', hr'', hexpected⟩ := hcounted k hk
    cases hr'.symm.trans hr''
    exact hexpected
  rcases ha.ledger_cases with hsame | ⟨sc, rfl⟩
  · rw [← hsame] at hr
    exact ⟨r, hr, hnumbered, fun he => he, hnoted r hr⟩
  · rcases ha.1.get?_cases hr with hsame | ⟨-, hchanged⟩
    · exact ⟨r, hsame, hnumbered, fun he => he, hnoted r hsame⟩
    · refine ⟨_, hchanged, ?_, ?_, hnoted _ hchanged⟩
      · intro output houtput
        rcases StoreCall.mem_outputs_change houtput with houtput | ⟨id, rfl⟩
        · exact hnumbered output houtput
        · rcases h.issues hd hrest with himpossible | ⟨batch, hbatch, -, hnumber, -⟩
          · exact himpossible.elim
          · rw [hnumber]
            exact h.queued batch hbatch
      · intro hexpected
        rcases sc.expectedBatches_change r with ⟨id, k, rfl, hk⟩ | ⟨-, hk⟩
        · exact hk.trans (h.count_eq hagree hfew hd hrest)
        · exact hk.trans hexpected

/-- What the queue holds after a step. -/
theorem Agreed.queued_step (h : request.Agreed finds n s)
    (hstep : System.Step (WorkerCall.Shared finds) request.Admits s s') :
    ∀ batch ∈ s'.shared.queued, 1 ≤ batch.batch ∧ batch.batch ≤ n := by
  cases hstep with
  | deliver m hm => exact h.queued
  | crash i d hi hf => exact h.queued
  | answer i d a after hi hc hrest ha =>
      have hd := List.mem_of_getElem? hi
      intro b hb
      rcases ha.queued_cases with hsame | ⟨batch, rfl, hqueue⟩
      · exact h.queued b (hsame ▸ hb)
      · dsimp only at hb
        rw [hqueue] at hb
        rcases Intake.mem_enqueue hb with hb | rfl
        · exact h.queued b hb
        · rcases h.issues hd hrest with ⟨-, valid, options, hfound, hmem, -⟩ | ⟨_, -, himpossible⟩
          · have hcount := hagree valid (h.found d hd valid hfound.1) hfound.2
            rw [← hcount] at hfew ⊢
            exact batch_of_mem_planBatches hmem hfew
          · exact himpossible.elim

theorem Agreed.known_step (h : request.Agreed finds n s)
    (hstep : System.Step (WorkerCall.Shared finds) request.Admits s s') :
    ∃ r, s'.shared.ledger.get? request.jobId = some r ∧ r.Numbered n ∧
      ((∃ d ∈ s'.attempts, ∃ k, counted request.jobId k ∈ d.trace) → r.expectedBatches = n) := by
  obtain ⟨r, hr, hnumbered, hcounted⟩ := h.known
  cases hstep with
  | deliver m hm =>
      refine ⟨r, hr, hnumbered, ?_⟩
      rintro ⟨d', hd', k, hk⟩
      rcases List.mem_append.mp hd' with hd' | hd'
      · exact hcounted ⟨d', hd', k, hk⟩
      · cases List.mem_singleton.mp hd'
        cases hk
  | crash i d hi hf =>
      refine ⟨r, hr, hnumbered, ?_⟩
      rintro ⟨d', hd', k, hk⟩
      obtain ⟨j, hj⟩ := List.mem_iff_getElem?.mp hd'
      rcases System.getElem?_set_cases hj with ⟨rfl, rfl⟩ | hj
      · exact hcounted ⟨d, List.mem_of_getElem? hi, k, hk⟩
      · exact hcounted ⟨d', List.mem_of_getElem? hj, k, hk⟩
  | answer i d a after hi hc hrest ha =>
      have hd := List.mem_of_getElem? hi
      obtain ⟨r', hr', hnumbered', hkept, hnoted⟩ :=
        h.answered hagree hfew hr hnumbered hd hrest ha
      refine ⟨r', hr', hnumbered', ?_⟩
      rintro ⟨d', hd', k, hk⟩
      obtain ⟨j, hj⟩ := List.mem_iff_getElem?.mp hd'
      rcases System.getElem?_set_cases hj with ⟨rfl, rfl⟩ | hj
      · rcases List.mem_append.mp hk with hk | hk
        · exact hkept (hcounted ⟨d, hd, k, hk⟩)
        · exact hnoted k (List.mem_singleton.mp hk).symm
      · exact hkept (hcounted ⟨d', List.mem_of_getElem? hj, k, hk⟩)

theorem Agreed.step (h : request.Agreed finds n s)
    (hstep : System.Step (WorkerCall.Shared finds) request.Admits s s') :
    request.Agreed finds n s' :=
  ⟨h.known_step hagree hfew hstep, h.queued_step hagree hfew hstep,
    admitted_step h.admitted hstep, found_step h.found hstep⟩

theorem Agreed.reaches (h : request.Agreed finds n s) (hs : request.Reaches finds s s') :
    request.Agreed finds n s' := by
  induction hs with
  | refl => exact h
  | tail _ hstep ih => exact ih.step hagree hfew hstep

end Agreed

/-! ## A delivery that has dispatched its batches -/

section Dispatched

variable {finds : List String → Prop} {n : ℕ} {s s' : System (deliver (α := α) limits) (Intake α)}
  {d : Attempt (deliver (α := α) limits)}

theorem admitted_of_reaches {x : Intake α} (h : request.Reaches finds ⟨x, []⟩ s) :
    ∀ d ∈ s.attempts, request.Admits s d.message := by
  induction h with
  | refl => exact fun d hd => nomatch hd
  | tail _ hstep ih => exact admitted_step ih hstep

theorem found_of_reaches {x : Intake α} (h : request.Reaches finds ⟨x, []⟩ s) :
    ∀ d ∈ s.attempts, ∀ valid, found request.urls valid ∈ d.trace → finds valid := by
  induction h with
  | refl => exact fun d hd => nomatch hd
  | tail _ hstep ih => exact found_step ih hstep

/-- A delivery that has dispatched batches has noted their number before, and its request may be
split. -/
theorem Dispatched.counted (h : request.Dispatched d n) (hpos : 0 < n)
    (hadmits : request.Admits s d.message) :
    request.Splittable limits ∧ ∃ k, counted request.jobId k ∈ d.trace := by
  obtain ⟨valid, options, -, hlength, hall⟩ := h
  obtain ⟨batch, hbatch⟩ := List.exists_mem_of_length_pos (hlength ▸ hpos)
  have hleads := d.leads
  rw [deliver] at hleads
  rcases hadmits with hjob | ⟨b, -, hjob⟩ <;> rw [hjob] at hleads
  · obtain ⟨t, ht, hrequest, _, _, -, -, hcounted⟩ :=
      (Worker.meets_handle_createVideo limits d.message.place request).issues_of_mem hleads
        (hall batch hbatch)
    exact ⟨hrequest, _, ht.subset hcounted⟩
  · obtain ⟨t, -, himpossible⟩ :=
      (Worker.meets_handle limits d.message.place b).issues_of_mem hleads (hall batch hbatch)
    exact himpossible.elim

theorem exists_mem_of_reaches (hs : request.Reaches finds s s') (hd : d ∈ s.attempts) :
    ∃ d' ∈ s'.attempts, d.trace <+: d'.trace := by
  induction hs with
  | refl => exact ⟨d, hd, List.prefix_refl _⟩
  | tail _ hstep ih =>
      obtain ⟨d', hd', hgrown⟩ := ih
      obtain ⟨d'', hd'', -, htrace⟩ := hstep.attempt_after hd'
      refine ⟨d'', hd'', hgrown.trans ?_⟩
      rcases htrace with htrace | ⟨e, htrace⟩ <;> rw [htrace]
      exact List.prefix_append _ _

/-! ## One more delivery -/

omit [Scalar α] in
theorem allowed_of_aside {t : List (WorkerExchange α)} {x : Intake α}
    (h : ∀ e ∈ t, e.call.Aside ∧ ∀ urls, e.call ≠ .filterValid urls) :
    System.Allowed (WorkerCall.Shared finds) t x x := by
  induction t with
  | nil => exact .nil x
  | cons e t ih =>
      obtain ⟨haside, hfilter⟩ := h e List.mem_cons_self
      exact .cons (WorkerCall.shared_aside haside hfilter)
        (ih fun e' he' => h e' (List.mem_cons_of_mem e he'))

omit [Scalar α] in
variable (finds) in
theorem exists_allowed_dispatched (batches : List (BatchJob α)) (x : Intake α) :
    ∃ y, y.ledger = x.ledger ∧
      System.Allowed (WorkerCall.Shared finds) (batches.map dispatched) x y := by
  induction batches generalizing x with
  | nil => exact ⟨x, rfl, .nil x⟩
  | cons batch rest ih =>
      obtain ⟨y, hledger, hy⟩ := ih ⟨x.ledger, Intake.enqueue x.queued batch⟩
      have htaken : WorkerCall.Shared finds (.dispatch batch) x (.ok ())
          ⟨x.ledger, Intake.enqueue x.queued batch⟩ := ⟨rfl, .inl ⟨rfl, rfl⟩⟩
      exact ⟨y, hledger, .cons htaken hy⟩

/-- The request may be delivered once more and be split as the addresses make it that are found
valid then. -/
theorem exists_resplit {r : JobRecord} (hr : s.shared.ledger.get? request.jobId = some r)
    (hopen : r.status = .processing) (hrequest : request.Splittable limits) {valid : List String}
    (hfinds : finds valid) (hlarge : limits.batchSize < valid.length) (w : Workplace) :
    ∃ y d, request.Reaches finds s ⟨y, s.attempts ++ [d]⟩ ∧
      request.Dispatched d (batchCount valid.length limits.batchSize) ∧
      y.ledger.get? request.jobId =
        some (r.withBatchCount (batchCount valid.length limits.batchSize % UInt32.size)) := by
  obtain ⟨first, rest, rfl⟩ := List.exists_cons_of_length_pos (Nat.zero_lt_of_lt hlarge)
  obtain ⟨t, fixed, hfixed, hmode, haside⟩ := Worker.exists_leads_fixSize w request.options first
  have hnotEnded : r.status.isTerminal = false := by rw [hopen]; rfl
  have hleads := Worker.leads_handle_createVideo w hnotEnded hrequest hlarge hfixed hmode
  obtain ⟨l, hanswer, hl, -⟩ := Ledger.answer_of_get? (c := .setBatchCount request.jobId
    (batchCount (first :: rest).length limits.batchSize % UInt32.size)) hr
  obtain ⟨y, hledger, hy⟩ := exists_allowed_dispatched finds
    (planBatches request.jobId (first :: rest) fixed limits.batchSize) ⟨l, s.shared.queued⟩
  have hload : WorkerCall.Shared finds (.store (.load request.jobId)) s.shared (.ok (some r))
      s.shared := ⟨.inl (by rw [← hr]; rfl), rfl⟩
  have hfilter : WorkerCall.Shared finds (.filterValid request.urls) s.shared (first :: rest)
      s.shared := ⟨hfinds, rfl⟩
  have hcount : WorkerCall.Shared finds (.store (.setBatchCount request.jobId
      (batchCount (first :: rest).length limits.batchSize % UInt32.size))) s.shared (.ok ())
      ⟨l, s.shared.queued⟩ := ⟨.inl hanswer.symm, rfl⟩
  have hcounted := System.Allowed.cons (e := counted request.jobId _) hcount hy
  have hfound := System.Allowed.cons (e := found request.urls (first :: rest)) hfilter
    ((allowed_of_aside haside).append hcounted)
  have hallowed := System.Allowed.cons (e := loaded request.jobId r) hload hfound
  refine ⟨y, _, System.Reaches.deliver (m := ⟨.createVideo request, w⟩) (.inl rfl) hleads
    hallowed, ?_, ?_⟩
  · refine ⟨first :: rest, fixed, ?_, length_planBatches _ _ _ _, fun batch hbatch => ?_⟩
    · exact List.mem_cons_of_mem _ List.mem_cons_self
    · exact List.mem_cons_of_mem _ (List.mem_cons_of_mem _ (List.mem_append_right _
        (List.mem_cons_of_mem _ (List.mem_map_of_mem hbatch))))
  · rw [hledger]
    exact hl

/-! ## When splitting again is safe -/

/-- Splitting a request again is safe exactly if all addresses that may be found valid make the same
number of batches. -/
theorem splitSafe_iff {x : Intake α} (hx : request.Accepted x)
    (hfew : ∀ valid, finds valid → batchCount valid.length limits.batchSize < UInt32.size)
    (h : request.Reaches finds ⟨x, []⟩ s) (hd : d ∈ s.attempts) (hpos : 0 < n)
    (hn : request.Dispatched d n) {r : JobRecord}
    (hr : s.shared.ledger.get? request.jobId = some r) (hopen : r.status = .processing) :
    request.SplitSafe finds s n ↔ ∀ valid, finds valid → limits.batchSize < valid.length →
      batchCount valid.length limits.batchSize = n := by
  obtain ⟨hrequest, k, hk⟩ := hn.counted hpos (admitted_of_reaches h d hd)
  constructor
  · intro hsafe valid hfinds hlarge
    -- one more delivery may find these addresses, and then their number is what is expected
    obtain ⟨y, d', hreach, -, hy⟩ :=
      exists_resplit hr hopen hrequest hfinds hlarge d.message.place
    obtain ⟨hexpected, -⟩ := hsafe _ hreach _ hy hopen
    have hcount : batchCount valid.length limits.batchSize % UInt32.size = n := hexpected
    rwa [Nat.mod_eq_of_lt (hfew valid hfinds)] at hcount
  · intro hagree s' hs' r' hr' hopen'
    have hword : n < UInt32.size := by
      obtain ⟨valid, options, hfound, hlength, -⟩ := hn
      rw [← hlength, length_planBatches]
      exact hfew valid (found_of_reaches h d hd valid hfound)
    have hs : request.Agreed finds n s' := hx.agreed.reaches hagree hword (h.trans hs')
    obtain ⟨r'', hr'', hnumbered, hexpected⟩ := hs.known
    cases hr'.symm.trans hr''
    obtain ⟨d', hd', hgrown⟩ := exists_mem_of_reaches hs' hd
    have hcount : r'.expectedBatches = n := hexpected ⟨d', hd', k, hgrown.subset hk⟩
    refine ⟨hcount, fun hcomplete => ?_⟩
    exact (hnumbered.readyToJoin_iff hcount hpos).mpr ⟨hopen', hcomplete⟩

end Dispatched

/-! ## A request for five slides -/

/-- The addresses of the slides. -/
def fiveUrls : List String :=
  ["https://example.com/1.png", "https://example.com/2.png", "https://example.com/3.png",
    "https://example.com/4.png", "https://example.com/5.png"]

/-- A request that is split into three batches when all its addresses are valid. -/
def five : VideoRequest Rat := ⟨"five", fiveUrls, .standard⟩

/-- The request was accepted, and no delivery has begun. -/
def fiveIntake : Intake Rat := ⟨⟨[.fresh "five" ⟨0, 0⟩], 0⟩, []⟩

/-- The last two slides come and go. -/
def FiveOrThree (valid : List String) : Prop := valid = fiveUrls ∨ valid = fiveUrls.take 3

theorem five_accepted : five.Accepted fiveIntake :=
  ⟨rfl, .fresh "five" ⟨0, 0⟩, rfl, rfl, rfl⟩

theorem five_splittable : five.Splittable ⟨2, 30⟩ := ⟨by decide +kernel, rfl⟩

/-- The first delivery finds all addresses valid. -/
theorem exists_five_dispatched (finds : List String → Prop) (hfinds : finds fiveUrls) :
    ∃ (s : System (deliver (α := Rat) ⟨2, 30⟩) (Intake Rat)) (d : Attempt (deliver ⟨2, 30⟩))
      (r : JobRecord), five.Reaches finds ⟨fiveIntake, []⟩ s ∧ d ∈ s.attempts ∧
        five.Dispatched d 3 ∧ s.shared.ledger.get? five.jobId = some r ∧
        r.status = .processing := by
  let start : System (deliver (α := Rat) ⟨2, 30⟩) (Intake Rat) := ⟨fiveIntake, []⟩
  obtain ⟨y, d, hreach, hdispatched, hy⟩ := exists_resplit (s := start)
    (r := .fresh "five" ⟨0, 0⟩) rfl rfl five_splittable hfinds (by decide)
    ⟨"work", fun _ => 0, []⟩
  exact ⟨_, d, _, hreach, List.mem_concat_self, hdispatched, hy, rfl⟩

/-- The split is safe where every delivery finds all addresses valid. -/
theorem splitSafe_five : five.Accepted fiveIntake ∧
    ∃ (s : System (deliver (α := Rat) ⟨2, 30⟩) (Intake Rat)) (d : Attempt (deliver ⟨2, 30⟩))
      (r : JobRecord), five.Reaches (fun valid => valid = fiveUrls) ⟨fiveIntake, []⟩ s ∧
        d ∈ s.attempts ∧ five.Dispatched d 3 ∧ s.shared.ledger.get? five.jobId = some r ∧
        r.status = .processing ∧ five.SplitSafe (fun valid => valid = fiveUrls) s 3 := by
  obtain ⟨s, d, r, h, hd, hn, hr, hopen⟩ :=
    exists_five_dispatched (fun valid => valid = fiveUrls) rfl
  have hfew : ∀ valid, valid = fiveUrls → batchCount valid.length 2 < UInt32.size := by
    rintro valid rfl
    decide
  refine ⟨five_accepted, s, d, r, h, hd, hn, hr, hopen, ?_⟩
  refine (splitSafe_iff five_accepted hfew h hd (by decide) hn hr hopen).mpr ?_
  rintro valid rfl -
  decide

/-- Three batches are dispatched, and then two of the addresses are not found valid any more. -/
theorem not_splitSafe : ¬ ∀ (s : System (deliver (α := Rat) ⟨2, 30⟩) (Intake Rat)),
    five.Reaches FiveOrThree ⟨fiveIntake, []⟩ s → ∀ d ∈ s.attempts, ∀ n, five.Dispatched d n →
      five.SplitSafe FiveOrThree s n := by
  intro hsafe
  obtain ⟨s, d, r, h, hd, hn, hr, hopen⟩ := exists_five_dispatched FiveOrThree (.inl rfl)
  have hthree : FiveOrThree (fiveUrls.take 3) := .inr rfl
  obtain ⟨y, d', hreach, -, hy⟩ := exists_resplit hr hopen five_splittable hthree (by decide)
    ⟨"work", fun _ => 0, []⟩
  obtain ⟨hexpected, -⟩ := hsafe s h d hd 3 hn _ hreach _ hy hopen
  have htwo : (2 : ℕ) = 3 := hexpected
  omega

end VideoRequest

end Slideshow
