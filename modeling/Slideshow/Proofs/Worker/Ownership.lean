import Slideshow.Proofs.Worker.Succession

/-! # Who joins the batches

The join of a job is handed over at most once, and whoever joins works on the outputs of all batches
in order. Only deliveries of one batch, the recorded owner, ever join; but two deliveries of that
batch may join at the same time. -/

namespace Slideshow.SplitJob

open WorkerExchange

variable {α : Type} [Scalar α] {job : SplitJob α} {limits : WorkerLimits}

/-! ## The owner -/

section Owner

variable {answers : (c : WorkerCall α) → Ledger → c.Answer → Ledger → Prop}
  (hatomic : ∀ {c l a l'}, answers c l a l' → WorkerCall.Atomic c l a l') {claims : ℕ}
  {s : System (job.deliver limits) Ledger} {d : Attempt (job.deliver limits)} {now r : JobRecord}

/-- A delivery that begins to join has seen the outputs of all batches, and its batch is the
recorded owner of the join from then on. -/
theorem StartsJoin.complete (hs : (job.discipline limits hatomic claims).Sound s)
    (hd : d ∈ s.attempts) (h : StartsJoin d r) (hnow : s.shared.get? job.id = some now) :
    job.Fits r ∧ r.Complete job.count ∧ r.Evolves now ∧ now.status ≠ .processing ∧
      now.joiner = some d.message.number := by
  obtain ⟨hloaded, howner⟩ := h.joins
  rw [part_jobId, part_batch] at howner
  rw [part_jobId] at hloaded
  obtain ⟨⟨_, hr⟩, hevolves⟩ := Happened.loaded hatomic (hs.happened d hd _ hloaded) hnow
  -- the owner takes up the join again, or it has just been handed over
  rcases howner with howned | ⟨hready, hclaimed⟩
  · simp only [JobRecord.joinOwnedBy, Bool.and_eq_true, beq_iff_eq] at howned
    have hclosed : r.status ≠ .processing := by simp [howned.1]
    refine ⟨hr.fits, hr.fits.complete howned.1, hevolves, hclosed ∘ hevolves.was_open, ?_⟩
    exact (hevolves.joiner_eq hclosed).trans howned.2
  · rw [hr.fits.numbered.readyToJoin_iff hr.fits.expected_eq job.count_pos] at hready
    obtain ⟨r', hclosed, howned, hevolves'⟩ :=
      Happened.claimed hatomic (hs.happened d hd _ hclaimed) hnow
    simp only [JobRecord.joinOwnedBy, Bool.and_eq_true, beq_iff_eq] at howned
    refine ⟨hr.fits, hready.2, hevolves, hclosed ∘ hevolves'.was_open, ?_⟩
    exact (hevolves'.joiner_eq hclosed).trans howned.2

end Owner

/-! ## Uploads -/

section Uploads

variable {answers : (c : WorkerCall α) → Ledger → c.Answer → Ledger → Prop}
  (hatomic : ∀ {c l a l'}, answers c l a l' → WorkerCall.Atomic c l a l')
  {admits : System (job.deliver limits) Ledger → job.Message → Prop} {l : Ledger}
  {s : System (job.deliver limits) Ledger} {now : JobRecord}

include hatomic

/-- Every recorded output was uploaded by a delivery of its batch. -/
theorem uploaded_of_mem_outputs (hl : job.Dispatched l)
    (h : System.Reaches answers admits ⟨l, []⟩ s) (hnow : s.shared.get? job.id = some now)
    {x : BatchOutput} (hx : x ∈ now.outputs) :
    ∃ d ∈ s.attempts, d.message.number = x.batch ∧
      ∃ path, uploaded job.id (job.part x.batch).segmentName path x.output ∈ d.trace := by
  have hsound := (job.discipline limits hatomic l.claims).sound_of_holds hl.sane
  let Recorded : Ledger → Prop := fun l => ∃ r, l.get? job.id = some r ∧ x ∈ r.outputs
  let Uploaded : job.Message → List (WorkerExchange α) → Prop := fun m t =>
    m.number = x.batch ∧
      ∃ path, uploaded job.id (job.part x.batch).segmentName path x.output ∈ t
  have hgrow : ∀ {m t e}, Uploaded m t → Uploaded m (t ++ [e]) := by
    rintro m t e ⟨hnumber, path, hmem⟩
    exact ⟨hnumber, path, List.mem_append_left _ hmem⟩
  refine hsound.traced Recorded Uploaded hgrow ?_ ?_ h ⟨now, hnow, hx⟩
  · rintro m t c next l a l' hleads ⟨r, hr⟩ htold ha ⟨r', hr', hx'⟩
    cases c with
    | store c =>
        obtain ⟨hissues, -, rfl | ⟨hknown, -⟩⟩ := store_cases hatomic hleads hr htold ha
        · exact .inl ⟨r', hr', hx'⟩
        · cases hr'.symm.trans hknown
          rcases StoreCall.mem_outputs_change hx' with hx' | ⟨id, rfl⟩
          · exact .inl ⟨r, hr.known, hx'⟩
          · obtain ⟨-, hbatch, path, hpath⟩ := hissues
            rw [part_batch] at hbatch
            rw [part_jobId, ← hbatch] at hpath
            exact .inr ⟨hbatch.symm, path, List.mem_append_left _ hpath⟩
    | _ =>
        cases hatomic ha
        exact .inl ⟨r', hr', hx'⟩
  · rintro ⟨r, hr, hx⟩
    obtain ⟨r', hr', -, hbatches⟩ := hl
    cases hr.symm.trans hr'
    simp [JobRecord.outputs, hbatches] at hx

end Uploads

/-! ## One owner -/

variable (job) in
/-- The output of a batch where uploads have fixed addresses. -/
def outputOf (address : JobId → String → String) (b : ℕ) : BatchOutput :=
  ⟨b, address job.id (job.part b).segmentName⟩

/-- What is true of a job with `claims` claims when it was split, whatever its deliveries have done
since. -/
structure OneOwner (address : JobId → String → String) (claims : ℕ)
    (s : System (job.deliver limits) Ledger) : Prop where
  /-- The join was handed over at most once. -/
  claims_eq : s.shared.claims = claims ∨ s.shared.claims = claims + 1
  /-- Once it was, there is no other owner and no other claim, whatever happens next. -/
  owner_stays : s.shared.claims = claims + 1 →
    ∃ r j, s.shared.get? job.id = some r ∧ r.joiner = some j ∧
      ∀ s', System.Reaches (WorkerCall.Addressed address) (fun _ _ => True) s s' →
        s'.shared.claims = claims + 1 ∧
          ∃ r', s'.shared.get? job.id = some r' ∧ r'.joiner = some j
  /-- No batch is recorded twice. -/
  nodup : ∃ r, s.shared.get? job.id = some r ∧ (r.outputs.map BatchOutput.batch).Nodup
  /-- Whoever joins works on the output of every batch, in order. -/
  joins : ∀ d ∈ s.attempts, ∀ r, StartsJoin d r →
    r.orderedOutputs = (List.range' 1 job.count).map (job.outputOf address) ∧
      ∀ x ∈ r.orderedOutputs, ∃ d' ∈ s.attempts, d'.message.number = x.batch ∧
        ∃ path, uploaded job.id (job.part x.batch).segmentName path x.output ∈ d'.trace

/-- However many deliveries of the batches overlap, are repeated, crash or are failed by the store,
the join has one owner, and every join works on all batches. -/
theorem oneOwner_of_reaches {address : JobId → String → String} {l : Ledger}
    {s : System (job.deliver limits) Ledger} (hl : job.Dispatched l)
    (h : System.Reaches (WorkerCall.Addressed address) (fun _ _ => True) ⟨l, []⟩ s) :
    OneOwner address l.claims s := by
  have hatomic : ∀ {c : WorkerCall α} {l a l'},
      WorkerCall.Addressed address c l a l' → c.Atomic l a l' := fun h => h.1
  have hsound := (((job.discipline limits hatomic l.claims).sound_of_holds hl.sane).reaches h).1
  obtain ⟨now, hnow⟩ := hsound.holds
  have huploaded : ∀ x ∈ now.outputs, _ := fun x =>
    uploaded_of_mem_outputs hatomic hl h hnow.known
  have houtput : ∀ x ∈ now.outputs, x = job.outputOf address x.batch := by
    intro x hx
    obtain ⟨d, hd, -, path, hpath⟩ := huploaded x hx
    obtain ⟨before, after, -, ha, -⟩ := hsound.happened d hd _ hpath
    have hplaced : x.output = address job.id (job.part x.batch).segmentName := ha.2 _ rfl
    exact congrArg (BatchOutput.mk x.batch) hplaced
  constructor
  case claims_eq =>
    by_cases hopen : now.status = .processing
    · exact .inl (hnow.unclaimed hopen)
    · exact (hnow.claimed hopen).imp_right And.left
  case owner_stays =>
    intro hclaims
    have hclosed : now.status ≠ .processing := by
      intro hopen
      have := hnow.unclaimed hopen
      omega
    obtain hfew | ⟨-, hjoiner⟩ := hnow.claimed hclosed
    · omega
    · obtain ⟨j, hj⟩ := Option.isSome_iff_exists.mp hjoiner
      refine ⟨now, j, hnow.known, hj, fun s' hs' => ?_⟩
      obtain ⟨r', hr', hevolves, hsame⟩ := (hsound.reaches hs').2 now hnow.known
      exact ⟨(hsame hclosed).trans hclaims, r', hr', (hevolves.joiner_eq hclosed).trans hj⟩
  case nodup =>
    refine ⟨now, hnow.known, hnow.fits.nodup.map_on fun x hx y hy hxy => ?_⟩
    rw [houtput x hx, houtput y hy, hxy]
  case joins =>
    intro d hd r hstarts
    obtain ⟨hfits, hcomplete, hevolves, -⟩ := hstarts.complete hatomic hsound hd hnow.known
    have hmem : ∀ x ∈ r.orderedOutputs, x ∈ now.outputs := fun x hx =>
      hevolves.outputs_prefix.subset (JobRecord.mem_outputs_of_mem_orderedOutputs hx)
    refine ⟨?_, fun x hx => huploaded x (hmem x hx)⟩
    calc r.orderedOutputs
        = r.orderedOutputs.map fun x => job.outputOf address x.batch := by
          refine (List.map_id _).symm.trans (List.map_congr_left fun x hx => ?_)
          exact houtput x (hmem x hx)
      _ = (r.orderedOutputs.map BatchOutput.batch).map (job.outputOf address) := by
          rw [List.map_map]
          rfl
      _ = (List.range' 1 job.count).map (job.outputOf address) := by
          rw [hcomplete.batches_eq hfits.numbered]

/-- Both batches have reported, and the second joins them. -/
theorem oneOwner_of_pair : pair.Dispatched ⟨[pairRecord], 0⟩ ∧
    ∃ s : System (pair.deliver ⟨5, 30⟩) Ledger,
      System.Reaches (WorkerCall.Addressed fun id segment => id ++ "/" ++ segment)
        (fun _ _ => True) ⟨⟨[pairRecord], 0⟩, []⟩ s ∧
      (∃ d ∈ s.attempts, InJoin d) ∧
      OneOwner (fun id segment => id ++ "/" ++ segment) 0 s := by
  obtain ⟨s, d, r, h, hd, hjoin, -⟩ := exists_pair_inJoin fun id segment =>
    id ++ "/" ++ segment
  have hreach := h.mono WorkerCall.Faultless.addressed (fun _ => trivial)
  exact ⟨pair_dispatched, s, hreach, ⟨d, hd, hjoin⟩, oneOwner_of_reaches pair_dispatched hreach⟩

/-! ## Joins at the same time -/

theorem InJoin.owner {answers : (c : WorkerCall α) → Ledger → c.Answer → Ledger → Prop}
    {hatomic : ∀ {c l a l'}, answers c l a l' → WorkerCall.Atomic c l a l'} {claims : ℕ}
    {s : System (job.deliver limits) Ledger} {d : Attempt (job.deliver limits)} {r : JobRecord}
    (h : InJoin d) (hs : (job.discipline limits hatomic claims).Sound s) (hd : d ∈ s.attempts)
    (hr : s.shared.get? job.id = some r) : r.joiner = some d.message.number := by
  obtain ⟨r', hstarts⟩ := h.startsJoin
  exact (hstarts.complete hatomic hs hd hr).2.2.2.2

/-- While a join is not finished, a further delivery of its message joins beside it. -/
theorem InJoin.exists_beside {answers : (c : WorkerCall α) → Ledger → c.Answer → Ledger → Prop}
    {hatomic : ∀ {c l a l'}, answers c l a l' → WorkerCall.Atomic c l a l'} {claims : ℕ}
    {s : System (job.deliver limits) Ledger} {d : Attempt (job.deliver limits)} {r : JobRecord}
    (address : JobId → String → String) (h : InJoin d)
    (hs : (job.discipline limits hatomic claims).Sound s) (hd : d ∈ s.attempts)
    (hr : s.shared.get? job.id = some r) (hjoining : r.status = .joining) {m : job.Message}
    (hm : m.number = d.message.number) :
    ∃ l d', System.Reaches (WorkerCall.Faultless address) (fun _ _ => True) s
        ⟨l, s.attempts ++ [d']⟩ ∧ d'.message = m ∧ InJoin d' := by
  have howned : r.joinOwnedBy m.number = true := by
    simp [JobRecord.joinOwnedBy, hjoining, h.owner hs hd hr, hm]
  obtain ⟨r', hsane⟩ := hs.holds
  cases hr.symm.trans hsane.known
  exact exists_inJoin_of_joining address limits hr (hsane.fits.complete hjoining) m howned

/-- Two deliveries are in the middle of joining. -/
def TwoJoins (s : System (job.deliver limits) Ledger) : Prop :=
  ∃ (i j : ℕ) (d d' : Attempt (job.deliver limits)), i < j ∧ s.attempts[i]? = some d ∧
    s.attempts[j]? = some d' ∧ InJoin d ∧ InJoin d'

/-- Where no message is delivered while an earlier delivery of it is in flight, there is one join at
a time. Otherwise all joins at one time are still of one batch; and while a join is not finished, a
further delivery may come to join beside it exactly if it is one of the same message. -/
theorem twoJoins_iff (limits : WorkerLimits) {l : Ledger} (hl : job.Dispatched l) :
    (∀ s : System (job.deliver limits) Ledger,
      System.Reaches WorkerCall.Atomic job.OneByOne ⟨l, []⟩ s → ¬ TwoJoins s) ∧
    ∀ s : System (job.deliver limits) Ledger,
      System.Reaches WorkerCall.Atomic (fun _ _ => True) ⟨l, []⟩ s →
      (∀ d ∈ s.attempts, InJoin d →
        ∃ r, s.shared.get? job.id = some r ∧ r.joiner = some d.message.number) ∧
      ∀ d ∈ s.attempts, InJoin d → ∀ r, s.shared.get? job.id = some r → r.status = .joining →
        ∀ m : job.Message,
          (∃ l' d', System.Reaches WorkerCall.Atomic (fun _ _ => True) s ⟨l', s.attempts ++ [d']⟩ ∧
            d'.message = m ∧ InJoin d') ↔ m.number = d.message.number := by
  have hstart := (job.discipline limits (fun h : WorkerCall.Atomic _ _ _ _ => h)
    l.claims).sound_of_holds hl.sane
  have howner : ∀ s : System (job.deliver limits) Ledger,
      System.Reaches WorkerCall.Atomic (fun _ _ => True) ⟨l, []⟩ s → ∀ d ∈ s.attempts, InJoin d →
        ∃ r, s.shared.get? job.id = some r ∧ r.joiner = some d.message.number := by
    intro s h d hd hjoin
    have hsound := (hstart.reaches h).1
    obtain ⟨r, hr⟩ := hsound.holds
    exact ⟨r, hr.known, hjoin.owner hsound hd hr.known⟩
  refine ⟨?_, fun s h => ⟨howner s h, ?_⟩⟩
  · rintro s h ⟨i, j, d, d', hij, hi, hj, hd, hd'⟩
    have hany : System.Reaches WorkerCall.Atomic (fun _ _ => True) ⟨l, []⟩ s :=
      h.mono (fun h => h) (fun _ => trivial)
    obtain ⟨r, hr, howned⟩ := howner s hany d (List.mem_of_getElem? hi) hd
    obtain ⟨r', hr', howned'⟩ := howner s hany d' (List.mem_of_getElem? hj) hd'
    cases hr.symm.trans hr'
    have hnumber : d.message.number = d'.message.number :=
      Option.some.inj (howned.symm.trans howned')
    have hqueued : Discipline.Queued _ Message.number s := hstart.queued_reaches
      (by simp [Discipline.Queued]) (fun s m hm d hd hkey => hm d hd hkey) h
    exact (hqueued i j d d' hij hi hj hnumber).1 hd.inFlight
  · intro d hd hjoin r hr hjoining m
    constructor
    · rintro ⟨l', d', h', rfl, hjoin'⟩
      obtain ⟨r₁, hr₁, howned⟩ := howner _ (h.trans h') d (List.mem_append_left _ hd) hjoin
      obtain ⟨r₂, hr₂, howned'⟩ := howner _ (h.trans h') d' List.mem_concat_self hjoin'
      cases hr₁.symm.trans hr₂
      exact Option.some.inj (howned'.symm.trans howned)
    · intro hnumber
      obtain ⟨l', d', h', hd'⟩ := hjoin.exists_beside (fun _ segment => segment)
        (hstart.reaches h).1 hd hr hjoining hnumber
      exact ⟨l', d', h'.mono (fun h => h.addressed.1) (fun h => h), hd'⟩

/-- The second batch joins, there is no other join, and its message is delivered once more. -/
theorem twoJoins_iff_pair : pair.Dispatched ⟨[pairRecord], 0⟩ ∧
    ∃ s : System (pair.deliver ⟨5, 30⟩) Ledger,
      System.Reaches WorkerCall.Atomic pair.OneByOne ⟨⟨[pairRecord], 0⟩, []⟩ s ∧ ¬ TwoJoins s ∧
      ∃ d ∈ s.attempts, InJoin d ∧ ∃ l' d', d'.message = d.message ∧ InJoin d' ∧
        System.Reaches WorkerCall.Atomic (fun _ _ => True) s ⟨l', s.attempts ++ [d']⟩ := by
  obtain ⟨s, d, r, h, hd, hjoin, hr, hjoining⟩ := exists_pair_inJoin fun id segment =>
    id ++ "/" ++ segment
  obtain ⟨hone, htwo⟩ := twoJoins_iff ⟨5, 30⟩ pair_dispatched
  have hqueued : System.Reaches WorkerCall.Atomic pair.OneByOne ⟨⟨[pairRecord], 0⟩, []⟩ s :=
    h.mono (fun h => h.addressed.1) (fun hidle d hd _ => hidle d hd)
  have hany : System.Reaches WorkerCall.Atomic (fun _ _ => True) ⟨⟨[pairRecord], 0⟩, []⟩ s :=
    h.mono (fun h => h.addressed.1) (fun _ => trivial)
  obtain ⟨l', d', h', hmessage, hjoin'⟩ :=
    ((htwo s hany).2 d hd hjoin r hr hjoining d.message).mpr rfl
  exact ⟨pair_dispatched, s, hqueued, hone s hqueued, d, hd, hjoin, l', d', hmessage, hjoin', h'⟩

/-- Nothing fails, and yet two deliveries of the second batch join at the same time. -/
theorem not_one_join : ¬ ∀ s : System (pair.deliver ⟨5, 30⟩) Ledger,
    System.Reaches (WorkerCall.Faultless fun id segment => id ++ "/" ++ segment) (fun _ _ => True)
      ⟨⟨[pairRecord], 0⟩, []⟩ s → ¬ TwoJoins s := by
  intro hone
  obtain ⟨s, d, r, h, hd, hjoin, hr, hjoining⟩ := exists_pair_inJoin fun id segment =>
    id ++ "/" ++ segment
  have hany : System.Reaches (WorkerCall.Faultless fun id segment => id ++ "/" ++ segment)
      (fun _ _ => True) ⟨⟨[pairRecord], 0⟩, []⟩ s := h.mono (fun h => h) (fun _ => trivial)
  have hsound := (((pair.discipline ⟨5, 30⟩ (fun h => h.addressed.1) 0).sound_of_holds
    pair_dispatched.sane).reaches hany).1
  obtain ⟨l', d', h', -, hjoin'⟩ := hjoin.exists_beside _ hsound hd hr hjoining rfl
  obtain ⟨i, hi⟩ := List.mem_iff_getElem?.mp hd
  have hlen : i < s.attempts.length := (List.getElem?_eq_some_iff.mp hi).1
  refine hone _ (hany.trans h') ⟨i, s.attempts.length, d, d', hlen, ?_, ?_, hjoin, hjoin'⟩
  · rw [List.getElem?_append_left hlen, hi]
  · exact List.getElem?_concat_length

end Slideshow.SplitJob
