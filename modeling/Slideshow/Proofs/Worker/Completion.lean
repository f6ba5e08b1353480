import Slideshow.Proofs.Worker.Succession
import Mathlib.Data.Finset.Max
import Mathlib.Order.Interval.Finset.Nat

/-! # No job is left hanging

A delivery that returns has ended the job, or left the join to a delivery that still has to return.
Once the latest delivery of every batch has returned, the job has ended. -/

namespace Slideshow.SplitJob

open WorkerExchange

variable {α : Type} [Scalar α] {job : SplitJob α} {limits : WorkerLimits} {claims : ℕ}
  {s : System (job.deliver limits) Ledger} {d : Attempt (job.deliver limits)} {now : JobRecord}

variable (job limits claims) in
/-- The rules of the deliveries where the store never fails. -/
abbrev reliably : Discipline (job.deliver limits) WorkerCall.Reliable :=
  job.discipline limits WorkerCall.Reliable.atomic claims

/-! ## What is known of a load that comes later -/

omit [Scalar α] in
theorem Happened.answered {c : StoreCall} {a : c.Answer} {l : Ledger} (hc : c.jobId = job.id)
    (h : job.Happened WorkerCall.Reliable claims ⟨.store c, a⟩ l) : ∃ reply, a = .ok reply := by
  obtain ⟨before, after, ⟨r, hr⟩, ha, -⟩ := h
  exact ⟨c.reply r, ha.eq_ok (hc ▸ hr.known)⟩

/-- What was over before a record was loaded had happened to that record. -/
theorem Precedes.loaded {l : Ledger} {e : WorkerExchange α} {r : JobRecord}
    (h : (job.reliably limits claims).Precedes l e (loaded job.id r))
    (hnow : l.get? job.id = some now) :
    ∃ before, job.Sane claims before r ∧ job.Happened WorkerCall.Reliable claims e before ∧
      r.Evolves now := by
  obtain ⟨before, after, ⟨r', hr'⟩, ha, hafter, he⟩ := h
  obtain ⟨hreply, hsame⟩ := Prod.mk.inj ha
  rw [hsame] at hafter
  cases (Except.ok.inj hreply).trans hr'.known
  obtain ⟨r'', hr'', hevolves, -⟩ := hafter _ hr'.known
  cases hnow.symm.trans hr''
  exact ⟨before, hr', he, hevolves⟩

/-! ## What a delivery that returned has seen -/

variable (job) in
/-- The delivery saw the output of its own batch recorded while others were missing. -/
structure Waited (b : ℕ) (r now : JobRecord) : Prop where
  fits : job.Fits r
  evolves : r.Evolves now
  hasReceived : r.hasReceived b = true
  not_owned : r.joinOwnedBy b = false
  not_ready : r.readyToJoin = false

theorem Leaves.waited (hs : (job.reliably limits claims).Sound s) (hd : d ∈ s.attempts)
    {t : List (WorkerExchange α)} {b : ℕ} {r : JobRecord}
    (htrace : d.trace = t ++ [loaded job.id r]) (hreported : (job.part b).Reported t)
    (howned : r.joinOwnedBy b = false) (hready : r.readyToJoin = false)
    (hnow : s.shared.get? job.id = some now) :
    job.Waited b r now := by
  have hbefore : ∀ e ∈ t, ∃ before, job.Sane claims before r ∧
      job.Happened WorkerCall.Reliable claims e before ∧ r.Evolves now := by
    intro e he
    have hordered := hs.ordered d hd
    rw [htrace, List.pairwise_append] at hordered
    exact Precedes.loaded (hordered.2.2 e he _ (List.mem_singleton.mpr rfl)) hnow
  rcases hreported with ⟨r', hr', hreceived⟩ | ⟨url, happended⟩
  · rw [part_jobId] at hr'
    rw [part_batch] at hreceived
    obtain ⟨before, hsane, hhappened, hevolves⟩ := hbefore _ hr'
    obtain ⟨-, hevolves'⟩ := Happened.loaded WorkerCall.Reliable.atomic hhappened hsane.known
    exact ⟨hsane.fits, hevolves, hevolves'.hasReceived hreceived, howned, hready⟩
  · rw [part_jobId, part_batch] at happended
    obtain ⟨before, hsane, hhappened, hevolves⟩ := hbefore _ happended
    have hmem := Happened.appended WorkerCall.Reliable.atomic hhappened hsane.known
    exact ⟨hsane.fits, hevolves, JobRecord.hasReceived_of_mem hmem, howned, hready⟩

/-- A delivery that returned has ended the job, or it has lost the join to another batch, or it has
waited for one. -/
theorem returned_cases (hs : (job.reliably limits claims).Sound s) (hd : d ∈ s.attempts)
    (hcrashed : d.crashed = false) (hidle : ¬ d.InFlight)
    (hnow : s.shared.get? job.id = some now) :
    now.status.isTerminal = true ∨
      (now.status ≠ .processing ∧ now.joinOwnedBy d.message.number = false) ∨
      ∃ t r, d.trace = t ++ [loaded job.id r] ∧ job.Waited d.message.number r now := by
  obtain ⟨value, hvalue⟩ := Attempt.rest_eq_done hcrashed hidle
  have hsettles := (Worker.meets_handle limits d.message.place
    (job.part d.message.number)).ends_of_leads (hvalue ▸ d.leads)
  rw [List.nil_append] at hsettles
  cases value with
  | error e =>
      obtain ⟨reason, a, hfailed⟩ := hsettles
      rw [part_jobId] at hfailed
      have hid : (StoreCall.markFailed job.id reason).jobId = job.id := rfl
      obtain ⟨reply, rfl⟩ := Happened.answered hid (hs.happened d hd _ hfailed)
      exact .inl (Happened.ended WorkerCall.Reliable.atomic hid (fun _ => rfl)
        (hs.happened d hd _ hfailed) hnow)
  | ok _ =>
      rcases hsettles with hleaves | ⟨r, video, hloaded, hfinished⟩
      · cases hleaves with
        | failed r hloaded hfailed =>
            rw [part_jobId] at hloaded
            obtain ⟨-, hevolves⟩ :=
              Happened.loaded WorkerCall.Reliable.atomic (hs.happened d hd _ hloaded) hnow
            exact .inl (hevolves.stays_ended (by rw [hfailed]; rfl))
        | lost hlost =>
            rw [part_jobId, part_batch] at hlost
            obtain ⟨r, hclosed, hother, hevolves⟩ :=
              Happened.claimed WorkerCall.Reliable.atomic (hs.happened d hd _ hlost) hnow
            exact .inr (.inl ⟨hclosed ∘ hevolves.was_open, hevolves.not_joinOwnedBy hclosed hother⟩)
        | waiting t r htrace hreported howned hready =>
            rw [part_jobId] at htrace
            rw [part_batch] at howned
            exact .inr (.inr ⟨t, r, htrace,
              Leaves.waited hs hd htrace hreported howned hready hnow⟩)
      · rw [part_jobId] at hloaded
        obtain ⟨⟨_, hr⟩, -⟩ :=
          Happened.loaded WorkerCall.Reliable.atomic (hs.happened d hd _ hloaded) hnow
        have hid : (StoreCall.setStatus r.id .processed video).jobId = job.id :=
          Ledger.id_of_get? hr.known
        exact .inl (Happened.ended WorkerCall.Reliable.atomic hid (fun _ => rfl)
          (hs.happened d hd _ hfinished) hnow)

/-! ## The owner of a join has been told so -/

/-- While a join is under way, some delivery of its owner has been told that the join is its own. -/
theorem exists_claimed {admits : System (job.deliver limits) Ledger → job.Message → Prop}
    {l : Ledger} (hl : job.Dispatched l)
    (h : System.Reaches WorkerCall.Reliable admits ⟨l, []⟩ s)
    (hnow : s.shared.get? job.id = some now) (hjoining : now.status = .joining) :
    ∃ d ∈ s.attempts, now.joiner = some d.message.number ∧
      claimed job.id d.message.number true ∈ d.trace := by
  have hsound := (job.reliably limits l.claims).sound_of_holds hl.sane
  let Owned : Ledger → Prop := fun l =>
    ∃ r, l.get? job.id = some r ∧ r.status = .joining ∧ r.joiner = now.joiner
  let Told : job.Message → List (WorkerExchange α) → Prop := fun m t =>
    now.joiner = some m.number ∧ claimed job.id m.number true ∈ t
  have hgrow : ∀ {m t e}, Told m t → Told m (t ++ [e]) := by
    rintro m t e ⟨hnumber, hmem⟩
    exact ⟨hnumber, List.mem_append_left _ hmem⟩
  refine hsound.traced Owned Told hgrow ?_ ?_ h ⟨now, hnow, hjoining, rfl⟩
  · rintro m t c next l a l' hleads ⟨r, hr⟩ htold ha ⟨r', hr', hjoining', hj⟩
    cases c with
    | store c =>
        obtain ⟨hissues, hallows, rfl | ⟨hknown, -⟩⟩ :=
          store_cases WorkerCall.Reliable.atomic hleads hr htold ha
        · exact .inl ⟨r', hr', hjoining', hj⟩
        · cases hr'.symm.trans hknown
          rcases StoreCall.joining_change hallows.ofBatch hjoining' with
            ⟨hjoining, hsame⟩ | ⟨hopen, id, b, rfl⟩
          · exact .inl ⟨r, hr.known, hjoining, hsame.symm.trans hj⟩
          · obtain ⟨hid, hnumber, -⟩ := hissues
            rw [part_jobId] at hid
            rw [part_batch] at hnumber
            subst hid hnumber
            rw [StoreCall.change, if_pos hopen] at hj
            have hanswer : a = Except.ok true :=
              (ha.eq_ok hr.known).trans (congrArg _ (StoreCall.reply_claimJoin _ _ hopen))
            subst hanswer
            exact .inr ⟨hj.symm, List.mem_concat_self⟩
    | _ =>
        cases ha
        exact .inl ⟨r', hr', hjoining', hj⟩
  · rintro ⟨r, hr, hjoining, -⟩
    obtain ⟨r', hr', hopen, -⟩ := hl
    cases hr.symm.trans hr'
    cases hopen.symm.trans hjoining

/-! ## Nobody waits for nobody -/

variable (job) in
omit [Scalar α] in
/-- Not every batch can have seen an open job with others missing: the last of them to look saw the
outputs of all. -/
theorem not_all_waited (hopen : now.status = .processing)
    (hall : ∀ b, 1 ≤ b → b ≤ job.count → ∃ r, job.Waited b r now) : False := by
  have hbatches : ∀ b : ℕ, ∃ r, b ∈ Finset.Icc 1 job.count → job.Waited b r now := by
    intro b
    by_cases hb : b ∈ Finset.Icc 1 job.count
    · obtain ⟨hpos, hle⟩ := Finset.mem_Icc.mp hb
      obtain ⟨r, hr⟩ := hall b hpos hle
      exact ⟨r, fun _ => hr⟩
    · exact ⟨now, fun h => (hb h).elim⟩
  choose seen hseen using hbatches
  have hfirst : 1 ∈ Finset.Icc 1 job.count := Finset.mem_Icc.mpr ⟨le_rfl, job.count_pos⟩
  -- what the batches saw grew into one list of outputs, so the longest view holds all others
  obtain ⟨b, hb, hlongest⟩ :=
    Finset.exists_max_image (Finset.Icc 1 job.count) (fun b => (seen b).outputs.length) ⟨1, hfirst⟩
  have hlast := hseen b hb
  have hcomplete : (seen b).Complete job.count := by
    intro c hpos hle
    have hc : c ∈ Finset.Icc 1 job.count := Finset.mem_Icc.mpr ⟨hpos, hle⟩
    have hother := hseen c hc
    have hinitial : (seen c).outputs <+: (seen b).outputs :=
      List.prefix_of_prefix_length_le hother.evolves.outputs_prefix hlast.evolves.outputs_prefix
        (hlongest c hc)
    have hreceived := JobRecord.hasReceived_iff.mp hother.hasReceived
    exact JobRecord.hasReceived_iff.mpr ((hinitial.map _).subset hreceived)
  have hready := (hlast.fits.numbered.readyToJoin_iff hlast.fits.expected_eq job.count_pos).mpr
    ⟨hlast.evolves.was_open hopen, hcomplete⟩
  cases hready.symm.trans hlast.not_ready

/-- A delivery that looks after the join was handed to its batch sees that. -/
theorem joinOwnedBy_of_precedes {l : Ledger} {b : ℕ} {r : JobRecord}
    (h : (job.reliably limits claims).Precedes l (claimed job.id b true) (loaded job.id r))
    (hnow : l.get? job.id = some now) (hjoining : now.status = .joining) :
    r.joinOwnedBy b = true := by
  obtain ⟨before, hsane, hhappened, hevolves⟩ := Precedes.loaded h hnow
  obtain ⟨r', hclosed, howned, hevolves'⟩ :=
    Happened.claimed WorkerCall.Reliable.atomic hhappened hsane.known
  simp only [JobRecord.joinOwnedBy, Bool.and_eq_true, beq_iff_eq] at howned ⊢
  have hstill := (hevolves.was_joining hjoining).resolve_left (hclosed ∘ hevolves'.was_open)
  exact ⟨hstill, (hevolves'.joiner_eq hclosed).trans howned.2⟩

/-- The latest delivery of a batch. -/
def IsLatest (s : System (job.deliver limits) Ledger) (b : ℕ) (d : Attempt (job.deliver limits)) :
    Prop :=
  ∃ i, s.attempts[i]? = some d ∧ d.message.number = b ∧
    ∀ (j : ℕ) (d' : Attempt (job.deliver limits)), i < j → s.attempts[j]? = some d' →
      d'.message.number ≠ b

theorem IsLatest.mem {b : ℕ} (h : IsLatest s b d) : d ∈ s.attempts := by
  obtain ⟨i, hi, -⟩ := h
  exact List.mem_of_getElem? hi

theorem IsLatest.number_eq {b : ℕ} (h : IsLatest s b d) : d.message.number = b := by
  obtain ⟨i, -, hnumber, -⟩ := h
  exact hnumber

/-- Whatever another delivery of the batch was told came before the last call of the latest one. -/
theorem IsLatest.precedes {D : Discipline (job.deliver limits) WorkerCall.Reliable} {b : ℕ}
    (h : IsLatest s b d) (hs : D.Sound s) (hqueued : D.Queued Message.number s)
    {d' : Attempt (job.deliver limits)} (hd' : d' ∈ s.attempts) (hnumber : d'.message.number = b)
    {t : List (WorkerExchange α)} {e e' : WorkerExchange α} (htrace : d.trace = t ++ [e'])
    (he : e ∈ d'.trace) (hne : e ≠ e') : D.Precedes s.shared e e' := by
  obtain ⟨i, hi, hb, hlatest⟩ := h
  obtain ⟨j, hj⟩ := List.mem_iff_getElem?.mp hd'
  rcases Nat.lt_trichotomy i j with hij | rfl | hji
  · exact (hlatest j d' hij hj hnumber).elim
  · cases hi.symm.trans hj
    have hordered := hs.ordered d hd'
    rw [htrace, List.pairwise_append] at hordered
    rw [htrace] at he
    rcases List.mem_append.mp he with he | he
    · exact hordered.2.2 e he e' (List.mem_singleton.mpr rfl)
    · exact (hne (List.mem_singleton.mp he)).elim
  · refine (hqueued j i d' d hji hj hi (hnumber.trans hb.symm)).2 e he e' ?_
    rw [htrace]
    exact List.mem_concat_self

/-- Once the latest delivery of every batch has returned, the job has ended, whatever became of the
deliveries before. -/
theorem isTerminal_of_isLatest {l : Ledger} (hl : job.Dispatched l)
    (h : System.Reaches WorkerCall.Reliable job.OneByOne ⟨l, []⟩ s)
    (hidle : ∀ d ∈ s.attempts, ¬ d.InFlight)
    (hlatest : ∀ b, 1 ≤ b → b ≤ job.count → ∃ d, IsLatest s b d ∧ d.crashed = false) :
    ∃ r, s.shared.get? job.id = some r ∧ r.status.isTerminal = true := by
  have hstart := (job.reliably limits l.claims).sound_of_holds hl.sane
  have hs := (hstart.reaches h).1
  have hqueued : (job.reliably limits l.claims).Queued Message.number s :=
    hstart.queued_reaches (by simp [Discipline.Queued]) (fun s m hm d hd hkey => hm d hd hkey) h
  obtain ⟨now, hsane⟩ := hs.holds
  have hnow := hsane.known
  refine ⟨now, hnow, ?_⟩
  by_contra hended
  have hreturned : ∀ b, 1 ≤ b → b ≤ job.count → ∃ d, IsLatest s b d ∧
      ((now.status ≠ .processing ∧ now.joinOwnedBy b = false) ∨
        ∃ t r, d.trace = t ++ [loaded job.id r] ∧ job.Waited b r now) := by
    intro b hpos hle
    obtain ⟨d, hd, hcrashed⟩ := hlatest b hpos hle
    have hcases := returned_cases hs hd.mem hcrashed (hidle d hd.mem) hnow
    rw [hd.number_eq] at hcases
    exact ⟨d, hd, hcases.resolve_left hended⟩
  cases hstatus : now.status with
  | processing =>
      refine job.not_all_waited hstatus fun b hpos hle => ?_
      obtain ⟨d, -, ⟨hclosed, -⟩ | ⟨t, r, -, hwaited⟩⟩ := hreturned b hpos hle
      · exact (hclosed hstatus).elim
      · exact ⟨r, hwaited⟩
  | joining =>
      -- the owner was told so before its latest delivery looked for the last time
      obtain ⟨d', hd', hj, htold⟩ := exists_claimed hl h hnow hstatus
      obtain ⟨d, hd, ⟨-, hother⟩ | ⟨t, r, htrace, hwaited⟩⟩ :=
        hreturned _ d'.message.one_le d'.message.le_count
      · simp [JobRecord.joinOwnedBy, hstatus, hj] at hother
      · have hne : claimed job.id d'.message.number true ≠ loaded (α := α) job.id r := by
          intro heq
          cases congrArg Exchange.call heq
        have hprecedes := hd.precedes hs hqueued hd' rfl htrace htold hne
        cases (joinOwnedBy_of_precedes hprecedes hnow hstatus).symm.trans hwaited.not_owned
  | processed => simp [hstatus, JobStatus.isTerminal] at hended
  | failed => simp [hstatus, JobStatus.isTerminal] at hended

/-- Both batches are delivered, and the job has ended. -/
theorem isTerminal_of_pair : pair.Dispatched ⟨[pairRecord], 0⟩ ∧
    ∃ s : System (pair.deliver ⟨5, 30⟩) Ledger,
      System.Reaches WorkerCall.Reliable pair.OneByOne ⟨⟨[pairRecord], 0⟩, []⟩ s ∧
      (∀ d ∈ s.attempts, ¬ d.InFlight) ∧
      (∀ b, 1 ≤ b → b ≤ pair.count → ∃ d, IsLatest s b d ∧ d.crashed = false) ∧
      ∃ r, s.shared.get? pair.id = some r ∧ r.status.isTerminal = true := by
  have hanswers : ∀ (c : WorkerCall Rat) (l : Ledger), ∃ a l', c.Reliable l a l' := by
    intro c l
    obtain ⟨a, l', h, -⟩ := c.exists_faultless (fun _ segment => segment) l
    exact ⟨a, l', h⟩
  let first : pair.Message := ⟨1, le_rfl, by decide, ⟨"first", fun _ => 0, []⟩⟩
  let second : pair.Message := ⟨2, by decide, le_rfl, ⟨"second", fun _ => 0, []⟩⟩
  obtain ⟨l₁, d₁, h₁, hfirst, hcrashed₁, hidle₁⟩ := System.Reaches.exists_ended hanswers
    (s := (⟨⟨[pairRecord], 0⟩, []⟩ : System (pair.deliver ⟨5, 30⟩) Ledger)) (m := first)
    (show pair.OneByOne _ _ by simp [OneByOne])
  obtain ⟨l₂, d₂, h₂, hsecond, hcrashed₂, hidle₂⟩ := System.Reaches.exists_ended hanswers
    (s := ⟨l₁, [d₁]⟩) (m := second)
    (show pair.OneByOne _ _ by simp [OneByOne, hidle₁])
  have hreach := h₁.trans h₂
  have hidle : ∀ d ∈ [d₁, d₂], ¬ d.InFlight := by simp [hidle₁, hidle₂]
  have hlatest : ∀ b, 1 ≤ b → b ≤ pair.count → ∃ d,
      IsLatest (⟨l₂, [d₁, d₂]⟩ : System (pair.deliver ⟨5, 30⟩) Ledger) b d ∧
        d.crashed = false := by
    intro b hpos hle
    have hb : b = 1 ∨ b = 2 := by
      have : b ≤ 2 := hle
      omega
    rcases hb with rfl | rfl
    · refine ⟨d₁, ⟨0, rfl, by rw [hfirst], fun j d' hj hd' => ?_⟩, hcrashed₁⟩
      have hlast := (List.getElem?_eq_some_iff.mp hd').1
      obtain rfl : j = 1 := by
        simp only [List.length_cons, List.length_nil] at hlast
        omega
      cases Option.some.inj hd'
      rw [hsecond]
      decide
    · refine ⟨d₂, ⟨1, rfl, by rw [hsecond], fun j d' hj hd' => ?_⟩, hcrashed₂⟩
      have hlast := (List.getElem?_eq_some_iff.mp hd').1
      simp only [List.length_cons, List.length_nil] at hlast
      omega
  exact ⟨pair_dispatched, _, hreach, hidle, hlatest,
    isTerminal_of_isLatest pair_dispatched hreach hidle hlatest⟩

end Slideshow.SplitJob
