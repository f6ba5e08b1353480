import Slideshow.Proofs.Worker.Holdings
import Slideshow.Proofs.Worker.OnePass
import Slideshow.Proofs.Worker.Succession

/-! # All or nothing

Whatever fails while a message is handled: a delivery that fails leaves a failed job with its reason
and the video it had; only a join depends on a track; and every address in a record leads to
something that is stored. -/

namespace Slideshow

open WorkerExchange

variable {α : Type}

/-! ## Referential integrity -/

/-- Something is stored under every address in the record. -/
structure JobRecord.StoredIn (objects : List String) (r : JobRecord) : Prop where
  outputs : ∀ output ∈ r.outputs, output.output ∈ objects
  video : ∀ url, r.video = some url → url ∈ objects

theorem JobRecord.StoredIn.mono {objects objects' : List String} {r : JobRecord}
    (h : r.StoredIn objects) (hsubset : objects ⊆ objects') : r.StoredIn objects' :=
  ⟨fun output hmem => hsubset (h.outputs output hmem), fun url hurl => hsubset (h.video url hurl)⟩

theorem JobRecord.storedIn_fresh (id : JobId) (now : Timestamp) (objects : List String) :
    (JobRecord.fresh id now).StoredIn objects :=
  ⟨fun _ h => (nomatch h), fun _ h => nomatch h⟩

theorem StoreCall.storedIn_change {c : StoreCall} {r : JobRecord} {objects : List String}
    (h : r.StoredIn objects)
    (houtput : ∀ id output, c = .appendOutput id output → output.output ∈ objects)
    (hvideo : ∀ id status url, c = .setStatus id status (some url) → url ∈ objects) :
    (c.change r).StoredIn objects where
  outputs output hmem := by
    rcases mem_outputs_change hmem with hmem | ⟨id, hc⟩
    · exact h.outputs output hmem
    · exact houtput id output hc
  video url hurl := by
    rcases video_change hurl with hurl | ⟨id, status, hc⟩
    · exact h.video url hurl
    · exact hvideo id status url hc

/-- All addresses in all records lead to something stored. -/
def Holdings.Intact (x : Holdings) : Prop :=
  ∀ id r, x.ledger.get? id = some r → r.StoredIn x.objects

/-- All jobs were just accepted. -/
def Holdings.Fresh (x : Holdings) : Prop :=
  ∀ id r, x.ledger.get? id = some r → ∃ now, r = .fresh id now

theorem Holdings.Fresh.intact {x : Holdings} (h : x.Fresh) : x.Intact := by
  intro id r hr
  obtain ⟨now, rfl⟩ := h id r hr
  exact JobRecord.storedIn_fresh id now x.objects

/-- A message, and where and within which limits it is handled. -/
structure Assignment (α : Type) where
  limits : WorkerLimits
  place : Workplace
  job : QueueJob α

namespace Assignment

variable [Scalar α]

/-- The handling of the message. -/
def run (m : Assignment α) : Program (WorkerCall.Answer (α := α)) (Except WorkerError Unit) :=
  Worker.handle m.limits m.place m.job

variable {m : Assignment α} {t : List (WorkerExchange α)} {x y : Holdings}

omit [Scalar α] in
/-- What was stored earlier in a run is still there. -/
theorem mem_of_stored {url : String} (h : Stored t url)
    (htold : ∀ e ∈ t, e.Happened WorkerCall.AllOrNothing Holdings.Intact
      (fun x y => x.objects ⊆ y.objects) x) : url ∈ x.objects := by
  obtain ⟨id, segment, path, hmem⟩ := h
  obtain ⟨before, after, -, hstored, hkept⟩ := htold _ hmem
  exact hkept hstored.mem_of_uploaded

theorem intact_step {c : WorkerCall α} {next : c.Answer → Program _ _} {a : c.Answer}
    (hleads : m.run.Leads t (.call c next)) (hx : x.Intact)
    (htold : ∀ e ∈ t, e.Happened WorkerCall.AllOrNothing Holdings.Intact
      (fun x y => x.objects ⊆ y.objects) x)
    (ha : c.AllOrNothing x a y) : y.Intact ∧ x.objects ⊆ y.objects := by
  have hnames := (Worker.meets_handle_careful m.limits m.place m.job).issues_of_leads hleads
  rw [List.nil_append] at hnames
  refine ⟨fun id r hr => ?_, ha.subset⟩
  rcases ha.ledger_cases with hledger | ⟨s, reply, heq, hledger⟩
  · rw [hledger] at hr
    exact (hx id r hr).mono ha.subset
  · cases heq
    rw [hledger, Ledger.get?_answer] at hr
    split at hr
    · obtain ⟨before, hbefore, rfl⟩ := Option.map_eq_some_iff.mp hr
      refine StoreCall.storedIn_change ((hx id before hbefore).mono ha.subset) ?_ ?_
      · rintro _ output rfl
        exact ha.subset (mem_of_stored hnames htold)
      · rintro _ _ url rfl
        exact ha.subset (mem_of_stored hnames htold)
    · exact (hx id r hr).mono ha.subset

variable (α) in
/-- The rules of all deliveries: addresses lead to something stored, and nothing stored is lost. -/
def discipline : Discipline (run (α := α)) WorkerCall.AllOrNothing where
  Holds := Holdings.Intact
  Evolves x y := x.objects ⊆ y.objects
  refl x := List.Subset.refl x.objects
  trans h h' := fun _ hmem => h' (h hmem)
  step := intact_step

theorem intact_of_reaches {admits : System (run (α := α)) Holdings → Assignment α → Prop}
    {s : System (run (α := α)) Holdings} (hx : x.Intact)
    (hreaches : System.Reaches WorkerCall.AllOrNothing admits ⟨x, []⟩ s) : s.shared.Intact :=
  ((Discipline.sound_of_holds (D := discipline α) hx).reaches hreaches).1.holds

/-! ## Failures -/

/-- The job has failed for this reason, and still has the video that it had. -/
def Failed (id : JobId) (e : WorkerError) (x y : Holdings) : Prop :=
  ∃ r r', x.ledger.get? id = some r ∧ y.ledger.get? id = some r' ∧
    r'.status = .failed ∧ r'.error = some e.message ∧ r'.video = r.video

omit [Scalar α] in
/-- As long as no job is ended, videos stay what they are. -/
theorem video_eq_of_unended (ht : Unended t) (h : System.Allowed WorkerCall.AllOrNothing t x y)
    (id : JobId) :
    (y.ledger.get? id).map JobRecord.video = (x.ledger.get? id).map JobRecord.video := by
  induction h with
  | nil x => rfl
  | @cons e t x y z ha _ ih =>
      have hrest : Unended t := fun c hc reply hmem => ht c hc reply (List.mem_cons_of_mem e hmem)
      rw [ih hrest]
      rcases ha.ledger_cases with hledger | ⟨s, reply, heq, hledger⟩
      · rw [hledger]
      · have hends : ¬ s.Ends := by
          intro hs
          refine ht s hs reply (List.mem_cons.mpr (.inl ?_))
          exact heq.symm
        rw [hledger, Ledger.get?_answer]
        split
        · rw [Option.map_map]
          congr 1
          funext r
          exact StoreCall.video_change_of_not_ends hends r
        · rfl

/-- A delivery that fails has ended nothing before, and notes with its last call why it fails. -/
theorem failed_of_marked {e : WorkerError} {id : JobId} {reason : String}
    (hleads : m.run.Leads t (.done (.error e))) (h : System.Allowed WorkerCall.AllOrNothing t x y)
    (hmarked : ⟨.store (.markFailed id reason), .ok ()⟩ ∈ t) :
    Failed m.job.jobId e x y ∧
      ∀ id status video, ⟨.store (.setStatus id status video), .ok ()⟩ ∉ t := by
  obtain ⟨u, a, hu, hunended⟩ := (Worker.meets_handle_careful m.limits m.place m.job).ends_of_leads
    hleads e rfl
  rw [List.nil_append] at hu
  subst hu
  have hlast : (⟨.store (.markFailed id reason), .ok ()⟩ : WorkerExchange α) =
      ⟨.store (.markFailed m.job.jobId e.message), a⟩ := by
    rcases List.mem_append.mp hmarked with hmem | hmem
    · exact (hunended (.markFailed id reason) trivial () hmem).elim
    · exact List.mem_singleton.mp hmem
  cases hlast
  obtain ⟨before, hbefore, hlast⟩ := h.of_append
  obtain _ | ⟨ha, ⟨⟩⟩ := hlast
  refine ⟨?_, fun id status video hmem => ?_⟩
  · obtain ⟨_, -, hanswer, -⟩ := ha.resolve_right fun h => h.1 ⟨(), rfl⟩
    have hvideo := video_eq_of_unended hunended hbefore m.job.jobId
    have hafter := Ledger.get?_answer (.markFailed m.job.jobId e.message) before.ledger m.job.jobId
    rw [hanswer, StoreCall.jobId, if_pos rfl] at hafter
    cases hr : before.ledger.get? m.job.jobId with
    | none =>
        simp only [Ledger.answer, Ledger.update, hr] at hanswer
        cases hanswer
    | some r =>
        rw [hr, Option.map_some] at hafter hvideo
        obtain ⟨r₀, hr₀, hsame⟩ := Option.map_eq_some_iff.mp hvideo.symm
        exact ⟨r₀, _, hr₀, hafter, rfl, rfl, hsame.symm⟩
  · rcases List.mem_append.mp hmem with hmem | hmem
    · exact hunended (.setStatus id status video) trivial () hmem
    · cases List.mem_singleton.mp hmem

/-- A delivery is all or nothing. One that fails and can note it leaves a failed job with its reason
and the video it had, and has finished nothing. A request never fails for want of a track, a join
always does. Whatever fails and whenever workers crash, all addresses in all records lead to
something stored. -/
theorem all_or_nothing :
    (∀ (m : Assignment α) (t : List (WorkerExchange α)) (e : WorkerError) (x y : Holdings)
      (id : JobId) (reason : String), m.run.Leads t (.done (.error e)) →
      System.Allowed WorkerCall.AllOrNothing t x y →
      ⟨.store (.markFailed id reason), .ok ()⟩ ∈ t →
      Failed m.job.jobId e x y ∧
        ∀ id status video, ⟨.store (.setStatus id status video), .ok ()⟩ ∉ t) ∧
    (∀ (request : VideoRequest α) (limits : WorkerLimits) (w : Workplace)
      (t : List (WorkerExchange α)) (e : WorkerError),
      (Worker.handle limits w (.createVideo request)).Leads t (.done (.error e)) →
      SmoothButTrack t → request.Refused limits w t e) ∧
    (∀ (request : VideoRequest ℚ) (limits : WorkerLimits) (w : Workplace)
      (t : List (WorkerExchange ℚ)) (result : Except WorkerError Unit),
      request.validate limits.maxSlides = .ok () →
      (Worker.handle limits w (.createVideo request)).Leads t (.done result) →
      ⟨.store (.load request.jobId), .ok none⟩ ∉ t → SmoothButTrack t → result = .ok ()) ∧
    (∀ (batch : BatchJob α) (limits : WorkerLimits) (w : Workplace)
      (t : List (WorkerExchange α)) (result : Except WorkerError Unit) (e : WorkerError),
      (Worker.handle limits w (.renderBatch batch)).Leads t (.done result) →
      NoTrack w t e → result = .error e) ∧
    ∀ (x : Holdings) (s : System (run (α := α)) Holdings), x.Fresh →
      System.Reaches WorkerCall.AllOrNothing (fun _ _ => True) ⟨x, []⟩ s → s.shared.Intact := by
  refine ⟨?_, ?_, ?_, ?_, ?_⟩
  · exact fun m t e x y id reason hleads hallowed hmarked =>
      failed_of_marked hleads hallowed hmarked
  · exact fun request limits w t e hleads ht =>
      VideoRequest.refused_of_smoothButTrack hleads ht
  · exact fun request limits w t result hvalid hleads hknown ht =>
      VideoRequest.eq_ok_of_smoothButTrack hvalid hleads hknown ht
  · exact fun batch limits w t result e hleads h => Worker.eq_error_of_noTrack hleads h
  · exact fun x s hx hreaches => intact_of_reaches hx.intact hreaches

end Assignment

/-! ## Two slides and a batch that owns a join -/

namespace Assignment

open Worker

/-- Two slides that are to be shown with a track. -/
def scored : VideoRequest Rat :=
  { VideoRequest.twoSlides .none with options := { SceneOptions.standard with audio := true } }

def scoring : Assignment Rat := ⟨⟨4, 30⟩, ⟨"work", id, []⟩, .createVideo scored⟩

def scoredRecord : JobRecord := .fresh "j" ⟨0, 0⟩

theorem scored_valid : scored.validate 30 = .ok () := by decide +kernel

/-- The catalog cannot be read, and the slides are rendered without a track and stored. -/
def silently (plan : RenderPlan Rat) : List (WorkerExchange Rat) :=
  [loaded "j" scoredRecord, found scored.urls scored.urls,
    ⟨.fetchAll scored.urls scoring.place.directory, .ok ["a", "b"]⟩,
    ⟨.audioCatalog, .error (.misconfigured "")⟩,
    ⟨.render plan (scoring.place.path "video.mp4"), .ok ()⟩,
    uploaded "j" Blob.finalSegment (scoring.place.path "video.mp4") "mem://j/video"]

theorem exists_scored_plan : ∃ plan, slideshowPlan ["a", "b"] scored.options [] = .ok plan := by
  have htimed := SceneOptions.timed_of_validate (VideoRequest.options_of_validate scored_valid)
  exact exists_slideshowPlan htimed (Rat.mul_comm 2) (by simp) []

theorem leads_scored {plan : RenderPlan Rat}
    (hplan : slideshowPlan ["a", "b"] scored.options [] = .ok plan) (a : Except WorkerError Unit) :
    (createVideo scoring.limits scoring.place scored).run.Leads
      (silently plan ++ [⟨.store (.setStatus "j" .processed (some "mem://j/video")), a⟩])
      (.done a) := by
  obtain ⟨scene, -, hscene⟩ := RenderPlan.of_slideshow hplan
  have hduration : plan.duration = some scene.duration := by rw [hscene]
  have hslides : (renderSlides scoring.place scored.urls scored.options).run.Leads
      [⟨.fetchAll scored.urls scoring.place.directory, .ok ["a", "b"]⟩,
        ⟨.audioCatalog, .error (.misconfigured "")⟩,
        ⟨.render plan (scoring.place.path "video.mp4"), .ok ()⟩]
      (.done (.ok (scoring.place.path "video.mp4"))) := by
    refine .answered ?_
    refine Task.leads_bind (t := []) (Task.leads_ofMedia hplan) ?_
    simp only [hduration]
    exact .answered (.answered (.start _))
  have hfound : (createVideo scoring.limits scoring.place scored).run.Leads
      [loaded "j" scoredRecord, found scored.urls ["https://img/0.jpg", "https://img/1.jpg"]] _ :=
    leads_createVideo_found scoring.place rfl scored_valid
  refine hfound.append (Task.leads_bind (t := []) (c := scored.options) (.start _) ?_)
  exact Task.leads_bind hslides (.answered (.answered (.start _)))

/-- The job was just accepted, and these objects are stored. -/
def scoredHoldings (objects : List String) : Holdings := ⟨⟨[scoredRecord], 0⟩, objects⟩

theorem fresh_scoredHoldings : (scoredHoldings []).Fresh := by
  intro id r hr
  refine ⟨⟨0, 0⟩, ?_⟩
  have hmem : r = scoredRecord := by simpa [scoredHoldings] using List.mem_of_find?_eq_some hr
  subst hmem
  exact congrArg (JobRecord.fresh · ⟨0, 0⟩) (Ledger.id_of_get? hr)

theorem allowed_silently (plan : RenderPlan Rat) :
    System.Allowed WorkerCall.AllOrNothing (silently plan) (scoredHoldings [])
      (scoredHoldings ["mem://j/video"]) := by
  refine .cons (.inl ⟨some scoredRecord, rfl, rfl, rfl⟩) ?_
  refine .cons (.inl ⟨trivial, rfl⟩) ?_
  refine .cons (.inl ⟨⟨_, rfl, rfl⟩, rfl⟩) ?_
  refine .cons (.inr ⟨(fun h => nomatch h), rfl⟩) ?_
  refine .cons (.inl ⟨rfl, rfl⟩) ?_
  exact .cons (.inl ⟨_, rfl, rfl⟩) (.nil _)

theorem get?_scoredHoldings (objects : List String) :
    (scoredHoldings objects).ledger.get? "j" = some scoredRecord := rfl

/-- All goes well but for the track. -/
theorem exists_rendered_scored : ∃ t y,
    scoring.run.Leads t (.done (.ok ())) ∧
      System.Allowed WorkerCall.AllOrNothing t (scoredHoldings []) y ∧
      ⟨.store (.load "j"), .ok none⟩ ∉ t ∧ SmoothButTrack t ∧
      ⟨.audioCatalog, .error (.misconfigured "")⟩ ∈ t ∧
      y.ledger.get? "j" = some (scoredRecord.withStatus .processed (some "mem://j/video")) := by
  obtain ⟨plan, hplan⟩ := exists_scored_plan
  obtain ⟨ledger, hfinished, hrecord⟩ := WorkerCall.exists_allOrNothing (α := Rat)
    (c := .setStatus "j" .processed (some "mem://j/video"))
    (get?_scoredHoldings ["mem://j/video"])
  refine ⟨_, _, (leads_scored hplan (.ok ())).bind _,
    (allowed_silently plan).append (.cons hfinished (.nil _)), ?_, ?_, by simp [silently], hrecord⟩
  · simp only [silently, List.cons_append, List.nil_append, List.mem_cons, List.not_mem_nil]
    rintro (h | h | h | h | h | h | h | h) <;> cases h
  · refine smoothButTrack_of_forall ?_
    simp only [silently, List.cons_append, List.nil_append, List.forall_mem_cons]
    exact ⟨.inl ⟨_, rfl⟩, .inl trivial, .inl ⟨_, rfl, rfl⟩, .inr trivial, .inl rfl, .inl ⟨_, rfl⟩,
      .inl ⟨_, rfl⟩, by simp⟩

/-- All goes well but for the track, and then the video cannot be noted. -/
theorem exists_failed_scored : ∃ t y,
    scoring.run.Leads t (.done (.error (.jobFailed "lost"))) ∧
      System.Allowed WorkerCall.AllOrNothing t (scoredHoldings []) y ∧
      ⟨.store (.markFailed "j" (WorkerError.jobFailed "lost").message), .ok ()⟩ ∈ t := by
  obtain ⟨plan, hplan⟩ := exists_scored_plan
  obtain ⟨ledger, hmarked, -⟩ := WorkerCall.exists_allOrNothing (α := Rat)
    (c := .markFailed "j" (WorkerError.jobFailed "lost").message)
    (get?_scoredHoldings ["mem://j/video"])
  refine ⟨silently plan ++
      [⟨.store (.setStatus "j" .processed (some "mem://j/video")), .error (.jobFailed "lost")⟩] ++
      [⟨.store (.markFailed "j" (WorkerError.jobFailed "lost").message), .ok ()⟩], _, ?_,
    ((allowed_silently plan).append (.cons (.inr ⟨?_, rfl⟩) (.nil _))).append
      (.cons hmarked (.nil _)), List.mem_concat_self⟩
  · exact ((leads_scored hplan (.error (.jobFailed "lost"))).bind _).append (.answered (.start _))
  · rintro ⟨_, ⟨⟩⟩

/-- The only batch of the job has reported and owns the join. -/
def ownedRecord : JobRecord :=
  { JobRecord.fresh "pair" ⟨0, 0⟩ with
    status := .joining, joiner := some 1, batches := some ⟨1, [⟨1, "mem://pair/video1"⟩]⟩ }

/-- The batch takes its join up again, and there is no catalog. -/
theorem exists_silent_join : ∃ t result,
    (handle ⟨4, 30⟩ scoring.place (.renderBatch (SplitJob.pair.part 1))).Leads t (.done result) ∧
      NoTrack scoring.place t (.noAudio (Scalar.inputText (3 : ℚ))) := by
  have hparts : ownedRecord.orderedOutputs.map (partPath scoring.place) ≠ [] := by
    simp [ownedRecord, JobRecord.orderedOutputs, JobRecord.outputs, JobRecord.file]
  obtain ⟨joined, hjoined, -⟩ := RenderPlan.exists_concat (α := ℚ) hparts
  have hjoin : (join scoring.place ownedRecord).run.Leads
      (ownedRecord.orderedOutputs.map (downloaded scoring.place) ++
        [⟨.render joined (scoring.place.path "joined.mp4"), .ok ()⟩, measured scoring.place (3 : ℚ),
          ⟨.audioCatalog, .ok none⟩])
      (.done (.error (.noAudio (Scalar.inputText (3 : ℚ))))) := by
    refine Task.leads_bind (leads_downloadParts scoring.place _) ?_
    refine Task.leads_bind (t := []) (Task.leads_ofMedia hjoined) ?_
    exact .answered (.answered (.answered (.start _)))
  have happroach : (approach scoring.place (SplitJob.pair.part 1)).run.Leads
      [loaded "pair" ownedRecord, loaded "pair" ownedRecord] (.done (.ok (some ownedRecord))) :=
    leads_approach_of_received (by simp [ownedRecord]) rfl (leads_takeOver_of_owned rfl)
  have hrender := Task.leads_bind (f := joinIfAny scoring.place) happroach hjoin
  rw [← renderBatch_eq] at hrender
  refine ⟨_, _, (hrender.bind _).append (.answered (a := .ok ()) (.start _)), ?_⟩
  exact .absent (by simp) (by simp)

theorem all_or_nothing_scored :
    (∃ y, Failed "j" (.jobFailed "lost") (scoredHoldings []) y) ∧
    (∃ t, (handle scoring.limits scoring.place (.createVideo scored)).Leads t
        (.done (.error (.jobNotFound "j"))) ∧
      scored.Refused scoring.limits scoring.place t (.jobNotFound "j")) ∧
    (∃ t result, ⟨.audioCatalog, .error (.misconfigured "")⟩ ∈ t ∧
      scoring.run.Leads t (.done result) ∧ result = .ok ()) ∧
    (∃ t, (handle ⟨4, 30⟩ scoring.place (.renderBatch (SplitJob.pair.part 1))).Leads t
      (.done (.error (.noAudio (Scalar.inputText (3 : ℚ)))))) ∧
    ∃ (y : Holdings) (r : JobRecord),
      y.Intact ∧ y.ledger.get? "j" = some r ∧ r.video = some "mem://j/video" := by
  obtain ⟨hfailed, hrefused, hrendered, hsilent, hintact⟩ := all_or_nothing (α := ℚ)
  refine ⟨?_, ?_, ?_, ?_, ?_⟩
  · obtain ⟨t, y, hleads, hallowed, hmarked⟩ := exists_failed_scored
    exact ⟨y, (hfailed scoring t _ _ y _ _ hleads hallowed hmarked).1⟩
  · have hleads : (handle scoring.limits scoring.place (.createVideo scored)).Leads
        [⟨.store (.load "j"), .ok none⟩, ⟨.store (.markFailed "j" _), .ok ()⟩]
        (.done (.error (.jobNotFound "j"))) := .answered (.answered (.start _))
    refine ⟨_, hleads, hrefused _ _ _ _ _ hleads (smoothButTrack_of_forall ?_)⟩
    simp only [List.forall_mem_cons]
    exact ⟨.inl ⟨_, rfl⟩, .inl ⟨_, rfl⟩, by simp⟩
  · obtain ⟨t, y, hleads, -, hknown, ht, hcatalog, -⟩ := exists_rendered_scored
    exact ⟨t, _, hcatalog, hleads, hrendered scored _ _ t _ scored_valid hleads hknown ht⟩
  · obtain ⟨t, result, hleads, ht⟩ := exists_silent_join
    cases hsilent _ _ _ t result _ hleads ht
    exact ⟨t, hleads⟩
  · obtain ⟨t, y, hleads, hallowed, -, -, -, hrecord⟩ := exists_rendered_scored
    have hreaches : System.Reaches WorkerCall.AllOrNothing (fun _ _ => True)
        ⟨scoredHoldings [], []⟩ ⟨y, [] ++ [⟨scoring, t, _, hleads, false⟩]⟩ :=
      System.Reaches.deliver trivial hleads hallowed
    exact ⟨y, _, hintact _ _ fresh_scoredHoldings hreaches, hrecord, rfl⟩

end Assignment

end Slideshow
