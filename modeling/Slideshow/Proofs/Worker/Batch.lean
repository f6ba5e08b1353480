import Slideshow.Proofs.Worker.Task

/-! # What the delivery of a batch calls

The message of a batch either prepares a join or leaves it to others: `approach` decides, and `join`
follows. `Issues` lists the calls to the record store that such a delivery makes, each with what the
worker was told before, and `Settles` the ways in which it ends well. It never calls the queue. -/

namespace Slideshow

variable {α : Type}

namespace Worker

variable [Scalar α]

/-- The record that a batch goes on to join, if it takes over the join or has it already. -/
def takeOver (id : JobId) (batch : ℕ) : Task α (Option JobRecord) := do
  let r ← record id
  if r.joinOwnedBy batch then return some r
  else if r.readyToJoin then
    if ← Task.claimJoin id batch then return some r else return none
  else return none

/-- All that the delivery of a batch does before it joins, and the record it joins, if it does. -/
def approach (w : Workplace) (batch : BatchJob α) : Task α (Option JobRecord) := do
  let r ← record batch.jobId
  if r.status = .failed then return none
  if !r.hasReceived batch.batch then renderPart w batch
  takeOver batch.jobId batch.batch

/-- The second half of a delivery. -/
def joinIfAny (w : Workplace) : Option JobRecord → Task α Unit
  | some r => join w r
  | none => pure ()

theorem joinIfComplete_eq (w : Workplace) (id : JobId) (batch : ℕ) :
    joinIfComplete (α := α) w id batch = takeOver id batch >>= joinIfAny w := by
  simp only [joinIfComplete, takeOver, bind_assoc]
  congr 1
  funext r
  split
  · simp [joinIfAny]
  · split
    · rw [bind_assoc]
      congr 1
      funext claimed
      cases claimed <;> simp [joinIfAny]
    · simp [joinIfAny]

/-- A delivery joins exactly the record on which `approach` ends. -/
theorem renderBatch_eq (w : Workplace) (batch : BatchJob α) :
    renderBatch w batch = approach w batch >>= joinIfAny w := by
  simp only [renderBatch, approach, joinIfComplete_eq, bind_assoc]
  congr 1
  funext r
  split
  · simp [joinIfAny]
  · split <;> simp [bind_assoc]

end Worker

/-! ## What a worker has been told -/

namespace WorkerExchange

/-- The store had the record of a job. -/
abbrev loaded (id : JobId) (r : JobRecord) : WorkerExchange α := ⟨.store (.load id), .ok (some r)⟩

/-- An output was added. -/
abbrev appended (id : JobId) (output : BatchOutput) : WorkerExchange α :=
  ⟨.store (.appendOutput id output), .ok ()⟩

/-- A batch asked for the join, and has it or not. -/
abbrev claimed (id : JobId) (batch : ℕ) (won : Bool) : WorkerExchange α :=
  ⟨.store (.claimJoin id batch), .ok won⟩

/-- A job was finished. -/
abbrev finished (id : JobId) (video : Option String) : WorkerExchange α :=
  ⟨.store (.setStatus id .processed video), .ok ()⟩

/-- A part of a job was stored under an address. -/
abbrev uploaded (id : JobId) (segment path url : String) : WorkerExchange α :=
  ⟨.upload id segment path, .ok url⟩

end WorkerExchange

open WorkerExchange

namespace BatchJob

/-- The calls to the record store in the delivery of a batch: all concern its job; an output is
added under the number of the batch and with the address that its upload was given; the join is
asked for only when the record was seen ready; and the only status set is that of a finished job. -/
def Issues (batch : BatchJob α) (t : List (WorkerExchange α)) : WorkerCall α → Prop
  | .store (.load id) | .store (.markFailed id _) => id = batch.jobId
  | .store (.setBatchCount _ _) => False
  | .store (.setStatus id status _) =>
    status = .processed ∧ ∃ r, loaded batch.jobId r ∈ t ∧ id = r.id
  | .store (.appendOutput id output) =>
    id = batch.jobId ∧ output.batch = batch.batch ∧
      ∃ path, uploaded batch.jobId batch.segmentName path output.output ∈ t
  | .store (.claimJoin id number) =>
    id = batch.jobId ∧ number = batch.batch ∧
      ∃ r, loaded batch.jobId r ∈ t ∧ r.readyToJoin = true
  | .dispatch _ => False
  | _ => True

theorem issues_aside {batch : BatchJob α} {t : List (WorkerExchange α)} {c : WorkerCall α}
    (h : c.Aside) : batch.Issues t c := by
  cases c with
  | store c => exact h.elim
  | dispatch b => exact h.elim
  | _ => trivial

/-- The output of the batch is known to be recorded. -/
def Reported (batch : BatchJob α) (t : List (WorkerExchange α)) : Prop :=
  (∃ r, loaded batch.jobId r ∈ t ∧ r.hasReceived batch.batch = true) ∨
  ∃ url, appended batch.jobId ⟨batch.batch, url⟩ ∈ t

/-- The join is left to others: the job has failed, another batch has the join, or the record that
was seen last, when the output of this batch was recorded, was not ready. -/
inductive Leaves (batch : BatchJob α) (t : List (WorkerExchange α)) : Prop
  | failed (r : JobRecord) (h : loaded batch.jobId r ∈ t) (hr : r.status = .failed)
  | lost (h : claimed batch.jobId batch.batch false ∈ t)
  | waiting (before : List (WorkerExchange α)) (r : JobRecord)
      (h : t = before ++ [loaded batch.jobId r]) (hreported : batch.Reported before)
      (howned : r.joinOwnedBy batch.batch = false) (hready : r.readyToJoin = false)

/-- The join of `r` falls to the batch: it has the join, or has just taken it over. -/
def Joins (batch : BatchJob α) (t : List (WorkerExchange α)) (r : JobRecord) : Prop :=
  loaded batch.jobId r ∈ t ∧ (r.joinOwnedBy batch.batch = true ∨
    r.readyToJoin = true ∧ claimed batch.jobId batch.batch true ∈ t)

/-- How the approach to a join ends. -/
def Decides (batch : BatchJob α) (t : List (WorkerExchange α)) :
    Except WorkerError (Option JobRecord) → Prop
  | .error _ => True
  | .ok none => batch.Leaves t
  | .ok (some r) => batch.Joins t r

/-- How a delivery ends: after an attempt to note its failure, with the join left to others, or with
the job finished. -/
def Settles (batch : BatchJob α) (t : List (WorkerExchange α)) : Except WorkerError Unit → Prop
  | .error _ => ∃ reason a, ⟨.store (.markFailed batch.jobId reason), a⟩ ∈ t
  | .ok () => batch.Leaves t ∨
    ∃ r video, loaded batch.jobId r ∈ t ∧ finished r.id video ∈ t

end BatchJob

namespace Worker

variable {t : List (WorkerExchange α)}

theorem meets_record (id : JobId) {issues ends} :
    (record (α := α) id).run.Meets issues ends t ↔
      issues t (.store (.load id)) ∧
        (∀ e, ends (t ++ [⟨.store (.load id), .error e⟩]) (.error e)) ∧
        ends (t ++ [⟨.store (.load id), .ok none⟩]) (.error (.jobNotFound id)) ∧
        ∀ r, ends (t ++ [loaded id r]) (.ok r) := by
  simp only [record, Task.meets_bind, Task.meets_load]
  refine and_congr_right fun _ => ⟨?_, ?_⟩
  · intro h
    exact ⟨fun e => h (.error e), h (.ok none), fun r => h (.ok (some r))⟩
  · rintro ⟨herror, hnone, hsome⟩ a
    match a with
    | .error e => exact herror e
    | .ok none => exact hnone
    | .ok (some r) => exact hsome r

theorem meets_takeOver {batch : BatchJob α} (h : batch.Reported t) :
    (takeOver batch.jobId batch.batch).run.Meets batch.Issues batch.Decides t := by
  simp only [takeOver, Task.meets_bind, meets_record]
  refine ⟨rfl, fun e => trivial, trivial, fun r => ?_⟩
  have hr : loaded batch.jobId r ∈ t ++ [loaded batch.jobId r] := List.mem_concat_self
  split
  · rename_i howned
    exact ⟨hr, .inl howned⟩
  · rename_i howned
    split
    · rename_i hready
      simp only [Task.meets_bind, Task.meets_claimJoin]
      refine ⟨⟨rfl, rfl, r, hr, hready⟩, fun a => ?_⟩
      match a with
      | .error e => trivial
      | .ok true => exact ⟨List.mem_append_left _ hr, .inr ⟨hready, List.mem_concat_self⟩⟩
      | .ok false => exact .lost List.mem_concat_self
    · rename_i hready
      exact .waiting t r rfl h (by simpa using howned) (by simpa using hready)

variable [Scalar α]

omit [Scalar α] in
/-- Whatever leaves the record store alone may come first where only success is spoken of. -/
theorem meets_bind_of_apart {β γ : Type} {batch : BatchJob α} {x : Task α γ} {f : γ → Task α β}
    {done : List (WorkerExchange α) → β → Prop} (hx : x.Apart)
    (hf : ∀ c u, t <+: u →
      (f c).run.Meets batch.Issues (fun u result => ∀ b, result = .ok b → done u b) u) :
    (x >>= f).run.Meets batch.Issues (fun u result => ∀ b, result = .ok b → done u b) t :=
  hx.meets_bind (fun _ _ => BatchJob.issues_aside) (fun _ _ _ h => nomatch h) hf

/-- A batch is stored before it is reported. -/
theorem meets_renderPart (w : Workplace) (batch : BatchJob α) :
    (renderPart w batch).run.Meets batch.Issues
      (fun u result => ∀ b, result = .ok b →
        ∃ url, appended batch.jobId ⟨batch.batch, url⟩ ∈ u) t := by
  refine meets_bind_of_apart (Task.apart_fetchAll _ _) fun paths t₁ _ => ?_
  refine meets_bind_of_apart (Task.apart_ofMedia _) fun plan t₂ _ => ?_
  refine meets_bind_of_apart (Task.apart_render _ _) fun _ t₃ _ => ?_
  refine Task.meets_bind_of_ok (fun _ _ _ h => nomatch h) ⟨trivial, fun a url ha => ?_⟩
  subst ha
  refine ⟨⟨rfl, rfl, _, List.mem_concat_self⟩, fun a b ha => ⟨url, ?_⟩⟩
  subst ha
  exact List.mem_concat_self

theorem meets_approach (w : Workplace) (batch : BatchJob α) :
    (approach w batch).run.Meets batch.Issues batch.Decides [] := by
  simp only [approach, Task.meets_bind, meets_record]
  refine ⟨rfl, fun e => trivial, trivial, fun r => ?_⟩
  have hr : (loaded batch.jobId r : WorkerExchange α) ∈ [] ++ [loaded batch.jobId r] :=
    List.mem_concat_self
  split
  · rename_i hfailed
    exact .failed r hr hfailed
  · split
    · rw [Task.meets_bind]
      refine (meets_renderPart w batch).mono (fun _ _ _ h => h) ?_
      intro u result _ hreported
      cases result with
      | error e => trivial
      | ok _ => exact meets_takeOver (.inr (hreported _ rfl))
    · rename_i hreceived
      exact meets_takeOver (.inl ⟨r, hr, by simpa using hreceived⟩)

/-! ## Joining -/

omit [Scalar α] in
theorem only_downloadParts {P : WorkerCall α → Prop} (h : ∀ url path, P (.download url path))
    (w : Workplace) (outputs : List BatchOutput) : (downloadParts w outputs).Only P := by
  induction outputs with
  | nil => exact Task.only_pure _
  | cons output rest ih =>
      refine Task.Only.bind (Task.only_ask (c := .download _ _) (f := id) rfl (h _ _)) fun _ => ?_
      exact ih.bind fun _ => Task.only_pure _

theorem apart_trackFor (w : Workplace) (target : α) : (trackFor w target).Apart := by
  refine Task.apart_audioCatalog.bind fun catalog => ?_
  cases catalog with
  | none => exact fun _ => trivial
  | some catalog =>
      dsimp only
      cases catalog.select target w.choose with
      | none => exact fun _ => trivial
      | some track => exact (Task.apart_fetch _ _).bind fun _ _ => trivial

/-- The only call of a join to the record store finishes the job. -/
theorem meets_join (w : Workplace) {batch : BatchJob α} {r : JobRecord}
    (hr : loaded batch.jobId r ∈ t) :
    (join w r).run.Meets batch.Issues
      (fun u result => ∀ b, result = .ok b → ∃ video, finished r.id video ∈ u) t := by
  refine meets_bind_of_apart (only_downloadParts (fun _ _ => trivial) w _) fun parts t₁ h₁ => ?_
  refine meets_bind_of_apart (Task.apart_ofMedia _) fun plan t₂ h₂ => ?_
  refine meets_bind_of_apart (Task.apart_render _ _) fun _ t₃ h₃ => ?_
  refine meets_bind_of_apart (Task.apart_duration _) fun length t₄ h₄ => ?_
  refine meets_bind_of_apart (apart_trackFor w _) fun track t₅ h₅ => ?_
  cases track with
  | none => exact fun _ h => nomatch h
  | some track =>
      refine meets_bind_of_apart (Task.apart_ofMedia _) fun plan t₆ h₆ => ?_
      refine meets_bind_of_apart (Task.apart_render _ _) fun _ t₇ h₇ => ?_
      refine meets_bind_of_apart (Task.apart_upload _ _ _) fun url t₈ h₈ => ?_
      have hgrown : t <+: t₈ :=
        h₁.trans (h₂.trans (h₃.trans (h₄.trans (h₅.trans (h₆.trans (h₇.trans h₈))))))
      refine ⟨⟨rfl, r, hgrown.subset hr, rfl⟩, fun a b ha => ⟨some url, ?_⟩⟩
      subst ha
      exact List.mem_concat_self

/-! ## A delivery as a whole -/

theorem meets_handle (limits : WorkerLimits) (w : Workplace) (batch : BatchJob α) :
    (handle limits w (.renderBatch batch)).Meets batch.Issues batch.Settles [] := by
  have hfailure : ∀ (u : List (WorkerExchange α)) e,
      (noteFailure batch.jobId e >>= fun _ => pure (.error e)).Meets batch.Issues batch.Settles u :=
    fun u e => ⟨rfl, fun a => ⟨_, a, List.mem_concat_self⟩⟩
  simp only [handle, perform, renderBatch_eq, Program.meets_bind, Task.meets_bind]
  refine (meets_approach w batch).mono (fun _ _ _ h => h) fun t result _ h => ?_
  match result with
  | .error e => exact hfailure t e
  | .ok none => exact .inl h
  | .ok (some r) =>
      refine (meets_join w h.1).mono (fun _ _ _ h => h) fun u result hu hfinished => ?_
      match result with
      | .error e => exact hfailure u e
      | .ok () =>
          obtain ⟨video, hvideo⟩ := hfinished _ rfl
          exact .inr ⟨r, video, hu.subset h.1, hvideo⟩

/-! ## What a delivery may do -/

omit [Scalar α] in
theorem leads_record (id : JobId) (r : JobRecord) :
    (record (α := α) id).run.Leads [loaded id r] (.done (.ok r)) := .answered (.start _)

omit [Scalar α] in
/-- The batch that owns an unfinished join takes it up again. -/
theorem leads_takeOver_of_owned {id : JobId} {b : ℕ} {r : JobRecord}
    (howned : r.joinOwnedBy b = true) :
    (takeOver (α := α) id b).run.Leads [loaded id r] (.done (.ok (some r))) := by
  refine Task.leads_bind (u := []) (leads_record id r) ?_
  simp only [howned, if_true]
  exact .start _

omit [Scalar α] in
theorem leads_takeOver_of_waiting {id : JobId} {b : ℕ} {r : JobRecord}
    (howned : r.joinOwnedBy b = false) (hready : r.readyToJoin = false) :
    (takeOver (α := α) id b).run.Leads [loaded id r] (.done (.ok none)) := by
  refine Task.leads_bind (u := []) (leads_record id r) ?_
  simp only [howned, hready]
  exact .start _

omit [Scalar α] in
theorem leads_takeOver_of_ready {id : JobId} {b : ℕ} {r : JobRecord}
    (howned : r.joinOwnedBy b = false) (hready : r.readyToJoin = true) :
    (takeOver (α := α) id b).run.Leads [loaded id r, claimed id b true] (.done (.ok (some r))) := by
  refine Task.leads_bind (u := [claimed id b true]) (leads_record id r) ?_
  simp only [howned, hready]
  exact .answered (.start _)

/-- What a batch is told while it is rendered, when all goes well. -/
def rendering (w : Workplace) (batch : BatchJob α) (paths : List String) (plan : RenderPlan α)
    (url : String) : List (WorkerExchange α) :=
  [⟨.fetchAll batch.urls w.directory, .ok paths⟩, ⟨.render plan (w.path "batch.mp4"), .ok ()⟩,
    uploaded batch.jobId batch.segmentName (w.path "batch.mp4") url,
    appended batch.jobId ⟨batch.batch, url⟩]

theorem leads_renderPart {w : Workplace} {batch : BatchJob α} {paths : List String}
    {plan : RenderPlan α} (hplan : slideshowPlan paths batch.options w.words = .ok plan)
    (url : String) :
    (renderPart w batch).run.Leads (rendering w batch paths plan url) (.done (.ok ())) := by
  refine .answered ?_
  refine Task.leads_bind (t := []) (c := plan) ?_ (.answered (.answered (.answered (.start _))))
  rw [hplan]
  exact .start _

theorem leads_approach_of_missing {w : Workplace} {batch : BatchJob α} {r : JobRecord}
    {u : List (WorkerExchange α)}
    {q : Program (WorkerCall.Answer (α := α)) (Except WorkerError (Option JobRecord))}
    (hfailed : r.status ≠ .failed) (hmissing : r.hasReceived batch.batch = false)
    (hu : (renderPart w batch).run.Leads u (.done (.ok ())))
    (hq : (takeOver batch.jobId batch.batch).run.Leads t q) :
    (approach w batch).run.Leads (loaded batch.jobId r :: (u ++ t)) q := by
  refine Task.leads_bind (leads_record batch.jobId r) ?_
  simpa [hfailed, hmissing] using Task.leads_bind hu hq

theorem leads_approach_of_received {w : Workplace} {batch : BatchJob α} {r : JobRecord}
    {q : Program (WorkerCall.Answer (α := α)) (Except WorkerError (Option JobRecord))}
    (hfailed : r.status ≠ .failed) (hreceived : r.hasReceived batch.batch = true)
    (hq : (takeOver batch.jobId batch.batch).run.Leads t q) :
    (approach w batch).run.Leads (loaded batch.jobId r :: t) q := by
  refine Task.leads_bind (leads_record batch.jobId r) ?_
  simpa [hfailed, hreceived] using hq

/-- The file into which the output of a batch is fetched. -/
def partPath (w : Workplace) (output : BatchOutput) : String :=
  w.path ("part" ++ Decimal.natText output.batch ++ ".mp4")

/-- The output of a batch was fetched. -/
abbrev downloaded (w : Workplace) (output : BatchOutput) : WorkerExchange α :=
  ⟨.download output.output (partPath w output), .ok ()⟩

omit [Scalar α] in
theorem leads_downloadParts (w : Workplace) (outputs : List BatchOutput) :
    (downloadParts (α := α) w outputs).run.Leads (outputs.map (downloaded w))
      (.done (.ok (outputs.map (partPath w)))) := by
  induction outputs with
  | nil => exact .start _
  | cons output rest ih =>
      refine .answered ?_
      have hrest := Task.leads_bind (f := fun paths =>
        (pure (partPath w output :: paths) : Task α (List String))) ih (.start _)
      rwa [List.append_nil] at hrest

/-- What a worker is told while it joins, when all goes well. -/
def joining (w : Workplace) (r : JobRecord) (joined final : RenderPlan α) (length : α)
    (catalog : AudioCatalog α) (track : AudioTrack α) (path url : String) :
    List (WorkerExchange α) :=
  r.orderedOutputs.map (downloaded w) ++
    [⟨.render joined (w.path "joined.mp4"), .ok ()⟩, ⟨.duration (w.path "joined.mp4"), .ok length⟩,
      ⟨.audioCatalog, .ok (some catalog)⟩, ⟨.fetch track.url w.directory, .ok path⟩,
      ⟨.render final (w.path "video.mp4"), .ok ()⟩,
      uploaded r.id Blob.finalSegment (w.path "video.mp4") url, finished r.id (some url)]

theorem leads_join {w : Workplace} {r : JobRecord} {joined final : RenderPlan α}
    {fit : AudioFit α} {length : α} {catalog : AudioCatalog α} {track : AudioTrack α}
    {path : String} (hconcat : RenderPlan.concat (r.orderedOutputs.map (partPath w)) = .ok joined)
    (hselect : catalog.select length w.choose = some track)
    (hremux : RenderPlan.remuxWithAudio (w.path "joined.mp4") path track.length length =
      .ok (final, fit)) (url : String) :
    (join w r).run.Leads (joining w r joined final length catalog track path url)
      (.done (.ok ())) := by
  have htrack : (trackFor w length).run.Leads
      [⟨.audioCatalog, .ok (some catalog)⟩, ⟨.fetch track.url w.directory, .ok path⟩]
      (.done (.ok (some (path, track.length)))) := by
    refine Task.leads_bind (x := Task.audioCatalog) (.answered (.start _)) ?_
    simp only [hselect]
    exact .answered (.start _)
  refine Task.leads_bind (leads_downloadParts w r.orderedOutputs) ?_
  refine Task.leads_bind (t := []) (Task.leads_ofMedia hconcat) ?_
  refine Task.leads_bind (x := Task.render joined (w.path "joined.mp4")) (.answered (.start _)) ?_
  refine Task.leads_bind (x := Task.duration (w.path "joined.mp4")) (.answered (.start _)) ?_
  refine Task.leads_bind htrack ?_
  refine Task.leads_bind (t := []) (Task.leads_ofMedia hremux) ?_
  exact .answered (.answered (.answered (.start _)))

/-- There is work to do where there is something to join. -/
theorem join_eq_call (w : Workplace) {r : JobRecord} (h : r.orderedOutputs ≠ []) :
    ∃ request next, (join (α := α) w r).run = .call request next := by
  cases houtputs : r.orderedOutputs with
  | nil => exact (h houtputs).elim
  | cons output rest =>
      rw [join, houtputs]
      exact ⟨_, _, rfl⟩

theorem leads_handle_of_none {limits : WorkerLimits} {w : Workplace} {batch : BatchJob α}
    (h : (approach w batch).run.Leads t (.done (.ok none))) :
    (handle limits w (.renderBatch batch)).Leads t (.done (.ok ())) := by
  have hrender : (renderBatch w batch).run.Leads (t ++ []) (.done (.ok ())) := by
    rw [renderBatch_eq]
    exact Task.leads_bind h (.start _)
  rw [List.append_nil] at hrender
  exact hrender.bind _

theorem leads_handle_of_joined {limits : WorkerLimits} {w : Workplace} {batch : BatchJob α}
    {r : JobRecord} {u : List (WorkerExchange α)}
    (h : (approach w batch).run.Leads t (.done (.ok (some r))))
    (hjoin : (join w r).run.Leads u (.done (.ok ()))) :
    (handle limits w (.renderBatch batch)).Leads (t ++ u) (.done (.ok ())) := by
  have hrender : (renderBatch w batch).run.Leads (t ++ u) (.done (.ok ())) := by
    rw [renderBatch_eq]
    exact Task.leads_bind h hjoin
  exact hrender.bind _

/-- A delivery that joins waits for what the join waits for. -/
theorem leads_handle_of_some (limits : WorkerLimits) {w : Workplace} {batch : BatchJob α}
    {r : JobRecord} {u : List (WorkerExchange α)} {request : WorkerCall α}
    {next : request.Answer → Program WorkerCall.Answer (Except WorkerError Unit)}
    (h : (approach w batch).run.Leads t (.done (.ok (some r))))
    (hjoin : (join w r).run.Leads u (.call request next)) :
    ∃ next', (handle limits w (.renderBatch batch)).Leads (t ++ u) (.call request next') := by
  have hrender : (renderBatch w batch).run.Leads (t ++ u) (.call request next) := by
    rw [renderBatch_eq]
    exact Task.leads_bind h hjoin
  exact ⟨_, hrender.bind _⟩

end Worker

end Slideshow
