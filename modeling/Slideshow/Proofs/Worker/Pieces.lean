import Slideshow.Proofs.Render.Plan
import Slideshow.Proofs.Worker.Rehearsal
import Slideshow.Proofs.Worker.Request

/-! # The work on a request that is split

Where nothing fails, the message of such a request has it split in the same way every time, the
message of a batch has it shown and stored, and once all parts are stored they can be joined. For
each of these pieces of work: what a worker is told, and what the memory holds afterwards. -/

namespace Slideshow

open WorkerExchange WorkerCall

variable {α : Type} [Scalar α]

/-- A request that is split, in surroundings where nothing fails and some track fits every video. -/
structure SplitRequest (α : Type) [Scalar α] where
  request : VideoRequest α
  limits : WorkerLimits
  surroundings : Surroundings α
  splittable : request.Splittable limits
  one_le_batchSize : 1 ≤ limits.batchSize
  large : limits.batchSize <
    (request.urls.filter fun url => !surroundings.invalid.contains url).length
  few : batchCount (request.urls.filter fun url => !surroundings.invalid.contains url).length
    limits.batchSize < UInt32.size
  fetches : surroundings.failing = []
  renders : surroundings.rendererFails = false
  tracks : ∃ catalog, surroundings.catalog = some catalog ∧
    ∀ target, catalog.eligible target ≠ []

namespace SplitRequest

variable (p : SplitRequest α)

/-- The addresses that lead to pictures. -/
def slides : List String := p.request.urls.filter fun url => !p.surroundings.invalid.contains url

/-- The number of batches. -/
def count : ℕ := batchCount p.slides.length p.limits.batchSize

/-- The batches of the request. -/
def batches : List (BatchJob α) :=
  planBatches p.request.jobId p.slides (p.request.options.sized p.surroundings.frame)
    p.limits.batchSize

/-- Where the output of a batch is stored. -/
def address (b : ℕ) : String := Memory.address p.request.jobId ("video" ++ toString b)

/-- The output of a batch. -/
def output (b : ℕ) : BatchOutput := ⟨b, p.address b⟩

/-- Where the video is stored. -/
def video : String := Memory.address p.request.jobId Blob.finalSegment

variable {p}

/-- The plan shows as many slides as a batch has, in the way of that batch. -/
def Shows (p : SplitRequest α) (b : ℕ) (plan : RenderPlan α) : Prop :=
  ∃ batch ∈ p.batches, batch.batch = b ∧ ∃ paths words, paths.length = batch.urls.length ∧
    Worker.slideshowPlan paths batch.options words = .ok plan

/-- Among the calls, the slides of a batch were fetched, shown and stored, one right after another. -/
def Produces (p : SplitRequest α) (b : ℕ) (calls : List (WorkerCall α)) : Prop :=
  ∃ batch ∈ p.batches, batch.batch = b ∧ ∃ (w : Workplace) (plan : RenderPlan α), p.Shows b plan ∧
    (batch.urls.map fun url => fetch url w.directory) ++
      [render plan (w.path "batch.mp4"),
        upload batch.jobId batch.segmentName (w.path "batch.mp4")] <:+: calls

/-- The plan joins all parts in order. -/
def Joins (p : SplitRequest α) (plan : RenderPlan α) : Prop :=
  ∃ w, plan.inputs =
    (List.range' 1 p.count).map fun b => .file (Worker.partPath w (p.output b))

/-! ## The batches -/

theorem map_batch_batches (p : SplitRequest α) :
    p.batches.map BatchJob.batch = List.range' 1 p.count :=
  map_batch_planBatches p.few

theorem mem_range_of_mem {batch : BatchJob α} (h : batch ∈ p.batches) :
    batch.batch ∈ List.range' 1 p.count := by
  rw [← p.map_batch_batches]
  exact List.mem_map_of_mem h

theorem count_pos (p : SplitRequest α) : 0 < p.count := by
  have hsize := p.one_le_batchSize
  have hlarge : p.limits.batchSize < p.slides.length := p.large
  rw [count, batchCount, if_neg (by omega)]
  exact Nat.div_pos (by omega) hsize

/-! ## Plans -/

/-- All batches can be shown, whatever the random words. -/
def Plannable (p : SplitRequest α) : Prop :=
  ∀ batch ∈ p.batches, ∀ (paths : List String) (words : Words), paths ≠ [] →
    ∃ plan, Worker.slideshowPlan paths batch.options words = .ok plan

theorem plannable_of_double (p : SplitRequest α)
    (hdouble : ∀ x : α, Scalar.ofNat 2 * x = x * Scalar.ofNat 2) : p.Plannable := by
  intro batch hbatch paths words hpaths
  obtain ⟨-, c, hc⟩ := ofRequest_of_mem_planBatches hbatch
  have hvalid : p.request.options.Timed := SceneOptions.timed_of_validate
    (VideoRequest.options_of_validate p.splittable.1)
  have hsized : (p.request.options.sized p.surroundings.frame).Timed := by
    unfold SceneOptions.sized
    split
    · exact ⟨hvalid.long, hvalid.roomy⟩
    · exact hvalid
  have htimed : batch.options.Timed := hc ▸ ⟨hsized.long, hsized.roomy⟩
  exact Worker.exists_slideshowPlan htimed hdouble hpaths words

/-! ## The request -/

omit [Scalar α] in
theorem allowed_dispatched (s : Surroundings α) (batches : List (BatchJob α)) (m : Memory α) :
    System.Allowed (Remembered s) (batches.map dispatched) m
      { m with dispatched := m.dispatched ++ batches } := by
  induction batches generalizing m with
  | nil =>
      rw [List.append_nil]
      exact .nil m
  | cons batch rest ih =>
      have hfirst : (dispatch batch).Remembered s m (.ok ())
          { m with dispatched := m.dispatched ++ [batch] } := rfl
      refine .cons hfirst ?_
      simpa using ih { m with dispatched := m.dispatched ++ [batch] }

theorem exists_sizing (p : SplitRequest α) (w : Workplace) (o : SceneOptions α) (firstUrl : String)
    (m : Memory α) : ∃ path files fetched, System.Allowed (Remembered p.surroundings)
      (Worker.sizing w o firstUrl path p.surroundings.frame) m { m with files, fetched } := by
  obtain ⟨path, files, fetched, hfetch⟩ := remembered_fetch p.fetches firstUrl w.directory
  refine ⟨path, ?_⟩
  unfold Worker.sizing
  split
  · exact ⟨files, fetched, .cons hfetch (.cons rfl (.nil _))⟩
  · exact ⟨m.files, m.fetched, .nil m⟩

omit [Scalar α] in
theorem plain_of_mem_sizing {w : Workplace} {o : SceneOptions α} {firstUrl path : String}
    {frame : ℕ × ℕ} {e : WorkerExchange α} (he : e ∈ Worker.sizing w o firstUrl path frame) :
    e.call.Plain := by
  unfold Worker.sizing at he
  split at he
  · simp only [List.mem_cons, List.not_mem_nil, or_false] at he
    rcases he with rfl | rfl <;> trivial
  · cases he

/-- While the job is open, its message has it split again, in the same way. -/
theorem exists_split (p : SplitRequest α) (w : Workplace) {r : Rehearsal α} {j : JobRecord}
    (hj : r.memory.ledger.get? p.request.jobId = some j) (hopen : j.status.isTerminal = false) :
    ∃ r', Rehearsal.deliver p.limits w p.surroundings .quiet (.createVideo p.request) r =
        (.ok (), r') ∧
      r'.memory.ledger.get? p.request.jobId = some (j.withBatchCount p.count) ∧
      r'.memory.ledger.claims = r.memory.ledger.claims ∧
      r'.memory.objects = r.memory.objects ∧
      r'.memory.dispatched = r.memory.dispatched ++ p.batches ∧ r.Adds r' [] [] [] := by
  have hlarge : p.limits.batchSize < p.slides.length := p.large
  obtain ⟨first, rest, hslides⟩ : ∃ first rest, p.slides = first :: rest :=
    List.exists_cons_of_length_pos (by omega)
  obtain ⟨path, files, fetched, hsizing⟩ :=
    p.exists_sizing w p.request.options first r.memory
  obtain ⟨ledger, hcount, hknown, hclaims⟩ := remembered_store (s := p.surroundings)
    (m := { r.memory with files, fetched }) (c := .setBatchCount p.request.jobId p.count) hj
  have hleads := Worker.leads_handle_createVideo w hopen p.splittable (hslides ▸ hlarge)
    (Worker.leads_fixSize w p.request.options first path p.surroundings.frame)
    (p.request.options.batchMode_sized p.surroundings.frame)
  have hword : batchCount (first :: rest).length p.limits.batchSize % UInt32.size = p.count := by
    rw [← hslides]
    exact Nat.mod_eq_of_lt p.few
  rw [hword, ← hslides] at hleads
  have hfound : (filterValid p.request.urls).Remembered p.surroundings r.memory p.slides r.memory :=
    rfl
  obtain ⟨r', hrun, hmemory, hcalls⟩ := Rehearsal.deliver_of_leads p.fetches hleads
    (.cons (remembered_load hj) (.cons hfound
      (hsizing.append (.cons hcount (allowed_dispatched _ p.batches _)))))
  refine ⟨r', hrun, ?_, ?_, ?_, ?_, ?_⟩
  · rw [hmemory]
    exact hknown
  · rw [hmemory]
    exact hclaims
  · rw [hmemory]
  · rw [hmemory]
  · refine Rehearsal.adds_nil_of_plain hcalls ?_
    intro e he
    simp only [List.mem_cons, List.mem_append, List.mem_map] at he
    rcases he with rfl | rfl | he | rfl | ⟨batch, -, rfl⟩
    · trivial
    · trivial
    · exact plain_of_mem_sizing he
    · trivial
    · trivial

/-! ## A batch -/

theorem jobId_of_mem {batch : BatchJob α} (h : batch ∈ p.batches) :
    batch.jobId = p.request.jobId :=
  (mem_planBatches h).1

theorem remembered_load_of_mem {batch : BatchJob α} (h : batch ∈ p.batches) {m : Memory α}
    {j : JobRecord} (hj : m.ledger.get? p.request.jobId = some j) :
    (store (.load batch.jobId) : WorkerCall α).Remembered p.surroundings m (.ok (some j)) m :=
  remembered_load (jobId_of_mem h ▸ hj)

theorem address_of_mem {batch : BatchJob α} (h : batch ∈ p.batches) :
    Memory.address batch.jobId batch.segmentName = p.address batch.batch := by
  rw [jobId_of_mem h]
  rfl

/-- Something was stored under an address, and this is the record of the job now. -/
structure Stores (p : SplitRequest α) (m m' : Memory α) (place : String) (j : JobRecord) :
    Prop where
  known : m'.ledger.get? p.request.jobId = some j
  claims : m'.ledger.claims = m.ledger.claims
  objects : ∃ content, m'.objects = Memory.put place content m.objects
  dispatched : m'.dispatched = m.dispatched

theorem Stores.isSome {m m' : Memory α} {place other : String} {j : JobRecord}
    (h : p.Stores m m' place j) (hother : other = place ∨ (m.objects.lookup other).isSome = true) :
    (m'.objects.lookup other).isSome = true := by
  obtain ⟨content, hobjects⟩ := h.objects
  rw [hobjects]
  rcases hother with rfl | hother
  · rw [Memory.lookup_put_self]
    rfl
  · exact Memory.isSome_lookup_put hother

/-- A plan is rendered, what it makes is stored, and the record changes. -/
theorem exists_published (p : SplitRequest α) (plan : RenderPlan α) (path : String) {id : JobId}
    {segment place : String} (hplace : Memory.address id segment = place) {m : Memory α}
    {j : JobRecord} (hj : m.ledger.get? p.request.jobId = some j) {c : StoreCall}
    (hc : c.jobId = p.request.jobId) (hswaps : c.swaps j = false) :
    ∃ m', System.Allowed (Remembered p.surroundings)
        [⟨.render plan path, .ok ()⟩, uploaded id segment path place,
          ⟨.store c, .ok (c.reply j)⟩] m m' ∧ p.Stores m m' place (c.change j) := by
  let content : Content α := .video (plan.duration.getD p.surroundings.joinedDuration)
  let m₁ : Memory α := { m with files := Memory.put path content m.files }
  have hrender : (render plan path).Remembered p.surroundings m (.ok ()) m₁ :=
    remembered_render p.renders plan path
  let m₂ : Memory α := { m₁ with objects := Memory.put place content m.objects }
  have hupload : (upload id segment path).Remembered p.surroundings m₁ (.ok place) m₂ := by
    subst hplace
    exact remembered_upload (Memory.lookup_put_self _ _ _)
  obtain ⟨ledger, hstore, hknown, hclaims⟩ := remembered_store (s := p.surroundings) (m := m₂)
    (c := c) (hc ▸ hj)
  rw [hc] at hknown
  rw [hswaps] at hclaims
  exact ⟨_, .cons hrender (.cons hupload (.cons hstore (.nil _))), hknown, hclaims,
    ⟨content, rfl⟩, rfl⟩

/-- A batch is fetched, shown as planned, stored and recorded. -/
structure Rendering (p : SplitRequest α) (w : Workplace) (batch : BatchJob α)
    (paths : List String) (plan : RenderPlan α) (m m' : Memory α) (j : JobRecord) : Prop where
  mem : batch ∈ p.batches
  length_eq : paths.length = batch.urls.length
  plan_eq : Worker.slideshowPlan paths batch.options w.words = .ok plan
  allowed : System.Allowed (Remembered p.surroundings)
    (Worker.rendering w batch paths plan (p.address batch.batch)) m m'
  stores : p.Stores m m' (p.address batch.batch) (j.withOutput (p.output batch.batch))

theorem exists_rendering (hp : p.Plannable) (w : Workplace) {batch : BatchJob α}
    (hbatch : batch ∈ p.batches) {m : Memory α} {j : JobRecord}
    (hj : m.ledger.get? p.request.jobId = some j) :
    ∃ paths plan m', p.Rendering w batch paths plan m m' j := by
  obtain ⟨hurls, -⟩ := ofRequest_of_mem_planBatches hbatch
  obtain ⟨paths, files, fetched, hlength, hfetch⟩ :=
    remembered_fetchAll (m := m) p.fetches batch.urls w.directory
  have hpaths : paths ≠ [] := by
    rw [← List.length_pos_iff, hlength]
    exact List.length_pos_iff.mpr hurls
  obtain ⟨plan, hplan⟩ := hp batch hbatch paths w.words hpaths
  obtain ⟨m', hpublished, hstores⟩ := p.exists_published plan (w.path "batch.mp4")
    (m := { m with files, fetched }) (c := .appendOutput batch.jobId (p.output batch.batch))
    (address_of_mem hbatch) hj (jobId_of_mem hbatch) rfl
  exact ⟨paths, plan, m', hbatch, hlength, hplan, .cons hfetch hpublished, hstores.known,
    hstores.claims, hstores.objects, hstores.dispatched⟩

theorem Rendering.shows {w : Workplace} {batch : BatchJob α} {paths : List String}
    {plan : RenderPlan α} {m m' : Memory α} {j : JobRecord}
    (h : p.Rendering w batch paths plan m m' j) : p.Shows batch.batch plan :=
  ⟨batch, h.mem, rfl, paths, w.words, h.length_eq, h.plan_eq⟩

theorem Produces.mono {b : ℕ} {calls calls' : List (WorkerCall α)} (h : p.Produces b calls)
    (hmore : calls <:+: calls') : p.Produces b calls' := by
  obtain ⟨batch, hbatch, hb, w, plan, hshows, hcalls⟩ := h
  exact ⟨batch, hbatch, hb, w, plan, hshows, hcalls.trans hmore⟩

theorem Rendering.produces {w : Workplace} {batch : BatchJob α} {paths : List String}
    {plan : RenderPlan α} {m m' : Memory α} {j : JobRecord}
    (h : p.Rendering w batch paths plan m m' j) :
    p.Produces batch.batch
      (listing (Worker.rendering w batch paths plan (p.address batch.batch))) :=
  ⟨batch, h.mem, rfl, w, plan, h.shows, [], [_], by simp [Worker.rendering, listed]; rfl⟩

/-! ## The join -/

omit [Scalar α] in
/-- All parts are fetched back, in order. -/
theorem exists_downloaded (s : Surroundings α) (w : Workplace) (outputs : List BatchOutput)
    (m : Memory α) (hstored : ∀ o ∈ outputs, (m.objects.lookup o.output).isSome = true) :
    ∃ files, System.Allowed (Remembered s) (outputs.map (Worker.downloaded w)) m
      { m with files } := by
  induction outputs generalizing m with
  | nil => exact ⟨m.files, .nil m⟩
  | cons output rest ih =>
      obtain ⟨content, hcontent⟩ := Option.isSome_iff_exists.mp (hstored _ List.mem_cons_self)
      obtain ⟨files, hrest⟩ := ih { m with
        files := Memory.put (Worker.partPath w output) content m.files }
        fun o ho => hstored o (List.mem_cons_of_mem _ ho)
      exact ⟨files, .cons (remembered_download _ hcontent) hrest⟩

omit [Scalar α] in
theorem listing_downloaded (w : Workplace) (outputs : List BatchOutput) :
    listing (outputs.map (Worker.downloaded (α := α) w)) =
      outputs.map fun o => .download o.output (Worker.partPath w o) := by
  induction outputs with
  | nil => rfl
  | cons output rest ih => simp [ih, listed]

/-- Some track fits, whatever the length. -/
theorem exists_select (p : SplitRequest α) {choose : ℕ → ℕ} (hchoose : ∀ n, 0 < n → choose n < n)
    (target : α) :
    ∃ catalog track, p.surroundings.catalog = some catalog ∧
      catalog.select target choose = some track := by
  obtain ⟨catalog, hcatalog, heligible⟩ := p.tracks
  have hlt := hchoose _ (List.length_pos_iff.mpr (heligible target))
  exact ⟨catalog, _, hcatalog, List.getElem?_eq_getElem hlt⟩

/-- When all parts are there, they are joined and stored. -/
theorem exists_joining {w : Workplace} (hw : ∀ n, 0 < n → w.choose n < n) {m : Memory α}
    {j j' : JobRecord} (hid : j.id = p.request.jobId)
    (houtputs : j.orderedOutputs = (List.range' 1 p.count).map p.output)
    (hstored : ∀ b ∈ List.range' 1 p.count, (m.objects.lookup (p.address b)).isSome = true)
    (hj' : m.ledger.get? p.request.jobId = some j') :
    ∃ t joined final m', (Worker.join w j).run.Leads t (.done (.ok ())) ∧
      System.Allowed (Remembered p.surroundings) t m m' ∧
      p.Stores m m' p.video (j'.withStatus .processed (some p.video)) ∧
      p.Joins joined ∧ final.audio.isSome = true ∧
      (listing t).filterMap rendered? = [joined, final] ∧
      (listing t).filterMap uploaded? = [p.video] ∧
      (listing t).filterMap downloaded? = (List.range' 1 p.count).map p.address := by
  have hparts : j.orderedOutputs.map (Worker.partPath w) ≠ [] := by
    simpa [houtputs] using Nat.ne_of_gt p.count_pos
  obtain ⟨joined, hconcat, hinputs⟩ := RenderPlan.exists_concat (α := α) hparts
  let length := joined.duration.getD p.surroundings.joinedDuration
  obtain ⟨catalog, track, hcatalog, hselect⟩ := p.exists_select hw length
  -- what happens to the memory, call by call
  have hthere : ∀ o ∈ j.orderedOutputs, (m.objects.lookup o.output).isSome = true := by
    intro o ho
    rw [houtputs] at ho
    obtain ⟨b, hb, rfl⟩ := List.mem_map.mp ho
    exact hstored b hb
  obtain ⟨files, hdownloads⟩ := exists_downloaded p.surroundings w j.orderedOutputs m hthere
  let m₁ : Memory α := { m with files := Memory.put (w.path "joined.mp4") (.video length) files }
  have hjoin : (render joined (w.path "joined.mp4")).Remembered p.surroundings
      { m with files } (.ok ()) m₁ := remembered_render p.renders joined _
  have hlength : (duration (w.path "joined.mp4")).Remembered p.surroundings m₁ (.ok length) m₁ :=
    remembered_duration (Memory.lookup_put_self _ _ _)
  have hasked : audioCatalog.Remembered p.surroundings m₁ (.ok (some catalog)) m₁ := by
    rw [← hcatalog]
    rfl
  obtain ⟨path, files', fetched, hfetch⟩ :=
    remembered_fetch (m := m₁) p.fetches track.url w.directory
  obtain ⟨final, fit, hremux, haudio⟩ :=
    RenderPlan.exists_remuxWithAudio (w.path "joined.mp4") path track.length length
  have hplace : Memory.address j.id Blob.finalSegment = p.video := by rw [hid, video]
  obtain ⟨m', hpublished, hstores⟩ := p.exists_published final (w.path "video.mp4")
    (m := { m₁ with files := files', fetched }) (c := .setStatus j.id .processed (some p.video))
    hplace hj' hid rfl
  refine ⟨_, joined, final, m', Worker.leads_join hconcat hselect hremux p.video,
    hdownloads.append (.cons hjoin (.cons hlength (.cons hasked (.cons hfetch hpublished)))),
    ⟨hstores.known, hstores.claims, hstores.objects, hstores.dispatched⟩, ⟨w, ?_⟩, haudio,
    ?_, ?_, ?_⟩
  · simp [hinputs, houtputs, Function.comp_def]
  all_goals rw [Worker.joining, listing_append, listing_downloaded, houtputs]
  · simp [listed, List.filterMap_cons, rendered?, Function.comp_def]
  · simp [listed, List.filterMap_cons, uploaded?, Function.comp_def, hid, video]
  · simp [listed, List.filterMap_cons, downloaded?, Function.comp_def, output]

end SplitRequest

end Slideshow
