import Slideshow.Proofs.Job.Batches
import Slideshow.Proofs.Worker.Handle

/-! # What the delivery of a request calls

A request is looked at anew on every delivery: which of its addresses are valid is asked again, and
from the answer the batches are planned again. `Issues` says which number of batches is noted and
which batches are handed to the queue, each with what the worker was told before. -/

namespace Slideshow

variable {α : Type}

/-- The options with both sides of the frame fixed, where the first slide has this frame. -/
def SceneOptions.sized [Scalar α] (o : SceneOptions α) (frame : ℕ × ℕ) : SceneOptions α :=
  if o.needsSourceSize then
    let size := o.resolveSize (some frame)
    { o with width := some size.1, height := some size.2 }
  else o

theorem SceneOptions.batchMode_sized [Scalar α] (o : SceneOptions α) (frame : ℕ × ℕ) :
    (o.sized frame).batchMode = o.batchMode := by
  unfold sized
  split <;> rfl

theorem SceneOptions.sceneDuration_sized [Scalar α] (o : SceneOptions α) (frame : ℕ × ℕ) :
    (o.sized frame).sceneDuration = o.sceneDuration := by
  unfold sized
  split <;> rfl

theorem SceneOptions.transitionDuration_sized [Scalar α] (o : SceneOptions α) (frame : ℕ × ℕ) :
    (o.sized frame).transitionDuration = o.transitionDuration := by
  unfold sized
  split <;> rfl

namespace WorkerExchange

/-- The addresses that were found valid. -/
abbrev found (urls valid : List String) : WorkerExchange α := ⟨.filterValid urls, valid⟩

/-- The number of batches was noted. -/
abbrev counted (id : JobId) (count : ℕ) : WorkerExchange α :=
  ⟨.store (.setBatchCount id count), .ok ()⟩

/-- A batch was handed to the queue. -/
abbrev dispatched (batch : BatchJob α) : WorkerExchange α := ⟨.dispatch batch, .ok ()⟩

end WorkerExchange

open WorkerExchange

namespace VideoRequest

variable [Scalar α]

/-- Which requests may be split at all. -/
def Splittable (request : VideoRequest α) (limits : WorkerLimits) : Prop :=
  request.validate limits.maxSlides = .ok () ∧ request.options.batchMode = true

/-- The options of a valid request are valid. -/
theorem options_of_validate {request : VideoRequest α} {limit : ℕ}
    (h : request.validate limit = .ok ()) : request.options.validate = .ok () := by
  unfold validate at h
  split at h
  · cases h
  · split at h
    · cases h
    · cases hurls : request.urls.forM checkUrl with
      | error e =>
          rw [hurls] at h
          cases h
      | ok _ =>
          rw [hurls] at h
          cases hoptions : request.options.validate with
          | error e =>
              rw [hoptions] at h
              cases h
          | ok _ => rfl

omit [Scalar α] in
/-- Some addresses were found valid, and they are too many for one batch. -/
def Found (request : VideoRequest α) (limits : WorkerLimits) (t : List (WorkerExchange α))
    (valid : List String) : Prop :=
  found request.urls valid ∈ t ∧ limits.batchSize < valid.length

/-- What is called in the delivery of a request. The number of batches that is noted, and the
batches that are handed to the queue once it is noted, are those of the addresses found valid in
the same delivery. -/
def Issues (request : VideoRequest α) (limits : WorkerLimits) (t : List (WorkerExchange α)) :
    WorkerCall α → Prop
  | .store (.setBatchCount id count) =>
    id = request.jobId ∧ request.Splittable limits ∧ ∃ valid, request.Found limits t valid ∧
      count = batchCount valid.length limits.batchSize % UInt32.size
  | .dispatch batch =>
    request.Splittable limits ∧ ∃ valid options, request.Found limits t valid ∧
      batch ∈ planBatches request.jobId valid options limits.batchSize ∧
      counted request.jobId (batchCount valid.length limits.batchSize % UInt32.size) ∈ t
  | .store (.appendOutput _ _) => False
  | _ => True

theorem issues_aside {request : VideoRequest α} {limits : WorkerLimits}
    {t : List (WorkerExchange α)} {c : WorkerCall α} (h : c.Aside) :
    request.Issues limits t c := by
  cases c with
  | store c => exact h.elim
  | dispatch b => exact h.elim
  | _ => trivial

end VideoRequest

namespace Worker

open VideoRequest

variable {t : List (WorkerExchange α)}

/-! ## What may be called -/

theorem meets_setBatchCount {β : Type} {issues : List (WorkerExchange α) → WorkerCall α → Prop}
    {ends : List (WorkerExchange α) → Except WorkerError β → Prop} (id : JobId) (count : ℕ)
    {f : Unit → Task α β} (herror : ∀ u e, ends u (.error e))
    (hissues : issues t (.store (.setBatchCount id count)))
    (hf : (f ()).run.Meets issues ends (t ++ [counted id count])) :
    (Task.setBatchCount id count >>= f).run.Meets issues ends t := by
  refine Task.meets_bind_of_ok herror ⟨hissues, fun a _ ha => ?_⟩
  subst ha
  exact hf

variable [Scalar α] {request : VideoRequest α} {limits : WorkerLimits}

theorem meets_split_issues {valid : List String} {options : SceneOptions α}
    (hrequest : request.Splittable limits) (hfound : request.Found limits t valid) :
    (split limits request.jobId valid options).run.Meets (request.Issues limits)
      (fun _ _ => True) t := by
  have hlength := length_planBatches request.jobId valid options limits.batchSize
  simp only [split, hlength]
  refine meets_setBatchCount _ _ (fun _ _ => trivial) ⟨rfl, hrequest, valid, hfound, rfl⟩ ?_
  refine meets_dispatchAll _ fun batch hbatch u hu => ⟨hrequest, valid, options, ?_, hbatch, ?_⟩
  · exact ⟨hu.subset (List.mem_append_left _ hfound.1), hfound.2⟩
  · exact hu.subset List.mem_concat_self

theorem meets_renderWhole_issues (w : Workplace) (urls : List String) (options : SceneOptions α) :
    (renderWhole w request.jobId urls options).run.Meets (request.Issues limits)
      (fun _ _ => True) t := by
  have haside : ∀ (u : List (WorkerExchange α)) c, c.Aside → request.Issues limits u c :=
    fun _ _ => issues_aside
  refine (apart_renderSlides w urls options).meets_bind haside (fun _ _ => trivial) ?_
  intro output u _
  refine (Task.apart_upload _ _ _).meets_bind haside (fun _ _ => trivial) fun url u _ => ?_
  exact ⟨trivial, fun _ => trivial⟩

/-- Fixing the size leaves it open whether the request is split. -/
theorem meets_fixSize (w : Workplace) (options : SceneOptions α) (firstUrl : String) :
    (fixSize w options firstUrl).run.Meets (fun _ c => c.Aside)
      (fun _ result => ∀ fixed, result = .ok fixed → fixed.batchMode = options.batchMode) t := by
  rw [fixSize]
  split
  · refine Task.meets_bind_of_ok (by simp) ⟨trivial, fun _ path _ => ?_⟩
    refine Task.meets_bind_of_ok (by simp) ⟨trivial, fun _ frame _ => ?_⟩
    rintro fixed ⟨⟩
    rfl
  · rintro fixed ⟨⟩
    rfl

theorem meets_createVideo_issues (limits : WorkerLimits) (w : Workplace)
    (request : VideoRequest α) :
    (createVideo limits w request).run.Meets (request.Issues limits) (fun _ _ => True) [] := by
  rw [createVideo, Task.meets_bind, meets_record]
  refine ⟨trivial, fun _ => trivial, trivial, fun r => ?_⟩
  dsimp only
  split
  · trivial
  · split
    · trivial
    · rename_i hvalid
      refine Task.meets_bind_of_ok (fun _ _ => trivial) ⟨trivial, fun valid _ h => ?_⟩
      cases h
      cases valid with
      | nil => exact ⟨trivial, fun _ => trivial⟩
      | cons first rest =>
          refine Task.meets_bind_of_ok (fun _ _ => trivial) ?_
          refine (meets_fixSize w request.options first).mono (fun _ _ _ => issues_aside) ?_
          intro u result hu hmode options hresult
          split
          · exact meets_renderWhole_issues w _ _
          · rename_i hsplit
            simp only [Bool.or_eq_true, Bool.not_eq_true', decide_eq_true_eq, not_or, not_le,
              Bool.not_eq_false] at hsplit
            have hrequest : request.Splittable limits :=
              ⟨hvalid, (hmode options hresult).symm.trans hsplit.1⟩
            exact meets_split_issues hrequest ⟨hu.subset List.mem_concat_self, hsplit.2⟩

theorem meets_handle_createVideo (limits : WorkerLimits) (w : Workplace)
    (request : VideoRequest α) :
    (handle limits w (.createVideo request)).Meets (request.Issues limits) (fun _ _ => True) [] := by
  rw [handle, perform, Program.meets_bind]
  refine (meets_createVideo_issues limits w request).mono (fun _ _ _ h => h) fun u result _ _ => ?_
  cases result with
  | ok _ => trivial
  | error e => exact ⟨trivial, fun _ => trivial⟩

/-! ## What may happen -/

omit [Scalar α] in
theorem leads_dispatchAll (batches : List (BatchJob α)) :
    (dispatchAll batches).run.Leads (batches.map dispatched) (.done (.ok ())) := by
  induction batches with
  | nil => exact .start _
  | cons batch rest ih => exact .answered ih

/-- What a worker is told while the size is fixed, when all goes well. -/
def sizing (w : Workplace) (o : SceneOptions α) (firstUrl path : String) (frame : ℕ × ℕ) :
    List (WorkerExchange α) :=
  if o.needsSourceSize then
    [⟨.fetch firstUrl w.directory, .ok path⟩, ⟨.frameSize path, .ok frame⟩]
  else []

theorem leads_fixSize (w : Workplace) (o : SceneOptions α) (firstUrl path : String)
    (frame : ℕ × ℕ) :
    (fixSize w o firstUrl).run.Leads (sizing w o firstUrl path frame)
      (.done (.ok (o.sized frame))) := by
  rw [fixSize, sizing, SceneOptions.sized]
  split
  · exact .answered (.answered (.start _))
  · exact .start _

theorem exists_leads_fixSize (w : Workplace) (options : SceneOptions α) (firstUrl : String) :
    ∃ t fixed, (fixSize w options firstUrl).run.Leads t (.done (.ok fixed)) ∧
      fixed.batchMode = options.batchMode ∧
      ∀ e ∈ t, e.call.Aside ∧ ∀ urls, e.call ≠ .filterValid urls := by
  refine ⟨_, _, leads_fixSize w options firstUrl "" (1, 1), options.batchMode_sized (1, 1), ?_⟩
  unfold sizing
  split
  · simp [WorkerCall.Aside]
  · simp

/-- A request whose job has ended is done with. -/
theorem leads_handle_createVideo_of_isTerminal (limits : WorkerLimits) (w : Workplace)
    {r : JobRecord} (hended : r.status.isTerminal = true) :
    (handle limits w (.createVideo request)).Leads [loaded request.jobId r] (.done (.ok ())) := by
  have hcreate : (createVideo limits w request).run.Leads ([loaded request.jobId r] ++ [])
      (.done (.ok ())) := by
    refine Task.leads_bind (leads_record request.jobId r) ?_
    simp only [hended, if_true]
    exact .start _
  exact hcreate.bind _

/-- Once addresses are found valid, the size is fixed before anything is rendered or split. -/
theorem leads_createVideo_found (w : Workplace) {r : JobRecord} {first : String}
    {rest : List String} (hopen : r.status.isTerminal = false)
    (hvalid : request.validate limits.maxSlides = .ok ()) :
    (createVideo limits w request).run.Leads
      [loaded request.jobId r, found request.urls (first :: rest)]
      (ExceptT.run do
        let options ← fixSize w request.options first
        if !options.batchMode || (first :: rest).length ≤ limits.batchSize then
          renderWhole w request.jobId (first :: rest) options
        else split limits request.jobId (first :: rest) options) := by
  refine Task.leads_bind (u := [_]) (leads_record request.jobId r) ?_
  simp only [hopen, hvalid, Bool.false_eq_true, if_false]
  exact Task.leads_bind (x := Task.filterValid request.urls) (t := [_]) (.answered (.start _))
    (.start _)

/-- A request for which many addresses are found valid is split. -/
theorem leads_handle_createVideo (w : Workplace) {r : JobRecord} {first : String}
    {rest : List String} {fixed : SceneOptions α} (hopen : r.status.isTerminal = false)
    (hrequest : request.Splittable limits) (hlarge : limits.batchSize < (first :: rest).length)
    (hfixed : (fixSize w request.options first).run.Leads t (.done (.ok fixed)))
    (hmode : fixed.batchMode = request.options.batchMode) :
    (handle limits w (.createVideo request)).Leads
      (loaded request.jobId r :: found request.urls (first :: rest) ::
        (t ++ counted request.jobId (batchCount (first :: rest).length limits.batchSize %
          UInt32.size) ::
          (planBatches request.jobId (first :: rest) fixed limits.batchSize).map dispatched))
      (.done (.ok ())) := by
  have hcreate : (createVideo limits w request).run.Leads
      ([loaded request.jobId r, found request.urls (first :: rest)] ++
        (t ++ counted request.jobId (batchCount (first :: rest).length limits.batchSize %
          UInt32.size) ::
          (planBatches request.jobId (first :: rest) fixed limits.batchSize).map dispatched))
      (.done (.ok ())) := by
    refine (leads_createVideo_found w hopen hrequest.1).append (Task.leads_bind hfixed ?_)
    have hsplit : (!fixed.batchMode || decide ((first :: rest).length ≤ limits.batchSize)) =
        false := by
      simpa [hmode, hrequest.2] using hlarge
    simp only [hsplit, Bool.false_eq_true, if_false, split, length_planBatches]
    exact .answered (leads_dispatchAll _)
  exact hcreate.bind _

end Worker

end Slideshow
