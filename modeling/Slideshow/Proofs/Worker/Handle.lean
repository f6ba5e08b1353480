import Slideshow.Proofs.Job.Outputs
import Slideshow.Proofs.Store.Ledger
import Slideshow.Proofs.Worker.Batch

/-! # What the delivery of any message calls

All calls to the record store concern the job of the message, and the only status that is ever set
is that of a finished job. A delivery to which the record says that there is nothing left to do
changes nothing. -/

namespace Slideshow

open WorkerExchange

variable {α : Type}

/-- No status but that of a finished job is set. -/
def StoreCall.Closes : StoreCall → Prop
  | setStatus _ status _ => status = .processed
  | _ => True

theorem StoreCall.isTerminal_change {c : StoreCall} {r : JobRecord} (hc : c.Closes)
    (h : r.status.isTerminal = true) : (c.change r).status.isTerminal = true := by
  cases c with
  | setStatus id status video =>
      cases hc
      rfl
  | markFailed id reason => rfl
  | claimJoin id batch =>
      rw [change]
      split
      · rename_i hopen
        simp [hopen, JobStatus.isTerminal] at h
      · exact h
  | load id | setBatchCount id count | appendOutput id output => exact h

namespace QueueJob

/-- The calls to the record store that concern the job of a message. -/
def Concerns (job : QueueJob α) (t : List (WorkerExchange α)) : WorkerCall α → Prop
  | .store c => c.Closes ∧
    (c.jobId = job.jobId ∨ ∃ r, loaded job.jobId r ∈ t ∧ c.jobId = r.id)
  | _ => True

theorem concerns_aside {job : QueueJob α} {t : List (WorkerExchange α)} {c : WorkerCall α}
    (h : c.Aside) : job.Concerns t c := by
  cases c with
  | store c => exact h.elim
  | _ => trivial

theorem concerns_of_issues {batch : BatchJob α} {t : List (WorkerExchange α)} {c : WorkerCall α}
    (h : batch.Issues t c) : (renderBatch batch).Concerns t c := by
  cases c with
  | store c =>
      cases c with
      | load id | markFailed id reason => exact ⟨trivial, .inl h⟩
      | setBatchCount id count => exact h.elim
      | setStatus id status video => exact ⟨h.1, .inr h.2⟩
      | appendOutput id output | claimJoin id b => exact ⟨trivial, .inl h.1⟩
  | _ => trivial

end QueueJob

namespace Worker

/-! ## Requests -/

theorem apart_lift {β : Type} {x : Task α β} (hx : x.Apart) :
    Task.Apart (ExceptT.lift x.run : Task α (Except WorkerError β)) := by
  intro t
  refine (Program.meets_bind x.run (pure ∘ Except.ok)).mpr ?_
  exact (hx t).mono (fun _ _ _ h => h) fun _ _ _ _ => trivial

variable {t : List (WorkerExchange α)}

/-- Handing batches to the queue is all that is done. -/
theorem meets_dispatchAll {issues : List (WorkerExchange α) → WorkerCall α → Prop}
    (batches : List (BatchJob α))
    (h : ∀ batch ∈ batches, ∀ u, t <+: u → issues u (.dispatch batch)) :
    (dispatchAll batches).run.Meets issues (fun _ _ => True) t := by
  induction batches generalizing t with
  | nil => trivial
  | cons batch rest ih =>
      refine Task.meets_bind_of_ok (fun _ _ => trivial)
        ⟨h batch List.mem_cons_self t (List.prefix_refl t), fun a _ _ => ?_⟩
      refine ih fun b hb u hu => h b (List.mem_cons_of_mem batch hb) u ?_
      exact (List.prefix_append _ _).trans hu

variable [Scalar α]

theorem apart_fixSize (w : Workplace) (options : SceneOptions α) (firstUrl : String) :
    (fixSize w options firstUrl).Apart := by
  rw [fixSize]
  split
  · refine (Task.apart_fetch _ _).bind fun path => ?_
    exact Task.Apart.bind (fun _ => ⟨trivial, fun _ => trivial⟩) fun _ _ => trivial
  · exact fun _ => trivial

theorem apart_withTrack (w : Workplace) (plan : RenderPlan α) (target : α) :
    (withTrack w plan target).Apart := by
  refine (apart_lift (apart_trackFor w target)).bind fun track => ?_
  rcases track with e | ⟨⟩ | ⟨track, native⟩
  · exact fun _ => trivial
  · exact fun _ => trivial
  · exact (Task.apart_ofMedia _).bind fun _ _ => trivial

theorem apart_renderSlides (w : Workplace) (urls : List String) (options : SceneOptions α) :
    (renderSlides w urls options).Apart := by
  refine (Task.apart_fetchAll _ _).bind fun paths => (Task.apart_ofMedia _).bind fun plan => ?_
  have hrender : ∀ plan : RenderPlan α, Task.Apart (do
      Task.render plan (w.path "video.mp4")
      return w.path "video.mp4") := fun plan => (Task.apart_render _ _).bind fun _ _ => trivial
  dsimp only
  split
  · exact (apart_withTrack _ _ _).bind hrender
  · exact hrender plan

theorem meets_renderWhole (w : Workplace) (job : QueueJob α) (urls : List String)
    (options : SceneOptions α) :
    (renderWhole w job.jobId urls options).run.Meets job.Concerns (fun _ _ => True) t := by
  have haside : ∀ (u : List (WorkerExchange α)) c, c.Aside → job.Concerns u c :=
    fun _ _ => QueueJob.concerns_aside
  refine (apart_renderSlides w urls options).meets_bind haside (fun _ _ => trivial) ?_
  intro output u _
  refine (Task.apart_upload _ _ _).meets_bind haside (fun _ _ => trivial) fun url u _ => ?_
  exact ⟨⟨rfl, .inl rfl⟩, fun _ => trivial⟩

omit [Scalar α] in
theorem meets_split (limits : WorkerLimits) (job : QueueJob α) (urls : List String)
    (options : SceneOptions α) :
    (split limits job.jobId urls options).run.Meets job.Concerns (fun _ _ => True) t := by
  refine Task.meets_bind_of_ok (fun _ _ => trivial) ⟨⟨trivial, .inl rfl⟩, fun a _ _ => ?_⟩
  exact meets_dispatchAll _ fun _ _ _ _ => trivial

theorem meets_createVideo (limits : WorkerLimits) (w : Workplace) (request : VideoRequest α) :
    (createVideo limits w request).run.Meets (QueueJob.createVideo request).Concerns
      (fun _ _ => True) [] := by
  have haside : ∀ (u : List (WorkerExchange α)) c, c.Aside →
      (QueueJob.createVideo request).Concerns u c := fun _ _ => QueueJob.concerns_aside
  rw [createVideo, Task.meets_bind, meets_record]
  refine ⟨⟨trivial, .inl rfl⟩, fun _ => trivial, trivial, fun r => ?_⟩
  dsimp only
  split
  · trivial
  · split
    · trivial
    · refine Task.meets_bind_of_ok (fun _ _ => trivial) ⟨trivial, fun a urls _ => ?_⟩
      cases urls with
      | nil => exact ⟨⟨rfl, .inl rfl⟩, fun _ => trivial⟩
      | cons first rest =>
          refine (apart_fixSize w _ _).meets_bind haside (fun _ _ => trivial) fun options u _ => ?_
          split
          · exact meets_renderWhole w (.createVideo request) _ _
          · exact meets_split limits (.createVideo request) _ _

/-- All that the delivery of a message asks of the record store concerns its job. -/
theorem meets_handle_concerns (limits : WorkerLimits) (w : Workplace) (job : QueueJob α) :
    (handle limits w job).Meets job.Concerns (fun _ _ => True) [] := by
  cases job with
  | renderBatch batch =>
      refine (meets_handle limits w batch).mono ?_ fun _ _ _ _ => trivial
      exact fun _ _ _ => QueueJob.concerns_of_issues
  | createVideo request =>
      rw [handle, perform, Program.meets_bind]
      refine (meets_createVideo limits w request).mono (fun _ _ _ h => h) fun u result _ _ => ?_
      cases result with
      | ok _ => trivial
      | error e => exact ⟨⟨trivial, .inl rfl⟩, fun _ => trivial⟩

end Worker

/-! ## Deliveries that have nothing left to do -/

/-- A call that may change a record. -/
def WorkerCall.Writes : WorkerCall α → Prop
  | .store (.load _) => False
  | .store _ => True
  | _ => False

/-- A call that notes that a job failed. -/
def WorkerCall.Fails : WorkerCall α → Prop
  | .store (.markFailed _ _) => True
  | _ => False

namespace QueueJob

/-- Whether a record tells the delivery of a message that there is nothing left to do. -/
def Stops (r : JobRecord) : QueueJob α → Prop
  | createVideo _ => r.status.isTerminal = true
  | renderBatch batch =>
    r.status = .failed ∨ r.status = .processed ∧ r.hasReceived batch.batch = true

/-- The delivery was told something else: that there is something left to do, or nothing at all. -/
def Unstopped (job : QueueJob α) (t : List (WorkerExchange α)) : Prop :=
  ∃ a, (⟨.store (.load job.jobId), a⟩ : WorkerExchange α) ∈ t ∧
    ∀ r, a = Except.ok (some r) → ¬ job.Stops r

theorem Unstopped.mono {job : QueueJob α} {t u : List (WorkerExchange α)} (h : job.Unstopped t)
    (hu : t <+: u) : job.Unstopped u := by
  obtain ⟨a, ha, hr⟩ := h
  exact ⟨a, hu.subset ha, hr⟩

theorem isTerminal_of_stops {job : QueueJob α} {r : JobRecord} (h : job.Stops r) :
    r.status.isTerminal = true := by
  cases job with
  | createVideo request => exact h
  | renderBatch batch =>
      rcases h with h | ⟨h, -⟩ <;> rw [h] <;> rfl

end QueueJob

namespace Worker

variable {job : QueueJob α} {t : List (WorkerExchange α)}

/-- Once there is something left to do, anything may be done. -/
theorem meets_of_unstopped {β : Type} (h : job.Unstopped t)
    (p : Program (WorkerCall.Answer (α := α)) β) {ends : List (WorkerExchange α) → β → Prop}
    (hends : ∀ u b, job.Unstopped u → ends u b) :
    p.Meets (fun u c => c.Writes → job.Unstopped u) ends t :=
  Program.meets_of_forall p (fun _ _ hu _ => h.mono hu) fun u b hu => hends u b (h.mono hu)

/-- Only what is done with a record that stops the delivery matters. -/
theorem meets_record_bind {f : JobRecord → Task α Unit}
    (hf : ∀ r, job.Stops r → (f r).run.Meets (fun u c => c.Writes → job.Unstopped u)
      (fun u result => result = .ok () ∨ job.Unstopped u) (t ++ [loaded job.jobId r])) :
    (record job.jobId >>= f).run.Meets (fun u c => c.Writes → job.Unstopped u)
      (fun u result => result = .ok () ∨ job.Unstopped u) t := by
  rw [Task.meets_bind, meets_record]
  refine ⟨fun h => h.elim, fun e => .inr ?_, .inr ?_, fun r => ?_⟩
  · exact ⟨_, List.mem_concat_self, fun r h => nomatch h⟩
  · exact ⟨_, List.mem_concat_self, fun r h => nomatch h⟩
  · by_cases hr : job.Stops r
    · exact hf r hr
    · refine meets_of_unstopped ⟨_, List.mem_concat_self, ?_⟩ _ fun _ _ h => .inr h
      rintro r' h
      cases h
      exact hr

variable [Scalar α]

/-- A delivery fails only if there was something left to do. -/
theorem meets_perform_unstopped (limits : WorkerLimits) (w : Workplace) (job : QueueJob α) :
    (perform limits w job).run.Meets (fun u c => c.Writes → job.Unstopped u)
      (fun u result => result = .ok () ∨ job.Unstopped u) t := by
  cases job with
  | createVideo request =>
      refine meets_record_bind fun r hr => ?_
      have hended : r.status.isTerminal = true := hr
      rw [if_pos hended]
      exact .inl rfl
  | renderBatch batch =>
      refine meets_record_bind fun r hr => ?_
      rcases hr with hfailed | ⟨hprocessed, hreceived⟩
      · rw [if_pos hfailed]
        exact .inl rfl
      · have hrest : (joinIfComplete w batch.jobId batch.batch).run.Meets
            (fun u c => c.Writes → (QueueJob.renderBatch batch).Unstopped u)
            (fun u result => result = .ok () ∨ (QueueJob.renderBatch batch).Unstopped u)
            (t ++ [loaded batch.jobId r]) := by
          refine meets_record_bind fun r hr => ?_
          have hended := QueueJob.isTerminal_of_stops hr
          rw [if_neg (by simp [JobRecord.not_joinOwnedBy_of_isTerminal hended]),
            if_neg (by simp [JobRecord.not_readyToJoin_of_isTerminal hended])]
          exact .inl rfl
        simpa [hprocessed, hreceived, QueueJob.jobId] using hrest

/-- A delivery changes nothing unless there is something left to do. -/
theorem meets_handle_unstopped (limits : WorkerLimits) (w : Workplace) (job : QueueJob α) :
    (handle limits w job).Meets (fun u c => c.Writes → job.Unstopped u) (fun _ _ => True) t := by
  rw [handle, Program.meets_bind]
  refine (meets_perform_unstopped limits w job).mono (fun _ _ _ h => h) fun u result _ h => ?_
  cases result with
  | ok _ => trivial
  | error e => exact ⟨fun _ => h.resolve_left (by rintro ⟨⟩), fun _ => trivial⟩

end Worker

end Slideshow
