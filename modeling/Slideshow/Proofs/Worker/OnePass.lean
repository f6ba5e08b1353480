import Slideshow.Proofs.Render.Whole
import Slideshow.Proofs.Worker.Rehearsal
import Slideshow.Proofs.Worker.Request

/-! # Requests that are rendered in one pass

Where all calls succeed, one plan is rendered, made of the files that were fetched for the valid
addresses. It shows all of them, unless the client sent the mark of a batch that continues another
one: nothing takes that mark off a request that is not split. -/

namespace Slideshow

open WorkerExchange

/-- The plans that were rendered. -/
def rendered {α : Type} (t : List (WorkerExchange α)) : List (RenderPlan α) :=
  t.filterMap fun e => e.call.rendered?

theorem rendered_append {α : Type} (t u : List (WorkerExchange α)) :
    rendered (t ++ u) = rendered t ++ rendered u := List.filterMap_append

theorem SceneOptions.ofOptions_sized {α : Type} [Scalar α] (o : SceneOptions α) (frame size : ℕ × ℕ)
    (words : Words) :
    SceneSpec.ofOptions (o.sized frame) size words = SceneSpec.ofOptions o size words := by
  unfold sized
  split <;> rfl

namespace Worker

variable {w : Workplace} {plan : RenderPlan Rat}

open Slideshow.Task Slideshow.Task.Completes

theorem completes_fixSize {α : Type} [Scalar α] (w : Workplace) (o : SceneOptions α)
    (firstUrl : String) :
    (fixSize w o firstUrl).Completes fun t fixed =>
      rendered t = [] ∧ ∃ frame, fixed = o.sized frame := by
  rw [fixSize]
  unfold SceneOptions.sized
  split
  · refine bind_ask (c := .fetch firstUrl w.directory) (g := id) rfl ?_
    rintro _ ⟨path, rfl⟩
    refine ⟨path, rfl, bind_ask (c := .frameSize path) (g := id) rfl ?_⟩
    rintro _ ⟨frame, rfl⟩
    exact ⟨frame, rfl, completes_pure ⟨rfl, frame, rfl⟩⟩
  · exact completes_pure ⟨rfl, (1, 1), rfl⟩

theorem completes_trackFor (w : Workplace) (target : Rat) :
    (trackFor w target).Completes fun t _ => rendered t = [] := by
  refine bind_ask (c := .audioCatalog) (g := id) rfl ?_
  rintro _ ⟨catalog, rfl⟩
  refine ⟨catalog, rfl, ?_⟩
  cases catalog with
  | none => exact completes_pure rfl
  | some catalog =>
      dsimp only
      cases catalog.select target w.choose with
      | none => exact completes_pure rfl
      | some track =>
          refine bind_ask (c := .fetch track.url w.directory) (g := id) rfl ?_
          rintro _ ⟨path, rfl⟩
          exact ⟨path, rfl, completes_pure rfl⟩

theorem completes_withTrack {slides : List Slide} {spec : SceneSpec Rat} (w : Workplace)
    (target : Rat) (hplan : RenderPlan.slideshow slides spec = .ok plan) :
    (withTrack w plan target).Completes fun t plan' => rendered t = [] ∧ plan.Fitted plan' := by
  refine (completes_trackFor w target).lift.bind ?_
  rintro t _ ⟨track, rfl, ht⟩
  cases track with
  | none => exact completes_pure ⟨by simpa using ht, .inl rfl⟩
  | some track =>
      obtain ⟨_, _, fit, _, haudio, -⟩ := RenderPlan.withAudio_of_slideshow hplan track.1 track.2
      apply bind_ofMedia haudio
      exact completes_pure ⟨by simpa using ht, .inr ⟨track.1, track.2, fit, haudio⟩⟩

/-- Among the calls the files of these addresses are fetched, and one plan is rendered. -/
structure RendersOnce (w : Workplace) (urls paths : List String) (plan : RenderPlan Rat)
    (t : List (WorkerExchange Rat)) : Prop where
  fetched : ⟨.fetchAll urls w.directory, .ok paths⟩ ∈ t
  length_eq : paths.length = urls.length
  rendered : rendered t = [plan]

namespace RendersOnce

variable {urls paths : List String} {t u : List (WorkerExchange Rat)}

theorem append_left (h : RendersOnce w urls paths plan t) (hu : Slideshow.rendered u = []) :
    RendersOnce w urls paths plan (u ++ t) where
  fetched := List.mem_append_right u h.fetched
  length_eq := h.length_eq
  rendered := by rw [rendered_append, hu, h.rendered, List.nil_append]

theorem append_right (h : RendersOnce w urls paths plan t) (hu : Slideshow.rendered u = []) :
    RendersOnce w urls paths plan (t ++ u) where
  fetched := List.mem_append_left u h.fetched
  length_eq := h.length_eq
  rendered := by rw [rendered_append, hu, h.rendered, List.append_nil]

end RendersOnce

/-- One plan is rendered. It shows all files unless they are said to continue a batch, and lasts as
long as the new ones among them. -/
def ShowsUnlessContinued (w : Workplace) (urls : List String) (o : SceneOptions Rat)
    (t : List (WorkerExchange Rat)) : Prop :=
  ∃ paths plan, RendersOnce w urls paths plan t ∧
    (plan.ShowsAll paths o ↔ ¬ (o.batchContinuation = .continuation ∧ 1 < urls.length)) ∧
    plan.duration = some (o.span (o.fresh urls.length))

variable {o : SceneOptions Rat} {urls : List String}

theorem completes_renderSlides (w : Workplace) (ho : o.validate = .ok ()) (hurls : urls ≠ [])
    (frame : ℕ × ℕ) :
    (renderSlides w urls (o.sized frame)).Completes fun t _ => ShowsUnlessContinued w urls o t := by
  refine bind_ask (c := .fetchAll urls w.directory) (g := id) rfl ?_
  rintro _ ⟨paths, rfl, hlength⟩
  refine ⟨paths, rfl, ?_⟩
  have hslides : paths.map (fun path => (⟨path, .still⟩ : Slide)) ≠ [] := by
    rw [Ne, List.map_eq_nil_iff, ← List.length_eq_zero_iff, hlength, List.length_eq_zero_iff]
    exact hurls
  obtain ⟨plan, hplan⟩ := RenderPlan.exists_slideshow (SceneOptions.timed_of_validate ho)
    (fun x => Rat.mul_comm 2 x) hslides ((o.sized frame).resolveSize none) w.words
  have hslideshow : slideshowPlan paths (o.sized frame) w.words = .ok plan := by
    rw [slideshowPlan, SceneOptions.ofOptions_sized]
    exact hplan
  have hrender : ∀ u plan', rendered u = [] → plan.Fitted plan' →
      Task.Completes (do
        Task.render plan' (w.path "video.mp4")
        return w.path "video.mp4")
        fun v _ => ShowsUnlessContinued w urls o
          (⟨.fetchAll urls w.directory, .ok paths⟩ :: (u ++ v)) := by
    intro u plan' hu hfitted
    refine bind_ask (c := .render plan' (w.path "video.mp4")) (g := id) rfl ?_
    rintro _ rfl
    refine ⟨(), rfl, completes_pure ⟨paths, plan', ⟨List.mem_cons_self, hlength, ?_⟩, ?_⟩⟩
    · change rendered (u ++ [⟨.render plan' _, .ok ()⟩]) = [plan']
      rw [rendered_append, hu]
      rfl
    · rw [← hlength]
      exact RenderPlan.showsAll_iff ho hplan hfitted
  apply bind_ofMedia hslideshow
  dsimp only
  split
  · rename_i target _ htarget
    refine (completes_withTrack w target hplan).bind ?_
    rintro u plan' ⟨hu, hfitted⟩
    exact hrender u plan' hu hfitted
  · exact hrender [] plan rfl (.inl rfl)

theorem completes_renderWhole (w : Workplace) (job : JobId) (ho : o.validate = .ok ())
    (hurls : urls ≠ []) (frame : ℕ × ℕ) :
    (renderWhole w job urls (o.sized frame)).Completes
      fun t _ => ShowsUnlessContinued w urls o t := by
  refine (completes_renderSlides w ho hurls frame).bind ?_
  rintro t output ⟨paths, plan, honce, hshows⟩
  refine bind_ask (c := .upload job Blob.finalSegment output) (g := id) rfl ?_
  rintro _ ⟨url, rfl⟩
  refine ⟨url, rfl, of_ask (c := .store (.setStatus job .processed (some url))) (f := id) rfl ?_⟩
  rintro _ ⟨reply, rfl⟩
  exact ⟨(), rfl, paths, plan, honce.append_right rfl, hshows⟩

end Worker

/-! ## Requests -/

namespace VideoRequest

open Worker

variable {request : VideoRequest Rat} {limits : WorkerLimits} {w : Workplace} {r : JobRecord}
  {valid : List String}

/-- A delivery of the request that finds the record `r` and the valid addresses, and to which all
later calls succeed. -/
structure Delivered (request : VideoRequest Rat) (limits : WorkerLimits) (w : Workplace)
    (r : JobRecord) (valid : List String) (t : List (WorkerExchange Rat))
    (result : Except WorkerError Unit) : Prop where
  leads : (handle limits w (.createVideo request)).Leads
    (loaded request.jobId r :: found request.urls valid :: t) (.done result)
  smooth : Smooth t

/-- The request is valid, its job is open, and what was found is rendered in one pass. -/
structure OnePass (request : VideoRequest Rat) (limits : WorkerLimits) (r : JobRecord)
    (valid : List String) : Prop where
  accepted : request.validate limits.maxSlides = .ok ()
  isOpen : r.status.isTerminal = false
  nonempty : valid ≠ []
  whole : request.options.batchMode = false ∨ valid.length ≤ limits.batchSize

namespace OnePass

/-- What is left to do once the valid addresses are found. -/
theorem exists_leads (h : request.OnePass limits r valid) (w : Workplace) :
    ∃ p, (handle limits w (.createVideo request)).Leads
        [loaded request.jobId r, found request.urls valid] p ∧
      ∀ t result, p.Leads t (.done result) → Smooth t →
        result = .ok () ∧ ShowsUnlessContinued w valid request.options t := by
  obtain ⟨first, rest, rfl⟩ := List.exists_cons_of_ne_nil h.nonempty
  refine ⟨_, (leads_createVideo_found w h.isOpen h.accepted).bind _, ?_⟩
  intro t result hleads ht
  -- `v` belongs to noting a failure, which there is none of.
  obtain ⟨u, v, res, rfl, hu, hv⟩ := hleads.exists_of_bind
  have hsmooth : Smooth u := fun e he => ht e (List.mem_append_left v he)
  have hcompletes : Task.Completes (do
      let options ← fixSize w request.options first
      if !options.batchMode || (first :: rest).length ≤ limits.batchSize then
        renderWhole w request.jobId (first :: rest) options
      else split limits request.jobId (first :: rest) options)
      fun t _ => ShowsUnlessContinued w (first :: rest) request.options t := by
    apply (completes_fixSize w request.options first).bind
    rintro t _ ⟨hquiet, frame, rfl⟩
    have hwhole : (!(request.options.sized frame).batchMode ||
        decide ((first :: rest).length ≤ limits.batchSize)) = true := by
      simpa [SceneOptions.batchMode_sized] using h.whole
    rw [if_pos hwhole]
    apply (completes_renderWhole w request.jobId (options_of_validate h.accepted) h.nonempty
      frame).mono
    rintro v _ ⟨paths, plan, honce, hshows⟩
    exact ⟨paths, plan, honce.append_left hquiet, hshows⟩
  obtain ⟨_, rfl, hshows⟩ := hcompletes u res hu hsmooth
  cases hv
  rw [List.append_nil]
  exact ⟨rfl, hshows⟩

theorem exists_delivered (h : request.OnePass limits r valid) (w : Workplace) :
    ∃ t result, request.Delivered limits w r valid t result := by
  obtain ⟨p, hp, -⟩ := h.exists_leads w
  obtain ⟨t, result, hleads, ht⟩ := exists_smooth p
  exact ⟨t, result, hp.append hleads, ht⟩

theorem of_delivered (h : request.OnePass limits r valid) {t : List (WorkerExchange Rat)}
    {result : Except WorkerError Unit} (hdelivered : request.Delivered limits w r valid t result) :
    result = .ok () ∧ ShowsUnlessContinued w valid request.options t := by
  obtain ⟨p, hp, hshows⟩ := h.exists_leads w
  exact hshows t result (hp.of_append hdelivered.leads) hdelivered.smooth

end OnePass

/-- Two slides, with the mark that the client sends. -/
def twoSlides (mark : BatchContinuation) : VideoRequest Rat where
  jobId := "j"
  urls := ["https://img/0.jpg", "https://img/1.jpg"]
  options := { SceneOptions.standard with batchContinuation := mark }

theorem onePass_twoSlides (mark : BatchContinuation) : (twoSlides mark).OnePass ⟨4, 30⟩
    (.fresh "j" ⟨0, 0⟩) (twoSlides mark).urls where
  accepted := by cases mark <;> decide +kernel
  isOpen := rfl
  nonempty := by simp [twoSlides]
  whole := .inr (show 2 ≤ 4 by decide)

/-- A request that is rendered in one pass has one plan rendered. It shows all slides, unless there
are several and the client sent the mark of a batch that continues another one; then the first slide
adds nothing. -/
theorem shows_unless_continued (h : request.OnePass limits r valid) (w : Workplace) :
    (∃ t result, request.Delivered limits w r valid t result) ∧
    ∀ t result, request.Delivered limits w r valid t result → result = .ok () ∧
      ∃ paths plan, RendersOnce w valid paths plan t ∧
        (plan.ShowsAll paths request.options ↔
          ¬ (request.options.batchContinuation = .continuation ∧ 1 < valid.length)) ∧
        plan.duration = some (request.options.span (request.options.fresh valid.length)) :=
  ⟨h.exists_delivered w, fun _ _ => h.of_delivered⟩

/-- Without a mark both slides are shown. -/
theorem shows_twoSlides :
    (twoSlides .none).OnePass ⟨4, 30⟩ (.fresh "j" ⟨0, 0⟩) (twoSlides .none).urls ∧
    ∃ t paths plan, (twoSlides .none).Delivered ⟨4, 30⟩ ⟨"work", id, []⟩ (.fresh "j" ⟨0, 0⟩)
        (twoSlides .none).urls t (.ok ()) ∧
      RendersOnce ⟨"work", id, []⟩ (twoSlides .none).urls paths plan t ∧
      plan.ShowsAll paths (twoSlides .none).options := by
  have h := onePass_twoSlides .none
  obtain ⟨⟨t, result, hdelivered⟩, hshown⟩ := shows_unless_continued h ⟨"work", id, []⟩
  obtain ⟨rfl, paths, plan, honce, hshows, -⟩ := hshown t result hdelivered
  have hnone : ¬ ((twoSlides .none).options.batchContinuation = .continuation ∧
      1 < (twoSlides .none).urls.length) := by
    rintro ⟨⟨⟩, -⟩
  exact ⟨h, t, paths, plan, hdelivered, honce, hshows.mpr hnone⟩

/-- A client may send the mark, and then a slide is missing. -/
theorem not_all_shown : ¬ ∀ (request : VideoRequest Rat) (limits : WorkerLimits) (r : JobRecord)
    (valid : List String), request.OnePass limits r valid →
    ∀ w t result, request.Delivered limits w r valid t result →
      ∃ paths plan, RendersOnce w valid paths plan t ∧
        plan.ShowsAll paths request.options := by
  intro hall
  have h := onePass_twoSlides .continuation
  obtain ⟨t, result, hdelivered⟩ := h.exists_delivered ⟨"work", id, []⟩
  obtain ⟨paths, plan, honce, hshows⟩ := hall _ _ _ _ h _ t result hdelivered
  obtain ⟨-, paths', plan', honce', -, hduration⟩ := h.of_delivered hdelivered
  have hsame : plan = plan' := List.singleton_inj.mp (honce.rendered.symm.trans honce'.rendered)
  have hspan := hshows.duration
  rw [hsame, hduration, honce.length_eq, Option.some.injEq] at hspan
  have hshorter := SceneOptions.span_lt_span_succ (options_of_validate h.accepted) 1
  exact absurd hspan (ne_of_lt hshorter)

end VideoRequest

end Slideshow
