import Slideshow.Proofs.Render.Plan
import Slideshow.Proofs.Scene.Duration
import Slideshow.Proofs.Scene.Frame
import Slideshow.Proofs.Worker.Request

/-! # One frame for all batches

When a request is split, a side of the frame that was not asked for is computed from the first
slide; the workers that render the batches compute the frame again, from the options alone. All of
them arrive at the size that the request has with the first slide, so that the parts can be
joined. -/

namespace Slideshow

open WorkerExchange

/-- These options have one size, whatever the source: stating the size changes nothing. -/
structure SceneOptions.Pinned (o : SceneOptions ℚ) (size : ℕ × ℕ) : Prop where
  resolves : ∀ source, o.resolveSize source = size
  stated : ∀ source,
    SceneOptions.resolveSize { o with width := some size.1, height := some size.2 } source = size

/-- The frame of the source was found to be this one, if it was asked for. -/
def Sourced (t : List (WorkerExchange ℚ)) (source : ℕ × ℕ) : Prop :=
  ∀ path frame, (⟨.frameSize path, .ok frame⟩ : WorkerExchange ℚ) ∈ t → frame = source

namespace BatchJob

/-- However a batch is rendered, its scene is given this frame, and all that is joined in its plan
has it. -/
structure RenderedIn (b : BatchJob ℚ) (size : ℕ × ℕ) : Prop where
  pinned : b.options.Pinned size
  plan : ∀ paths words, Worker.slideshowPlan paths b.options words =
    RenderPlan.slideshow (paths.map (⟨·, .still⟩)) (SceneSpec.ofOptions b.options size words)
  framed : ∀ paths words, paths ≠ [] → ∃ plan ps,
    Worker.slideshowPlan paths b.options words = .ok plan ∧
      plan.graph.EndsJoined plan.video ps ∧ ps ≠ [] ∧ ∀ p ∈ ps, p.Framed ℚ size

end BatchJob

namespace SceneOptions

variable {o : SceneOptions ℚ} {size : ℕ × ℕ}

theorem pinned_of_resolves (h : ∀ source, o.resolveSize source = size) : o.Pinned size := by
  obtain ⟨hwidth, hheight⟩ := h none ▸ o.valid_resolveSize none
  exact ⟨h, resolveSize_of_eq_some rfl rfl hwidth hheight⟩

/-- Options whose frame was fixed have the size that they had with the source. -/
theorem pinned_sized (o : SceneOptions ℚ) (source : ℕ × ℕ) :
    (o.sized source).Pinned (o.resolveSize (some source)) := by
  refine pinned_of_resolves fun any => ?_
  unfold sized
  split
  · obtain ⟨hwidth, hheight⟩ := o.valid_resolveSize (some source)
    exact resolveSize_of_eq_some rfl rfl hwidth hheight any
  · rename_i hneeds
    exact resolveSize_of_not_needsSourceSize (by simpa using hneeds) any (some source)

theorem timed_sized {α : Type} [Scalar α] {o : SceneOptions α} (h : o.Timed) (source : ℕ × ℕ) :
    (o.sized source).Timed := by
  unfold sized
  split
  · exact ⟨h.long, h.roomy⟩
  · exact h

end SceneOptions

namespace Worker

/-- What is joined in the plan of slides has the frame of the options. -/
theorem exists_framed_slideshowPlan {o : SceneOptions ℚ} {size : ℕ × ℕ} (ho : o.Timed)
    (hT : 0 ≤ o.transitionDuration) (hsize : o.resolveSize none = size) {paths : List String}
    (hpaths : paths ≠ []) (words : Words) : ∃ plan ps,
      slideshowPlan paths o words = .ok plan ∧ plan.graph.EndsJoined plan.video ps ∧ ps ≠ [] ∧
        ∀ p ∈ ps, p.Framed ℚ size := by
  obtain ⟨plan, hplan⟩ := exists_slideshowPlan ho (Rat.mul_comm 2) hpaths words
  have hslides := hplan
  rw [slideshowPlan, hsize] at hslides
  obtain ⟨scene, hscene, rfl⟩ := RenderPlan.of_slideshow hslides
  have hn := (Scene.run_of_assemble hscene).1
  refine ⟨_, _, hplan, Scene.endsJoined_timeline hT SceneSpec.exists_pick_zoom hscene, ?_, ?_⟩
  · exact SceneSpec.timeline_ne_nil _ hn _ _
  · exact fun p hp => SceneSpec.framed_of_mem_timeline _ hp

/-- The batches of pinned options are rendered in the size to which they are pinned. -/
theorem renderedIn_of_mem_planBatches {o : SceneOptions ℚ} {size : ℕ × ℕ} (ho : o.Timed)
    (hT : 0 ≤ o.transitionDuration) (hpinned : o.Pinned size) {id : JobId} {urls : List String}
    {n : ℕ} {b : BatchJob ℚ} (hb : b ∈ planBatches id urls o n) : b.RenderedIn size := by
  obtain ⟨-, c, hoptions⟩ := ofRequest_of_mem_planBatches hb
  have hresolves : ∀ source, b.options.resolveSize source = size := by
    rw [hoptions]
    exact hpinned.resolves
  refine ⟨SceneOptions.pinned_of_resolves hresolves, fun paths words => ?_,
    fun paths words hpaths => ?_⟩
  · rw [slideshowPlan, hresolves none]
  · refine exists_framed_slideshowPlan ?_ ?_ (hresolves none) hpaths words
    · rw [hoptions]
      exact ⟨ho.long, ho.roomy⟩
    · rw [hoptions]
      exact hT

/-- When the frame is fixed, it is that of the options with the source that was found. -/
theorem eq_sized_of_leads_fixSize {w : Workplace} {o pinned : SceneOptions ℚ} {firstUrl : String}
    {t : List (WorkerExchange ℚ)} {source : ℕ × ℕ}
    (h : (fixSize w o firstUrl).run.Leads t (.done (.ok pinned))) (hsource : Sourced t source) :
    pinned = o.sized source := by
  have hmeets : (fixSize w o firstUrl).run.Meets (fun _ _ => True)
      (fun t result => Sourced t source → ∀ fixed, result = .ok fixed → fixed = o.sized source)
      [] := by
    rw [fixSize, SceneOptions.sized]
    split
    · refine Task.meets_bind_of_ok (by simp) ⟨trivial, fun _ path _ => ?_⟩
      refine Task.meets_bind_of_ok (by simp) ⟨trivial, fun answer frame hanswer => ?_⟩
      subst hanswer
      rintro hsource fixed ⟨⟩
      obtain rfl := hsource path frame (by simp)
      rfl
    · rintro - fixed ⟨⟩
      rfl
  exact hmeets.ends_of_leads h hsource pinned rfl

theorem sourced_sizing (w : Workplace) (o : SceneOptions ℚ) (firstUrl path : String)
    (source : ℕ × ℕ) : Sourced (sizing w o firstUrl path source) source := by
  unfold sizing
  split
  · rintro path frame hmem
    simp only [List.mem_cons, List.not_mem_nil, or_false] at hmem
    obtain hmem | hmem := hmem
    · cases hmem
    · cases hmem
      rfl
  · intro _ _ hmem
    cases hmem

/-- All batches of a job are rendered in the frame that the options of the request have with the
source, and both sides of it are even and at least two: the frame can be fixed with this source, and
whenever it is, the options are pinned to that size, and every batch that is made of them is rendered
in it. -/
theorem renderedIn_of_leads_fixSize {o : SceneOptions ℚ} (ho : o.validate = .ok ())
    (source : ℕ × ℕ) (w : Workplace) (firstUrl : String) :
    ((∃ t pinned, (fixSize w o firstUrl).run.Leads t (.done (.ok pinned)) ∧ Sourced t source) ∧
      ∀ t pinned, (fixSize w o firstUrl).run.Leads t (.done (.ok pinned)) → Sourced t source →
        pinned.Pinned (o.resolveSize (some source)) ∧
        ∀ id urls n, ∀ b ∈ planBatches id urls pinned n,
          b.RenderedIn (o.resolveSize (some source))) ∧
    SceneOptions.Side.Valid (o.resolveSize (some source)).1 ∧
    SceneOptions.Side.Valid (o.resolveSize (some source)).2 := by
  refine ⟨⟨⟨_, _, leads_fixSize w o firstUrl "" source, sourced_sizing w o firstUrl "" source⟩, ?_⟩,
    o.valid_resolveSize (some source)⟩
  intro t pinned hfixed hsource
  obtain rfl := eq_sized_of_leads_fixSize hfixed hsource
  have hpinned := o.pinned_sized source
  refine ⟨hpinned, fun id urls n b hb => renderedIn_of_mem_planBatches ?_ ?_ hpinned hb⟩
  · exact SceneOptions.timed_sized (SceneOptions.timed_of_validate ho) source
  · rw [SceneOptions.transitionDuration_sized]
    exact SceneOptions.transitionDuration_nonneg ho

/-- Slides that are 801 pixels wide. -/
def odd : SceneOptions ℚ := { SceneOptions.standard with width := some 801 }

/-- With a first slide of 1000 by 333 pixels, the width is rounded up and the height down. -/
theorem renderedIn_of_leads_fixSize_odd :
    odd.validate = .ok () ∧ odd.resolveSize (some (1000, 333)) = (802, 266) ∧
      ∀ t pinned, (fixSize ⟨"/tmp", id, []⟩ odd "https://example.com/1.png").run.Leads t
          (.done (.ok pinned)) → Sourced t (1000, 333) →
        ∀ b ∈ planBatches "job" ["https://example.com/1.png", "https://example.com/2.png"] pinned 1,
          b.RenderedIn (802, 266) := by
  have hvalid : odd.validate = .ok () := by decide +kernel
  have hsize : odd.resolveSize (some (1000, 333)) = (802, 266) := by decide +kernel
  refine ⟨hvalid, hsize, fun t pinned hfixed hsource b hb => ?_⟩
  have hbatches := ((renderedIn_of_leads_fixSize hvalid (1000, 333) ⟨"/tmp", id, []⟩
    "https://example.com/1.png").1.2 t pinned hfixed hsource).2
  exact hsize ▸ hbatches "job" _ 1 b hb

end Worker

end Slideshow
