import Slideshow.Proofs.Render.Plan
import Slideshow.Proofs.Scene.Connected
import Slideshow.Proofs.Scene.Duration

/-! # Plans that show every slide

A plan shows all slides unless its scene repeats one that was shown before. A track changes neither
what is seen nor for how long. -/

namespace Slideshow

open Slideshow.Graph

/-- The operations that fit a track give what was never given. -/
theorem AudioFit.givenOnce {sources : List Label} {held : List (Label × Picture)} {g g' : Graph}
    {input : Label} {count : ℕ} {fade : String} (h : Holds sources held g)
    (hops : g'.ops = g.ops ++ operations g.stages input count fade) : GivenOnce g'.ops :=
  hops ▸ h.givenOnce.append givenOnce_operations
    fun l hl hmade => new_of_mem (.inr (h.numbered l hmade)) hl rfl

/-- A picture is made of the same inputs when a track is fitted. -/
theorem AudioFit.mem_traceInputs_iff {sources : List Label} {held : List (Label × Picture)}
    {g g' : Graph} {input : Label} {count : ℕ} {fade : String} (h : Holds sources held g)
    (hops : g'.ops = g.ops ++ operations g.stages input count fade) {video l : Label}
    (hvideo : g.Numbered video) : l ∈ g'.traceInputs video ↔ l ∈ g.traceInputs video := by
  rw [mem_traceInputs (givenOnce h hops), mem_traceInputs h.givenOnce, hops]
  refine and_congr_right fun _ =>
    ⟨fun hflows => hflows.of_append fun l hl => ⟨?_, fun htaken => ?_⟩, FlowsInto.append⟩
  · exact (new_of_mem (.inr hvideo) hl).symm
  · exact new_of_mem (h.taken htaken) hl rfl

/-- How many of a number of slides are new, and not shown before. -/
def SceneOptions.fresh (o : SceneOptions Rat) (n : ℕ) : ℕ :=
  if o.batchContinuation = .continuation ∧ 1 < n then n - 1 else n

namespace RenderPlan

variable {s : SceneSpec Rat} {slides : List Slide} {plan plan' : RenderPlan Rat}

/-- The inputs of the plan are these files in order, and at most one track. All of the files are
seen, each for as long as the options ask for. -/
structure ShowsAll (plan : RenderPlan Rat) (paths : List String) (o : SceneOptions Rat) :
    Prop where
  inputs : ∃ tracks : List String, tracks.length ≤ 1 ∧ plan.inputs =
    (paths.map fun path => .still path framesPerSecond o.sceneDuration) ++
      tracks.map CommandInput.file
  traced : ∀ k < paths.length, .video k ∈ plan.graph.traceInputs plan.video
  duration : plan.duration = some (o.span paths.length)

/-! ## Repeated slides -/

theorem continuation_ofOptions (o : SceneOptions Rat) (size : ℕ × ℕ) (words : Words) :
    (SceneSpec.ofOptions o size words).continuation = true ↔
      o.batchContinuation = .continuation := by
  change o.batchContinuation.isContinuation = true ↔ _
  cases o.batchContinuation <;> simp [BatchContinuation.isContinuation]

/-- A repeated slide is left out, or its body is. -/
theorem added_neededSlides (slides : List Slide) (o : SceneOptions Rat) (size : ℕ × ℕ)
    (words : Words) : (SceneSpec.ofOptions o size words).added
      (neededSlides slides (.ofOptions o size words)).length = o.fresh slides.length := by
  unfold SceneSpec.added neededSlides SceneOptions.fresh SceneSpec.usesOverlapSlide SceneSpec.Skips
  have hrepeats := continuation_ofOptions o size words
  generalize SceneSpec.ofOptions o size words = s at hrepeats ⊢
  by_cases hcontinuation : s.continuation = true
  · have hrepeated := hrepeats.mp hcontinuation
    by_cases hseveral : 1 < slides.length
    · cases s.kind.overlaps <;> simp [hcontinuation, hrepeated, hseveral]
    · simp [hcontinuation, hseveral]
  · have hnew := mt hrepeats.mpr hcontinuation
    simp [hcontinuation, hnew]

/-- No slide is left out where none is repeated. -/
theorem neededSlides_eq (h : ¬ (s.continuation = true ∧ 1 < slides.length)) :
    neededSlides slides s = slides := by
  unfold neededSlides SceneSpec.usesOverlapSlide
  apply if_neg
  simp only [Bool.not_or, Bool.not_not, Bool.and_eq_true, decide_eq_true_eq, not_and] at h ⊢
  exact fun hdropped => h hdropped.1

/-! ## Tracks -/

/-- A plan is left as it is, or given a track. -/
def Fitted (plan plan' : RenderPlan Rat) : Prop :=
  plan' = plan ∨ ∃ track native fit, plan.withAudio track native = .ok (plan', fit)

/-- A track is one more input, and leaves alone what is seen. -/
theorem Fitted.of_slideshow (h : slideshow slides s = .ok plan) (hfitted : plan.Fitted plan') :
    (∃ tracks : List String, tracks.length ≤ 1 ∧
      plan'.inputs = plan.inputs ++ tracks.map CommandInput.file) ∧
    (∀ l, l ∈ plan'.graph.traceInputs plan'.video ↔ l ∈ plan.graph.traceInputs plan.video) ∧
    plan'.duration = plan.duration := by
  rcases hfitted with rfl | ⟨track, native, fit, haudio⟩
  · exact ⟨⟨[], by simp, by simp⟩, fun _ => Iff.rfl, rfl⟩
  · obtain ⟨_, graph, fit', fade, hgraph, hops⟩ := withAudio_of_slideshow h track native
    cases haudio.symm.trans hgraph
    refine ⟨⟨[track], by simp, rfl⟩, fun l => ?_, rfl⟩
    obtain ⟨scene, hscene, rfl⟩ := RenderPlan.of_slideshow h
    have hholds := Scene.holds_of_assemble hscene
    have hvideo := hholds.numbered _ (hholds.made_of_shows List.mem_cons_self)
    exact AudioFit.mem_traceInputs_iff hholds hops hvideo

/-! ## All slides -/

variable {o : SceneOptions Rat} {paths : List String} {size : ℕ × ℕ} {words : Words}

/-- A plan lasts as long as its new slides. -/
theorem duration_of_slideshow (ho : o.validate = .ok ())
    (h : slideshow slides (.ofOptions o size words) = .ok plan) :
    plan.duration = some (o.span (o.fresh slides.length)) := by
  obtain ⟨scene, hscene, rfl⟩ := of_slideshow h
  rw [Scene.duration_eq_span (SceneOptions.transitionDuration_nonneg ho) hscene,
    added_neededSlides, SceneOptions.span_ofOptions]

/-- All slides are shown unless the first of several is said to be repeated. -/
theorem showsAll_iff (ho : o.validate = .ok ())
    (h : slideshow (paths.map (⟨·, .still⟩)) (.ofOptions o size words) = .ok plan)
    (hfitted : plan.Fitted plan') :
    (plan'.ShowsAll paths o ↔ ¬ (o.batchContinuation = .continuation ∧ 1 < paths.length)) ∧
      plan'.duration = some (o.span (o.fresh paths.length)) := by
  obtain ⟨⟨tracks, htracks, hinputs⟩, htraced, hduration⟩ := hfitted.of_slideshow h
  rw [duration_of_slideshow ho h, List.length_map] at hduration
  refine ⟨⟨?_, ?_⟩, hduration⟩
  · intro hshows hrepeats
    have hspan := hshows.duration
    rw [hduration, SceneOptions.fresh, if_pos hrepeats, Option.some.injEq] at hspan
    have hshorter := SceneOptions.span_lt_span_succ ho (paths.length - 1)
    rw [Nat.sub_add_cancel (by omega), hspan] at hshorter
    exact lt_irrefl _ hshorter
  · intro hwhole
    rw [SceneOptions.fresh, if_neg hwhole] at hduration
    rw [← continuation_ofOptions o size words] at hwhole
    have hneeded : neededSlides (paths.map (⟨·, .still⟩)) (.ofOptions o size words) =
        paths.map (⟨·, .still⟩) := neededSlides_eq (by simpa using hwhole)
    obtain ⟨scene, hscene, rfl⟩ := of_slideshow h
    rw [hneeded] at hscene hinputs
    refine ⟨⟨tracks, htracks, ?_⟩, ?_, hduration⟩
    · rw [hinputs, List.map_map]
      rfl
    · intro k hk
      rw [htraced, (Scene.holds_of_assemble hscene).connected.traced]
      exact ⟨k, by simpa using hk, rfl⟩

end RenderPlan

end Slideshow
