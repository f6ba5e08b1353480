import Slideshow.Proofs.Render.Binding
import Slideshow.Proofs.Scene.Printable
import Slideshow.Proofs.Scene.Duration

/-! # Timings in print

Options are checked as numbers, and the renderer reads what is printed of them. What is accepted can
be used in print exactly if the scene that is asked for can be printed. -/

namespace Slideshow

open Decimal RenderCommand

/-! ## Stills -/

/-- For how long a still is shown is the one time among its options. -/
theorem filter_stills {α : Type} [Scalar α] (paths : List String) (seconds : α) :
    ((paths.map fun path => CommandInput.still path framesPerSecond seconds).flatMap fun input =>
        pairs input.options ++ [("-i", input.path)]).filter (fun setting => setting.1 = "-t") =
      paths.map fun _ => ("-t", Scalar.inputText seconds) := by
  induction paths with
  | nil => rfl
  | cons path paths ih =>
      rw [List.map_cons, List.flatMap_cons, List.filter_append, ih]
      rfl

namespace RenderPlan

section Timing

variable {α : Type} [Scalar α] {plan : RenderPlan α} {paths : List String} {s : SceneSpec α}

/-- What the command of a plan says can be used: all that its graph does, and the times for which it
shows pictures. -/
structure Survives (plan : RenderPlan α) : Prop where
  graph : ∀ op ∈ plan.graph.ops, Reading.Survives op.expression
  stills : ∀ output encoding, ∀ seconds ∈ values (plan.toCommand output encoding).args "-t",
    Positive seconds.toList

theorem values_stills {seconds : α}
    (h : plan.inputs = paths.map fun path => .still path framesPerSecond seconds)
    (output : String) (encoding : EncodingConfig) :
    values (plan.toCommand output encoding).args "-t" =
      paths.map fun _ => Scalar.inputText seconds := by
  have hplain : ∀ input ∈ plan.inputs, input.Plain := by
    rw [h]
    intro input hinput
    obtain ⟨path, -, rfl⟩ := List.mem_map.mp hinput
    exact Slide.plain_input ⟨path, .still⟩ seconds
  rw [args_toCommand hplain, values, List.drop_one, List.tail_cons, pairs_flat, settings, h]
  simp only [mapped, List.filter_append, filter_stills]
  cases plan.audio <;> cases plan.copyVideo <;> simp

omit [Scalar α] in
theorem neededSlides_stills (paths : List String) (s : SceneSpec α) :
    ∃ shown : List String, neededSlides (paths.map (⟨·, .still⟩)) s = shown.map (⟨·, .still⟩) ∧
      (paths ≠ [] → shown ≠ []) ∧ (s.kind.overlaps = true → shown = paths) := by
  unfold neededSlides SceneSpec.usesOverlapSlide
  split
  · rename_i hdropped
    simp only [Bool.and_eq_true, Bool.not_or, Bool.not_not, decide_eq_true_eq, List.length_map,
      Bool.not_eq_true'] at hdropped
    refine ⟨paths.drop 1, (List.map_drop).symm, fun _ => ?_, fun hoverlaps => ?_⟩
    · exact List.ne_nil_of_length_pos (by rw [List.length_drop]; omega)
    · rw [hdropped.1.2] at hoverlaps
      cases hoverlaps
  · exact ⟨paths, rfl, id, fun _ => rfl⟩

/-- How many slides there are matters where they overlap. -/
theorem printable_of_cut {n n' : ℕ} (hcut : s.kind.overlaps = false) (h : s.Printable n) :
    s.Printable n' where
  still := h.still
  slide := h.slide
  zoom := h.zoom
  fade := h.fade
  wipe := fun hoverlaps => by simp [hcut] at hoverlaps
  body := fun hoverlaps => by simp [hcut] at hoverlaps

/-- Stills can be shown, and what is said of them can be used if their scene can be printed. -/
theorem survives_iff_printable (hplain : ∀ x : α, Reading.Plain (Scalar.filterText x).toList)
    (hdouble : ∀ x : α, Scalar.ofNat 2 * x = x * Scalar.ofNat 2) {o : SceneOptions α} (ho : o.Timed)
    (hpaths : paths ≠ []) (size : ℕ × ℕ) (words : Words) :
    ∃ plan, slideshow (paths.map (⟨·, .still⟩)) (.ofOptions o size words) = .ok plan ∧
      (plan.Survives ↔ (SceneSpec.ofOptions o size words).Printable paths.length) := by
  have hslides : paths.map (fun path => (⟨path, .still⟩ : Slide)) ≠ [] := by simpa using hpaths
  obtain ⟨plan, hplan⟩ := exists_slideshow ho hdouble hslides size words
  obtain ⟨scene, hscene, rfl⟩ := of_slideshow hplan
  obtain ⟨shown, hneeded, hshown, hwhole⟩ :=
    neededSlides_stills paths (SceneSpec.ofOptions o size words)
  rw [hneeded, List.length_map] at hscene
  refine ⟨_, hplan, ?_⟩
  set s := SceneSpec.ofOptions o size words with hs
  have hlength : s.Printable paths.length ↔ s.Printable shown.length := by
    by_cases hoverlaps : s.kind.overlaps = true
    · rw [hwhole hoverlaps]
    · have hcut : s.kind.overlaps = false := by simpa using hoverlaps
      exact ⟨printable_of_cut hcut, printable_of_cut hcut⟩
  rw [hlength, Scene.printable_iff hplain (List.length_pos_iff.mpr (hshown hpaths))
    (fun _ => ho.long) SceneSpec.exists_pick_zoom]
  have hgraph : (∀ op ∈ scene.graph.ops, Reading.Survives op.expression) ↔
      ∀ p ∈ Scene.timeline s shown.length, p.Survives :=
    ((Scene.holds_of_assemble hscene).forall_expression_iff Reading.survives_split).trans
      Picture.survives_joined
  rw [← hgraph]
  have hinputs : (neededSlides (paths.map (⟨·, .still⟩)) s).map
      (fun slide => slide.input s.sceneDuration) =
      shown.map fun path => CommandInput.still path framesPerSecond s.sceneDuration := by
    rw [hneeded, List.map_map]
    rfl
  constructor
  · intro h
    obtain ⟨path, hpath⟩ := List.exists_mem_of_ne_nil shown (hshown hpaths)
    refine ⟨h.stills "" {} _ ?_, h.graph⟩
    rw [values_stills hinputs]
    exact List.mem_map_of_mem hpath
  · rintro ⟨hstill, hops⟩
    refine ⟨hops, fun output encoding seconds hseconds => ?_⟩
    rw [values_stills hinputs] at hseconds
    obtain ⟨_, -, rfl⟩ := List.mem_map.mp hseconds
    exact hstill

end Timing

/-- Exact times that are accepted, and the room that is left for transitions. -/
theorem resolved_iff_printable {o : SceneOptions ℚ} (ho : o.validate = .ok ()) (size : ℕ × ℕ)
    (words : Words) (n : ℕ) : (SceneSpec.ofOptions o size words).Printable n ↔
      (SceneSpec.ofOptions o size words).Resolved n := by
  have hroom : (SceneSpec.ofOptions o size words).kind.overlaps = true →
      2 * o.transitionDuration < o.sceneDuration := by
    intro hoverlaps
    have hless := (SceneOptions.accepted_of_validate ho).roomy
      (SceneKind.overlaps_of_ofOptions hoverlaps)
    have hlt : o.transitionDuration * 2 < o.sceneDuration := not_le.mp (of_decide_eq_false hless)
    linarith
  have hzoom : 1 ≤ (PanZoom.standardMaxZoom : ℚ) := by
    change (1 : ℚ) ≤ (3 : ℕ) / (2 : ℕ)
    norm_num
  exact SceneSpec.printable_iff_resolved (SceneOptions.transitionDuration_nonneg ho)
    (SceneOptions.shorter_of_validate ho) hroom hzoom

/-- What is accepted can be used in print exactly if the scene can be printed, as the times are
computed with doubles; and for exact times, if they are long enough and far enough apart. -/
theorem accepted_survives_iff {paths : List String} (hpaths : paths ≠ []) (size : ℕ × ℕ)
    (words : Words) :
    (∀ o : SceneOptions Float, o.validate = .ok () →
      ∃ plan, slideshow (paths.map (⟨·, .still⟩)) (.ofOptions o size words) = .ok plan ∧
        (plan.Survives ↔ (SceneSpec.ofOptions o size words).Printable paths.length)) ∧
    ∀ o : SceneOptions ℚ, o.validate = .ok () →
      ∃ plan, slideshow (paths.map (⟨·, .still⟩)) (.ofOptions o size words) = .ok plan ∧
        (plan.Survives ↔ (SceneSpec.ofOptions o size words).Resolved paths.length) := by
  constructor
  · intro o ho
    exact survives_iff_printable Reading.plain_floatFilterText
      (fun x => Scalar.float_mul_comm _ x) (SceneOptions.timed_of_validate ho) hpaths size words
  · intro o ho
    rw [← resolved_iff_printable ho]
    exact survives_iff_printable Reading.plain_filterText (fun x => Rat.mul_comm 2 x)
      (SceneOptions.timed_of_validate ho) hpaths size words

/-- Slides of five seconds: cut, and moving over one another for half a second. -/
theorem accepted_survives_fiveSeconds :
    (∃ plan, slideshow (["a.png", "b.png", "c.png"].map (⟨·, .still⟩))
        (.ofOptions (.standard : SceneOptions Float) (1280, 720) [7]) = .ok plan ∧
      plan.Survives) ∧
    ∃ plan, slideshow (["a.png", "b.png", "c.png"].map (⟨·, .still⟩))
        (.ofOptions overlapping (1280, 720) [7]) = .ok plan ∧ plan.Survives := by
  have hpaths : ["a.png", "b.png", "c.png"] ≠ [] := by decide
  obtain ⟨hdoubles, hexact⟩ := accepted_survives_iff hpaths (1280, 720) [7]
  constructor
  · obtain ⟨plan, hplan, hiff⟩ := hdoubles .standard (by decide +kernel)
    exact ⟨plan, hplan, hiff.mpr (SceneSpec.printable_of_plain (by decide +kernel)
      (by decide +kernel) (by decide +kernel))⟩
  · obtain ⟨plan, hplan, hiff⟩ := hexact overlapping overlapping_valid
    have hkind : (SceneSpec.ofOptions overlapping (1280, 720) [7]).kind = .slideWipePanZoom := by
      decide +kernel
    refine ⟨plan, hplan, hiff.mpr ⟨by decide +kernel, fun zooms hfade => ?_,
      fun _ _ => by decide +kernel, fun _ _ => by decide +kernel, fun _ _ => by decide +kernel⟩⟩
    rw [hkind] at hfade
    cases hfade

/-- A time that is too long for its millionths to be counted with doubles. -/
def overlong : SceneOptions Float :=
  { (.standard : SceneOptions Float) with sceneDuration := 1e303 }

/-- A time that is less than half a millisecond. -/
def fleeting : SceneOptions Float :=
  { (.standard : SceneOptions Float) with sceneDuration := 1e-4, transitionDuration := 0 }

/-- Both are accepted, and one is printed as infinite and the other as no time at all. -/
theorem not_survives_extremes :
    (overlong.validate = .ok () ∧ Scalar.filterText overlong.sceneDuration = "inf" ∧
      ∃ plan, slideshow (["a.png"].map (⟨·, .still⟩)) (.ofOptions overlong (1000, 1000) []) =
        .ok plan ∧ ¬ plan.Survives) ∧
    fleeting.validate = .ok () ∧ Scalar.inputText fleeting.sceneDuration = "0.000" ∧
      ∃ plan, slideshow (["a.png"].map (⟨·, .still⟩)) (.ofOptions fleeting (1000, 1000) []) =
        .ok plan ∧ ¬ plan.Survives := by
  have hplan : ∀ o : SceneOptions Float, o.validate = .ok () → _ := fun o ho =>
    survives_iff_printable Reading.plain_floatFilterText (fun x => Scalar.float_mul_comm _ x)
      (SceneOptions.timed_of_validate ho) (show ["a.png"] ≠ [] by decide) (1000, 1000) []
  have hoverlong : overlong.validate = .ok () := by decide +kernel
  have hfleeting : fleeting.validate = .ok () := by decide +kernel
  obtain ⟨long, hlong, hiff⟩ := hplan overlong hoverlong
  obtain ⟨brief, hbrief, hiff'⟩ := hplan fleeting hfleeting
  have hinfinite : ¬ Scalar.Lasts overlong.sceneDuration := by decide +kernel
  have hnothing : ¬ Positive (Scalar.inputText fleeting.sceneDuration).toList := by decide +kernel
  refine ⟨⟨hoverlong, by decide +kernel, long, hlong, fun h => hinfinite (hiff.mp h).slide⟩,
    hfleeting, by decide +kernel, brief, hbrief, fun h => hnothing (hiff'.mp h).still⟩

end RenderPlan

end Slideshow
