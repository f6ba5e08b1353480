import Slideshow.Proofs.Scene.Accepted
import Slideshow.Proofs.Scene.Assembly

/-! # When slides can be put together

Only two things can go wrong: there is no room for the transitions, or a direction is to be chosen
and there is none. -/

namespace Slideshow

open Slideshow.Graph

variable {α : Type} [Scalar α]

namespace Scene

variable {s : SceneSpec α} {n i : ℕ}

/-! ## Directions -/

theorem writable_cutSceneParts {d : ZoomDirection} (h : s.zoom.pick i = .ok d) :
    Expression.Writable (cutSceneParts s) i := by
  refine Expression.writable_of_forall fun part hpart => ?_
  have hzoom : (Expression.panZoom s.panZoom).text i = .ok (s.panZoom.text d) :=
    Expression.text_panZoom_eq_ok_iff.mpr ⟨d, h, rfl⟩
  simp only [cutSceneParts, List.mem_append, List.mem_singleton] at hpart
  rcases hpart with (((rfl | hpart) | rfl) | hpart) | rfl
  · exact ⟨_, rfl⟩
  · split at hpart
    · cases List.mem_singleton.mp hpart
      exact ⟨_, hzoom⟩
    · cases hpart
  · exact ⟨_, rfl⟩
  · split at hpart
    · cases List.mem_singleton.mp hpart
      exact ⟨_, rfl⟩
    · cases hpart
  · exact ⟨_, rfl⟩

theorem writable_cutParts {d : ZoomDirection} (h : s.zoom.pick i = .ok d) (w : Window α) :
    Expression.Writable (cutParts w (bodyZoom s)) i := by
  unfold bodyZoom
  split
  · refine Expression.writable_of_forall fun part hpart => ?_
    have hzoom : (Expression.panZoom s.panZoom).text i = .ok (s.panZoom.text d) :=
      Expression.text_panZoom_eq_ok_iff.mpr ⟨d, h, rfl⟩
    simp only [cutParts, List.cons_append, List.nil_append, List.mem_cons, List.not_mem_nil,
      or_false] at hpart
    rcases hpart with rfl | rfl | rfl | rfl | rfl
    · exact ⟨_, rfl⟩
    · exact ⟨_, rfl⟩
    · exact ⟨_, hzoom⟩
    · exact ⟨_, rfl⟩
    · exact ⟨_, rfl⟩
  · exact writable_cutParts_none w i

/-! ## Stretches -/

/-- Every slide among several gives a stretch. -/
theorem count_pos_of_several (hn : 1 < n) (hi : i < n) :
    0 < (SlideWindows.ofSlide s n i).count := by
  by_cases hlead : 0 < i
  · simp only [SlideWindows.count, ofSlide_lead, if_pos hlead, Option.toList_some,
      List.length_singleton]
    omega
  · have htail : i + 1 < n := by omega
    simp [SlideWindows.count, ofSlide_tail, htail]

/-- Every slide gives a stretch. -/
theorem count_pos (hlong : Scalar.less (Scalar.ofNat 0) s.sceneDuration = true) (hi : i < n) :
    0 < (SlideWindows.ofSlide s n i).count := by
  by_cases hseveral : 1 < n
  · exact count_pos_of_several hseveral hi
  · obtain rfl : i = 0 := by omega
    obtain rfl : n = 1 := by omega
    simp [SlideWindows.count, SlideWindows.ofSlide, hlong]

/-! ## The assembly -/

/-- The pictures that are joined into the picture of the scene. -/
def timeline (s : SceneSpec α) (n : ℕ) : List Picture :=
  if s.kind.overlaps then wipeTimeline s n
  else (List.range n).map (slidePicture (cutSceneParts s))

/-- How long the scene lasts. -/
def length (s : SceneSpec α) (n : ℕ) : α :=
  if s.kind.overlaps then bodiesDuration s n + Scalar.ofNat (n - 1) * s.transitionDuration
  else Scalar.ofNat n * s.sceneDuration

/-- Every direction that the scene needs can be chosen. -/
def Drawn (s : SceneSpec α) (n : ℕ) : Prop :=
  if s.kind.overlaps then
    (∀ i < n, ∀ w ∈ (SlideWindows.ofSlide s n i).body,
      Expression.Writable (cutParts w (bodyZoom s)) i) ∧
    ∀ i < n - 1, s.wipe.pick i = .ok (s.wipe.drawn .leftToRight i)
  else ∀ i < n, Expression.Writable (cutSceneParts s) i

/-- There is room for the transitions. -/
def Roomy (s : SceneSpec α) : Prop :=
  s.kind.overlaps = true →
    Scalar.atMost s.sceneDuration (Scalar.ofNat 2 * s.transitionDuration) = false

theorem ends_assembled (hn : 0 < n)
    (hcount : s.kind.overlaps = true → ∀ i < n, 0 < (SlideWindows.ofSlide s n i).count)
    {lacks : Prop} (hzoom : ∀ i e, s.zoom.pick i = .error e → lacks)
    (hwipe : ∀ i e, s.wipe.pick i = .error e → lacks) :
    Build.Ends (if s.kind.overlaps then assembleWipe s n else assembleCut s n) {} lacks
      fun r g => g.EndsJoined r.1 (timeline s n) ∧
        Holds (inputs n) [(r.1, .joined (timeline s n))] g ∧ Drawn s n ∧ r.2 = length s n := by
  unfold timeline Drawn length
  split
  · rename_i hoverlaps
    refine (ends_assembleWipe hn (hcount hoverlaps) (fun i _ w _ h => ?_) fun i _ => hwipe i).mono
      fun r g ⟨hlast, hholds, hwritable, hdrawn, hlength⟩ =>
        ⟨hlast, hholds, ⟨hwritable, hdrawn⟩, hlength⟩
    cases hpick : s.zoom.pick i with
    | ok d => exact (h (writable_cutParts hpick w)).elim
    | error e => exact hzoom i e hpick
  · refine ends_assembleCut hn fun i _ h => ?_
    cases hpick : s.zoom.pick i with
    | ok d => exact (h (writable_cutSceneParts hpick)).elim
    | error e => exact hzoom i e hpick

theorem assemble_eq_ok (hn : 0 < n) (hroom : Roomy s) {video : Label} {duration : α} {graph : Graph}
    (hrun : ExceptT.run (if s.kind.overlaps then assembleWipe s n else assembleCut s n) {} =
      (.ok (video, duration), graph)) : assemble s n = .ok ⟨graph, video, duration⟩ := by
  have hnarrow : (s.kind.overlaps &&
      Scalar.atMost s.sceneDuration (Scalar.ofNat 2 * s.transitionDuration)) = false := by
    simpa [Roomy] using hroom
  simp only [assemble, Nat.ne_of_gt hn, hnarrow, hrun, if_false, Bool.false_eq_true]

theorem run_of_assemble {scene : Scene α} (h : assemble s n = .ok scene) : 0 < n ∧ Roomy s ∧
    ExceptT.run (if s.kind.overlaps then assembleWipe s n else assembleCut s n) {} =
      (.ok (scene.video, scene.duration), scene.graph) := by
  unfold assemble at h
  split at h
  · cases h
  · split at h
    · cases h
    · rename_i hn hnarrow
      refine ⟨by omega, by simpa [Roomy] using hnarrow, ?_⟩
      dsimp only at h
      split at h
      · rename_i video duration graph hrun
        cases h
        exact hrun
      · cases h

/-- Nothing cannot be joined. -/
theorem ends_join_nil (g : Graph) : (join (α := α) []).Ends g True fun _ _ => False := trivial

/-- A slide of no stretches does not make a scene. -/
theorem ends_assembleWipe_lone (hbody : (SlideWindows.ofSlide s 1 0).body = none) :
    (assembleWipe s 1).Ends {} True fun _ _ => False := by
  have hnothing : ∀ scene, cutSlide s 1 0 scene = pure ⟨none, none, none⟩ := by
    intro scene
    rw [cutSlide_eq]
    simp [SlideWindows.count, ofSlide_lead, ofSlide_tail, hbody, cutNext]
  rw [assembleWipe_eq]
  refine (ends_slides Nat.one_pos (wipeSceneParts s) trivial fun _ _ _ => trivial).bind ?_
  rintro _ g ⟨scenes, rfl, -, hscenes, -⟩
  obtain ⟨scene, rfl⟩ : ∃ scene, scenes = [scene] := by
    apply List.length_eq_one_iff.mp
    simpa using congrArg List.length hscenes
  simp only [cutSlides, hnothing, boundaryPairs, interleave, List.map_cons, List.map_nil, pure_bind,
    List.isEmpty_nil, if_true, Option.toList_none, List.nil_append]
  exact (ends_join_nil g).bind fun _ _ h => h.elim

/-- Scenes whose directions can be chosen are put together. -/
theorem exists_assemble (hn : 0 < n) (hroom : Roomy s)
    (hlong : s.kind.overlaps = true → Scalar.less (Scalar.ofNat 0) s.sceneDuration = true)
    (hzoom : ∀ i, ∃ d, s.zoom.pick i = .ok d) (hwipe : ∀ i, ∃ d, s.wipe.pick i = .ok d) :
    ∃ scene, assemble s n = .ok scene ∧
      Holds (inputs n) [(scene.video, .joined (timeline s n))] scene.graph := by
  have hzoom' : ∀ i e, s.zoom.pick i = .error e → False := by
    intro i e he
    obtain ⟨d, hd⟩ := hzoom i
    cases he.symm.trans hd
  have hwipe' : ∀ i e, s.wipe.pick i = .error e → False := by
    intro i e he
    obtain ⟨d, hd⟩ := hwipe i
    cases he.symm.trans hd
  have hends := ends_assembled hn (fun hoverlaps _ => count_pos (hlong hoverlaps)) hzoom' hwipe'
  obtain ⟨⟨video, duration⟩, graph, hrun, -, hholds, -⟩ := hends.exists_run id
  exact ⟨_, assemble_eq_ok hn hroom hrun, hholds⟩

/-- A scene that was put together is what the assembly says, if every slide gives a stretch. -/
theorem assembled_of_assemble {scene : Scene α} (h : assemble s n = .ok scene)
    (hcount : s.kind.overlaps = true → ∀ i < n, 0 < (SlideWindows.ofSlide s n i).count) :
    scene.graph.EndsJoined scene.video (timeline s n) ∧
      Holds (inputs n) [(scene.video, .joined (timeline s n))] scene.graph ∧ Drawn s n ∧
      scene.duration = length s n := by
  obtain ⟨hn, -, hrun⟩ := run_of_assemble h
  exact (ends_assembled hn hcount (fun _ _ _ => trivial) fun _ _ _ => trivial).of_run hrun

/-- The streams of a scene that was put together. -/
theorem holds_of_assemble {scene : Scene α} (h : assemble s n = .ok scene) :
    Holds (inputs n) [(scene.video, .joined (timeline s n))] scene.graph := by
  by_cases hcount : s.kind.overlaps = true → ∀ i < n, 0 < (SlideWindows.ofSlide s n i).count
  · exact (assembled_of_assemble h hcount).2.1
  · obtain ⟨hn, -, hrun⟩ := run_of_assemble h
    push Not at hcount
    obtain ⟨hoverlaps, i, hi, hnone⟩ := hcount
    have hlone : n = 1 := by
      by_contra hne
      have hpos := count_pos_of_several (s := s) (show 1 < n by omega) hi
      omega
    obtain rfl : i = 0 := by omega
    subst hlone
    have hbody : (SlideWindows.ofSlide s 1 0).body = none := by
      simpa [SlideWindows.count, ofSlide_lead, ofSlide_tail] using hnone
    rw [if_pos hoverlaps] at hrun
    exact ((ends_assembleWipe_lone hbody).of_run hrun).elim

/-- What a scene that was put together shows. -/
theorem endsJoined_of_assemble {scene : Scene α} (h : assemble s n = .ok scene)
    (hlong : s.kind.overlaps = true → Scalar.less (Scalar.ofNat 0) s.sceneDuration = true) :
    scene.graph.EndsJoined scene.video (timeline s n) ∧ Drawn s n := by
  obtain ⟨hlast, -, hdrawn, -⟩ :=
    assembled_of_assemble h fun hoverlaps _ => count_pos (hlong hoverlaps)
  exact ⟨hlast, hdrawn⟩

theorem duration_of_assemble {scene : Scene α} (h : assemble s n = .ok scene)
    (hlong : s.kind.overlaps = true → Scalar.less (Scalar.ofNat 0) s.sceneDuration = true) :
    scene.duration = length s n :=
  (assembled_of_assemble h fun hoverlaps _ => count_pos (hlong hoverlaps)).2.2.2

end Scene

/-! ## Scenes that options ask for -/

theorem Variants.exists_pick_alternate {τ : Type} {choices : List τ} (h : choices ≠ []) (i : ℕ) :
    ∃ d, (Variants.alternate choices).pick i = .ok d := by
  have hlt : i % choices.length < choices.length := Nat.mod_lt _ (List.length_pos_iff.mpr h)
  exact ⟨choices[i % choices.length], by simp [Variants.pick, hlt]⟩

theorem Variants.exists_pick_random {τ : Type} (choices : List τ) (words : Words) (other : τ)
    (i : ℕ) :
    ∃ d, ((Variants.random choices words).getD (.fixed other, words)).1.pick i = .ok d := by
  unfold Variants.random
  cases words.pick choices with
  | none => exact ⟨other, rfl⟩
  | some drawn => exact ⟨drawn.1, rfl⟩

namespace SceneSpec

variable {o : SceneOptions α} {size : ℕ × ℕ} {words : Words}

theorem exists_pick_zoom (i : ℕ) : ∃ d, (ofOptions o size words).zoom.pick i = .ok d := by
  change ∃ d, (zoomVariants o.zoomDirection words).1.pick i = .ok d
  cases o.zoomDirection with
  | alternate => exact Variants.exists_pick_alternate (by decide) i
  | random => exact Variants.exists_pick_random _ _ _ i
  | inward => exact ⟨.inward, rfl⟩
  | outward => exact ⟨.outward, rfl⟩

theorem exists_pick_wipe (i : ℕ) : ∃ d, (ofOptions o size words).wipe.pick i = .ok d := by
  change ∃ d, (wipeVariants o.wipeDirection (zoomVariants o.zoomDirection words).2).1.pick i = .ok d
  cases o.wipeDirection with
  | alternate => exact Variants.exists_pick_alternate (by decide) i
  | random => exact Variants.exists_pick_random _ _ _ i
  | leftToRight => exact ⟨.leftToRight, rfl⟩
  | topToBottom => exact ⟨.topToBottom, rfl⟩
  | rightToLeft => exact ⟨.rightToLeft, rfl⟩
  | bottomToTop => exact ⟨.bottomToTop, rfl⟩

end SceneSpec

/-- Transitions that take no time are cuts. -/
theorem SceneKind.overlaps_ofOptions (o : SceneOptions α) :
    (ofOptions o).overlaps =
      (Scalar.less (Scalar.ofNat 0) o.transitionDuration && o.transition.overlaps) := by
  unfold ofOptions
  cases Scalar.less (Scalar.ofNat 0) o.transitionDuration <;> cases o.transition <;>
    by_cases hzooms : o.effect = .panZoom <;> simp [hzooms, overlaps, Transition.overlaps]

/-- Only transitions that overlap make scenes that do. -/
theorem SceneKind.overlaps_of_ofOptions {o : SceneOptions α}
    (h : (SceneKind.ofOptions o).overlaps = true) : o.transition.overlaps = true := by
  rw [overlaps_ofOptions, Bool.and_eq_true] at h
  exact h.2

/-- A scene lasts some time, and where slides overlap there is room for two transitions. -/
structure SceneOptions.Timed (o : SceneOptions α) : Prop where
  long : Scalar.less (Scalar.ofNat 0) o.sceneDuration = true
  roomy : o.transition.overlaps = true →
    Scalar.atMost o.sceneDuration (o.transitionDuration * Scalar.ofNat 2) = false

theorem SceneOptions.timed_of_validate {o : SceneOptions α} (h : o.validate = .ok ()) :
    o.Timed :=
  ⟨(accepted_of_validate h).positive, (accepted_of_validate h).roomy⟩

/-- Such options make a scene of any number of slides. -/
theorem Scene.exists_assemble_ofOptions {o : SceneOptions α} (ho : o.Timed)
    (hdouble : ∀ x : α, Scalar.ofNat 2 * x = x * Scalar.ofNat 2) (size : ℕ × ℕ) (words : Words)
    {n : ℕ} (hn : 0 < n) :
    ∃ scene, Scene.assemble (.ofOptions o size words) n = .ok scene ∧
      Holds (inputs n) [(scene.video, .joined (timeline (.ofOptions o size words) n))]
        scene.graph := by
  refine exists_assemble hn (fun hoverlaps => ?_) (fun _ => ho.long)
    (fun i => SceneSpec.exists_pick_zoom i) fun i => SceneSpec.exists_pick_wipe i
  rw [hdouble]
  exact ho.roomy (SceneKind.overlaps_of_ofOptions hoverlaps)

/-- Slides that are zoomed and move over one another, in a direction that is drawn; the first of
them was shown before. -/
def overlapping : SceneOptions Rat :=
  { SceneOptions.standard with
    effect := .panZoom, transition := .slideWipe, wipeDirection := .random,
    batchContinuation := .continuation }

theorem overlapping_valid : overlapping.validate = .ok () := by decide +kernel

/-! ## Floating-point numbers -/

namespace Scalar

open Float.Model

theorem sign_mul_comm (s s' : UnpackedFloat.Sign) : s * s' = s' * s := by
  cases s <;> cases s' <;> rfl

theorem unpacked_mul_comm (format : Format) (a b : UnpackedFloat) :
    a.mul format b = b.mul format a := by
  cases a with
  | notANumber => cases b <;> rfl
  | infinity s =>
      cases b with
      | notANumber | zero s' => rfl
      | infinity s' | finite s' m' e' _ => exact congrArg _ (sign_mul_comm s s')
  | zero s =>
      cases b with
      | notANumber | infinity s' => rfl
      | zero s' | finite s' m' e' _ => exact congrArg _ (sign_mul_comm s s')
  | finite s m e _ =>
      cases b with
      | notANumber => rfl
      | infinity s' | zero s' => exact congrArg _ (sign_mul_comm s s')
      | finite s' m' e' _ =>
          change UnpackedFloat.roundWithAccuracy format (s * s') (m * m') (e + e') .exact =
            UnpackedFloat.roundWithAccuracy format (s' * s) (m' * m) (e' + e) .exact
          rw [sign_mul_comm, Nat.mul_comm, Int.add_comm]

/-- Rounding does not spoil that factors may be swapped. -/
theorem float_mul_comm (x y : Float) : x * y = y * x :=
  congrArg (fun u => Float.ofModel (pack u)) (unpacked_mul_comm _ x.toModel.unpack y.toModel.unpack)

end Scalar

end Slideshow
