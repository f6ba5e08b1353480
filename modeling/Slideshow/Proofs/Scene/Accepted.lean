import Slideshow.Options.Basic
import Slideshow.Proofs.Program.Result

/-! # Options that are accepted

What is checked of options, as facts about them. -/

namespace Slideshow

namespace SceneOptions

variable {α : Type} [Scalar α] {o : SceneOptions α}

/-- Options with which nothing is wrong. -/
structure Accepted (o : SceneOptions α) : Prop where
  finite_scene : Scalar.isFinite o.sceneDuration = true
  positive : Scalar.less (Scalar.ofNat 0) o.sceneDuration = true
  finite_transition : Scalar.isFinite o.transitionDuration = true
  nonneg : Scalar.atMost (Scalar.ofNat 0) o.transitionDuration = true
  shorter : Scalar.atMost o.sceneDuration o.transitionDuration = false
  /-- Where slides overlap there is room for two transitions. -/
  roomy : o.transition.overlaps = true →
    Scalar.atMost o.sceneDuration (o.transitionDuration * Scalar.ofNat 2) = false
  width : checkSide .width o.width = .ok ()
  height : checkSide .height o.height = .ok ()

theorem accepted_of_validate (h : o.validate = .ok ()) : o.Accepted := by
  unfold validate at h
  dsimp only at h
  split at h
  · cases h
  · split at h
    · cases h
    · split at h
      · cases h
      · split at h
        · cases h
        · rename_i hscene htransition hshorter hroom
          simp only [Bool.not_eq_true, Bool.not_eq_false', Bool.and_eq_true] at hscene htransition
          obtain ⟨_, hwidth, hheight⟩ := ok_of_bind h
          exact ⟨hscene.1, hscene.2, htransition.1, htransition.2, by simpa using hshorter,
            fun hoverlaps => by simpa [hoverlaps] using hroom, hwidth, hheight⟩

/-- A side that is asked for is within bounds. -/
theorem bounds_of_checkSide {side : Side} {n : ℕ} (h : checkSide side (some n) = .ok ()) :
    minDimension ≤ n ∧ n ≤ maxDimension := by
  rw [checkSide] at h
  split at h
  · rename_i hbounds
    simpa using hbounds
  · cases h

end SceneOptions

end Slideshow
