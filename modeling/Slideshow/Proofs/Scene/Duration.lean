import Slideshow.Proofs.Scene.Timeline
import Mathlib.Algebra.BigOperators.Ring.Finset
import Mathlib.Tactic.Ring

/-! # How long a scene lasts

Slides that overlap give up one transition each, but for the last one. -/

namespace Slideshow

namespace SceneSpec

variable {s : SceneSpec Rat} {n i : ℕ}

/-- How long a number of new slides last. -/
def span (s : SceneSpec Rat) (k : ℕ) : Rat :=
  if s.kind.overlaps then k * s.sceneDuration - (k - 1) * s.transitionDuration
  else k * s.sceneDuration

/-- How many slides of a scene are new. -/
def added (s : SceneSpec Rat) (n : ℕ) : ℕ :=
  if s.kind.overlaps = true ∧ s.Skips n 0 then n - 1 else n

/-- What the body of a slide adds. -/
def bodySpan (s : SceneSpec Rat) (n i : ℕ) : Rat :=
  if s.Skips n i then 0 else (s.bodyWindow n i).length

theorem length_bodyWindow_first : (s.bodyWindow (n + 2) 0).length =
    s.sceneDuration - s.transitionDuration := by
  have hzero : (Scalar.ofNat 0 : Rat) = 0 := rfl
  simp [Window.length, bodyWindow, hzero]

theorem length_bodyWindow_inner (hi : i < n) : (s.bodyWindow (n + 2) (i + 1)).length =
    s.sceneDuration - 2 * s.transitionDuration := by
  have hlast : i ≠ n := Nat.ne_of_lt hi
  simp [Window.length, bodyWindow, hlast]
  ring

theorem length_bodyWindow_last : (s.bodyWindow (n + 2) (n + 1)).length =
    s.sceneDuration - s.transitionDuration := by
  simp [Window.length, bodyWindow]

theorem not_skips_succ : ¬ s.Skips n (i + 1) := fun h => absurd h.2.1 (Nat.succ_ne_zero i)

theorem foldl_add_eq_sum (f : ℕ → Rat) (n : ℕ) :
    (List.range n).foldl (fun sum i => sum + f i) 0 = ∑ i ∈ Finset.range n, f i := by
  induction n with
  | zero => rfl
  | succ n ih => rw [List.range_succ, List.foldl_append, ih, Finset.sum_range_succ]; rfl

theorem bodiesDuration_eq_sum (hT : 0 ≤ s.transitionDuration)
    (hroom : 2 * s.transitionDuration < s.sceneDuration) :
    Scene.bodiesDuration s n = ∑ i ∈ Finset.range n, s.bodySpan n i := by
  rw [← foldl_add_eq_sum]
  apply List.foldl_ext
  intro sum i hi
  rw [ofSlide_body hT hroom (List.mem_range.mp hi)]
  by_cases hskips : s.Skips n i
  · simp [bodySpan, hskips]
  · simp [bodySpan, hskips]

theorem sum_bodySpan : ∑ i ∈ Finset.range (n + 2), s.bodySpan (n + 2) i =
    s.bodySpan (n + 2) 0 + n * (s.sceneDuration - 2 * s.transitionDuration) +
      (s.sceneDuration - s.transitionDuration) := by
  have hinner : ∀ i ∈ Finset.range n, s.bodySpan (n + 2) (i + 1) =
      s.sceneDuration - 2 * s.transitionDuration := by
    intro i hi
    rw [bodySpan, if_neg not_skips_succ, length_bodyWindow_inner (Finset.mem_range.mp hi)]
  rw [Finset.sum_range_succ, Finset.sum_range_succ', Finset.sum_congr rfl hinner, Finset.sum_const,
    Finset.card_range, nsmul_eq_mul, bodySpan, bodySpan, if_neg not_skips_succ,
    length_bodyWindow_last]
  ring

/-- The new slides give up a transition each, but for the last one. -/
theorem length_eq_span (hn : 0 < n) (hT : 0 ≤ s.transitionDuration)
    (hroom : s.kind.overlaps = true → 2 * s.transitionDuration < s.sceneDuration) :
    Scene.length s n = s.span (s.added n) := by
  unfold Scene.length span added
  by_cases hoverlaps : s.kind.overlaps = true
  · simp only [hoverlaps, if_true, true_and]
    rw [bodiesDuration_eq_sum hT (hroom hoverlaps)]
    cases n with
    | zero => omega
    | succ n =>
        cases n with
        | zero =>
            have hshown : ¬ s.Skips 1 0 := fun h => absurd h.2.2 (by decide)
            have hzero : (Scalar.ofNat 0 : Rat) = 0 := rfl
            simp [bodySpan, hshown, Window.length, bodyWindow, hzero]
        | succ n =>
            have hcount : (Scalar.ofNat (n + 1) : Rat) = n + 1 := by
              change ((n + 1 : ℕ) : Rat) = n + 1
              push_cast
              rfl
            rw [sum_bodySpan, bodySpan, length_bodyWindow_first]
            simp only [Nat.add_sub_cancel, hcount]
            by_cases hskips : s.Skips (n + 2) 0
            · simp only [hskips, if_true]
              push_cast
              ring
            · simp only [hskips, if_false]
              push_cast
              ring
  · simp only [hoverlaps, if_false, false_and, Bool.false_eq_true]
    rfl

theorem long_of_roomy (hT : 0 ≤ s.transitionDuration) (h : Scene.Roomy s)
    (hoverlaps : s.kind.overlaps = true) :
    Scalar.less (Scalar.ofNat 0) s.sceneDuration = true := by
  have hroom := room_of_roomy h hoverlaps
  have hlong : (0 : Rat) < s.sceneDuration := by linarith
  exact decide_eq_true hlong

end SceneSpec

namespace Scene

variable {s : SceneSpec Rat} {n : ℕ} {scene : Scene Rat}

/-- How long a scene of exact numbers lasts. -/
theorem duration_eq_span (hT : 0 ≤ s.transitionDuration) (h : assemble s n = .ok scene) :
    scene.duration = s.span (s.added n) := by
  obtain ⟨hn, hroomy, -⟩ := run_of_assemble h
  rw [duration_of_assemble h (SceneSpec.long_of_roomy hT hroomy)]
  exact SceneSpec.length_eq_span hn hT (SceneSpec.room_of_roomy hroomy)

/-- What a scene joins whose directions can be chosen. -/
theorem endsJoined_timeline (hT : 0 ≤ s.transitionDuration)
    (hzoom : ∀ i, ∃ d, s.zoom.pick i = .ok d) (h : assemble s n = .ok scene) :
    scene.graph.EndsJoined scene.video
      (s.timeline n (s.zoom.drawn .inward) (s.wipe.drawn .leftToRight)) := by
  obtain ⟨hn, hroomy, -⟩ := run_of_assemble h
  obtain ⟨hlast, -⟩ := endsJoined_of_assemble h (SceneSpec.long_of_roomy hT hroomy)
  rwa [timeline_eq hT (SceneSpec.room_of_roomy hroomy) hn] at hlast
  intro i _ _ _
  obtain ⟨d, hd⟩ := hzoom i
  exact Variants.pick_eq_drawn .inward hd

end Scene

namespace SceneOptions

variable {o : SceneOptions Rat}

/-- Durations that are accepted are not negative. -/
theorem transitionDuration_nonneg (h : o.validate = .ok ()) : 0 ≤ o.transitionDuration :=
  of_decide_eq_true (accepted_of_validate h).nonneg

theorem shorter_of_validate (h : o.validate = .ok ()) : o.transitionDuration < o.sceneDuration :=
  not_le.mp (of_decide_eq_false (accepted_of_validate h).shorter)

/-- How long a number of slides last. -/
def span (o : SceneOptions Rat) (n : ℕ) : Rat :=
  if o.transition.overlaps = true ∧ 0 < o.transitionDuration then
    n * o.sceneDuration - (n - 1) * o.transitionDuration
  else n * o.sceneDuration

theorem span_ofOptions (o : SceneOptions Rat) (size : ℕ × ℕ) (words : Words) (n : ℕ) :
    (SceneSpec.ofOptions o size words).span n = o.span n := by
  have hkind : (SceneSpec.ofOptions o size words).kind.overlaps = true ↔
      o.transition.overlaps = true ∧ 0 < o.transitionDuration := by
    change (SceneKind.ofOptions o).overlaps = true ↔ _
    rw [SceneKind.overlaps_ofOptions, Bool.and_eq_true, and_comm]
    exact and_congr_right fun _ => decide_eq_true_iff
  unfold SceneSpec.span span
  simp only [hkind]
  rfl

/-- One slide more makes a video longer. -/
theorem span_lt_span_succ (h : o.validate = .ok ()) (n : ℕ) : o.span n < o.span (n + 1) := by
  have htimed := timed_of_validate h
  have hlong : (0 : Rat) < o.sceneDuration := of_decide_eq_true htimed.long
  have htransition := transitionDuration_nonneg h
  unfold span
  split
  · rename_i hoverlaps
    have hroom : o.transitionDuration * 2 < o.sceneDuration :=
      not_le.mp (of_decide_eq_false (htimed.roomy hoverlaps.1))
    push_cast
    linarith
  · push_cast
    linarith

end SceneOptions

end Slideshow
