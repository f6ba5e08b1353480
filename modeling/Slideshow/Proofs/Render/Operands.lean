import Slideshow.Proofs.Render.Plan
import Slideshow.Proofs.Scene.Duration
import Slideshow.Proofs.Job.Scatter

/-! # What a plan joins

The operands of the last join of a plan, named by the numbers that the slides have in the whole job,
of which the plan may show a part only. -/

namespace Slideshow

/-- What is joined: a slide, the body of a slide, or the next slide moving over a slide. -/
inductive Operand where
  | scene (i : ℕ)
  | body (i : ℕ)
  | wipe (i : ℕ)
deriving DecidableEq

namespace Operand

/-- What a slide adds to those before it. -/
def added (overlaps : Bool) (i : ℕ) : List Operand :=
  if overlaps then
    match i with
    | 0 => [.body 0]
    | i + 1 => [.wipe i, .body (i + 1)]
  else [.scene i]

/-- What the slides from a start up to a stop add. -/
def run (overlaps : Bool) (start stop : ℕ) : List Operand :=
  (List.range' start (stop - start)).flatMap (added overlaps)

theorem bounds_of_body_mem_run {overlaps : Bool} {start stop i : ℕ}
    (h : .body i ∈ run overlaps start stop) : overlaps = true ∧ start ≤ i ∧ i < stop := by
  obtain ⟨j, hj, hi⟩ := List.mem_flatMap.mp h
  have hrange := List.mem_range'_1.mp hj
  cases overlaps with
  | false => simp [added] at hi
  | true =>
      have hij : i = j := by
        cases j with
        | zero => simpa [added] using hi
        | succ j => simpa [added] using hi
      exact ⟨rfl, by omega, by omega⟩

/-- A picture is that of an operand, in a scene of `n` slides of which the first one has the number
`first`. -/
inductive Shows (s : SceneSpec Rat) (n first : ℕ) : Operand → Picture → Prop
  | scene (zoom : ZoomDirection) (i : ℕ) :
      Shows s n first (.scene (first + i)) (s.plainSlide zoom i)
  | body (zoom : ZoomDirection) (i : ℕ) : Shows s n first (.body (first + i)) (s.body n zoom i)
  | wipe (direction : WipeDirection) (i : ℕ) :
      Shows s n first (.wipe (first + i)) (s.wiped direction i)

variable {s : SceneSpec Rat} {n first i : ℕ}

theorem run_scenes : run false first (first + n) =
    (List.range n).map fun i => Operand.scene (first + i) := by
  rw [run, Nat.add_sub_cancel_left, List.range'_eq_map_range, List.flatMap_map, List.map_eq_flatMap]
  rfl

theorem run_wipes (first n : ℕ) : run true (first + 1) (first + (n + 1)) =
    (List.range n).flatMap fun i => [Operand.wipe (first + i), .body (first + (i + 1))] := by
  have hcount : first + (n + 1) - (first + 1) = n := by omega
  rw [run, hcount, List.range'_eq_map_range, List.flatMap_map]
  apply List.flatMap_congr
  intro i _
  have hsucc : first + 1 + i = first + i + 1 := by omega
  rw [hsucc]
  rfl

theorem run_bodies : run true 0 (n + 1) =
    .body 0 :: (List.range n).flatMap fun i => [Operand.wipe i, .body (i + 1)] := by
  have hwipes := run_wipes 0 n
  simp only [Nat.zero_add] at hwipes
  rw [← hwipes]
  simp [run, added, List.range'_succ]

theorem forall₂_flatMap {β γ δ : Type} {R : γ → δ → Prop} {f : β → List γ} {g : β → List δ}
    (xs : List β) (h : ∀ x, List.Forall₂ R (f x) (g x)) :
    List.Forall₂ R (xs.flatMap f) (xs.flatMap g) := by
  induction xs with
  | nil => exact .nil
  | cons x xs ih => exact List.rel_append (h x) ih

/-- The timeline of a scene shows what its new slides add. A scene whose slides overlap begins with
a repeated slide or with the first slide of all. -/
theorem forall₂_timeline (first : ℕ) (hn : 0 < n) (zoom : ℕ → ZoomDirection)
    (wipe : ℕ → WipeDirection) (hfirst : s.kind.overlaps = true → ¬ s.Skips n 0 → first = 0) :
    List.Forall₂ (Shows s n first)
      (run s.kind.overlaps (first + (n - s.added n)) (first + n)) (s.timeline n zoom wipe) := by
  cases n with
  | zero => omega
  | succ n =>
      have hpair : ∀ i, List.Forall₂ (Shows s (n + 1) first)
          [.wipe (first + i), .body (first + (i + 1))]
          [s.wiped (wipe i) i, s.body (n + 1) (zoom (i + 1)) (i + 1)] := fun i =>
        .cons (.wipe (wipe i) i) (.cons (.body (zoom (i + 1)) (i + 1)) .nil)
      unfold SceneSpec.timeline SceneSpec.added
      by_cases hoverlaps : s.kind.overlaps = true
      · by_cases hskips : s.Skips (n + 1) 0
        · simp only [hoverlaps, hskips, if_true, and_self, List.nil_append, Nat.add_sub_cancel,
            Nat.add_sub_cancel_left]
          rw [run_wipes]
          exact forall₂_flatMap _ hpair
        · obtain rfl := hfirst hoverlaps hskips
          simp only [hoverlaps, hskips, if_true, if_false, and_false, Nat.sub_self, Nat.zero_add,
            Nat.add_sub_cancel] at hpair ⊢
          rw [run_bodies]
          have hbody : Shows s (n + 1) 0 (.body 0) (s.body (n + 1) (zoom 0) 0) := .body (zoom 0) 0
          exact .cons hbody (forall₂_flatMap _ hpair)
      · simp only [hoverlaps, if_false, false_and, Nat.sub_self, Nat.add_zero, Bool.false_eq_true]
        rw [run_scenes, List.forall₂_map_left_iff, List.forall₂_map_right_iff, List.forall₂_same]
        exact fun i _ => .scene (zoom i) i

theorem exists_body (s : SceneSpec Rat) (n : ℕ) (zoom : ZoomDirection) (i : ℕ) :
    ∃ expression, s.body n zoom i = .made expression [s.slide i] := by
  unfold SceneSpec.body
  split
  · exact ⟨_, rfl⟩
  · exact ⟨_, rfl⟩

theorem slide_inj {i j : ℕ} (h : s.slide i = s.slide j) : i = j := by
  simp only [SceneSpec.slide, Picture.made.injEq, List.cons.injEq, Picture.input.injEq] at h
  exact Label.video_inj h.2.1

/-- A picture belongs to one operand only. -/
theorem Shows.unique {p q : Picture} {x y : Operand} (hx : Shows s n first x p)
    (hy : Shows s n first y q) (hpq : p = q) : x = y := by
  cases hx with
  | scene zoom i =>
      cases hy with
      | scene zoom' j =>
          simp only [SceneSpec.plainSlide, Picture.made.injEq, List.cons.injEq,
            Picture.input.injEq] at hpq
          rw [Label.video_inj hpq.2.1]
      | body zoom' j =>
          obtain ⟨e, he⟩ := exists_body s n zoom' j
          simp [he, SceneSpec.plainSlide, SceneSpec.slide] at hpq
      | wipe direction j => simp [SceneSpec.plainSlide, SceneSpec.wiped] at hpq
  | body zoom i =>
      obtain ⟨e, he⟩ := exists_body s n zoom i
      rw [he] at hpq
      cases hy with
      | scene zoom' j => simp [SceneSpec.plainSlide, SceneSpec.slide] at hpq
      | body zoom' j =>
          obtain ⟨e', he'⟩ := exists_body s n zoom' j
          simp only [he', Picture.made.injEq, List.cons.injEq] at hpq
          rw [slide_inj hpq.2.1]
      | wipe direction j => simp [SceneSpec.wiped] at hpq
  | wipe direction i =>
      cases hy with
      | scene zoom j => simp [SceneSpec.plainSlide, SceneSpec.wiped] at hpq
      | body zoom j =>
          obtain ⟨e, he⟩ := exists_body s n zoom j
          simp [he, SceneSpec.wiped] at hpq
      | wipe direction' j =>
          simp only [SceneSpec.wiped, SceneSpec.stretch, Picture.made.injEq, List.cons.injEq] at hpq
          rw [slide_inj hpq.2.1.2.1]

end Operand

namespace RenderPlan

/-- The plan shows the slides from the number `first` on, and joins these operands. -/
structure Joins (plan : RenderPlan Rat) (s : SceneSpec Rat) (slides : List Slide) (first : ℕ)
    (operands : List Operand) : Prop where
  inputs : plan.inputs = (slice slides (first, first + plan.inputs.length)).map
    fun slide => slide.input s.sceneDuration
  joined : ∃ ps, plan.graph.EndsJoined plan.video ps ∧
    List.Forall₂ (Operand.Shows s plan.inputs.length first) operands ps

/-- What a plan joins can be read off its graph. -/
theorem Joins.unique {plan : RenderPlan Rat} {s : SceneSpec Rat} {slides : List Slide} {first : ℕ}
    {xs ys : List Operand} (hx : plan.Joins s slides first xs) (hy : plan.Joins s slides first ys) :
    xs = ys := by
  obtain ⟨-, _, ⟨streams, hlast, rfl⟩, hxs⟩ := hx
  obtain ⟨-, _, ⟨streams', hlast', rfl⟩, hys⟩ := hy
  have hstreams : streams = streams' := by
    rw [hlast, Option.some.injEq, Operation.mk.injEq] at hlast'
    exact hlast'.1
  have hunique : Relator.LeftUnique (Operand.Shows s plan.inputs.length first) :=
    fun x p y hx hy => hx.unique hy rfl
  exact List.left_unique_forall₂' hunique hxs (hstreams ▸ hys)

theorem length_slice {β : Type} {xs : List β} {start stop : ℕ} (h : stop ≤ xs.length) :
    (slice xs (start, stop)).length = stop - start := by
  simp [slice, h]

/-- How many slides in front of the new ones a plan leaves out. -/
def dropped (s : SceneSpec Rat) : ℕ := if s.usesOverlapSlide then 0 else 1

theorem neededSlides_slice {s : SceneSpec Rat} {slides : List Slide} {start stop : ℕ}
    (hstop : stop ≤ slides.length) (hlong : s.continuation = true → start + 1 < stop) :
    neededSlides (slice slides (start, stop)) s = slice slides (start + dropped s, stop) := by
  unfold neededSlides dropped
  by_cases huses : s.usesOverlapSlide = true
  · simp [huses]
  · have hcontinuation : s.continuation = true := by
      simp only [SceneSpec.usesOverlapSlide, Bool.or_eq_true, not_or] at huses
      simpa using huses.1
    have hlength : 1 < (slice slides (start, stop)).length := by
      rw [length_slice hstop]
      have := hlong hcontinuation
      omega
    have hdrops :
        (!s.usesOverlapSlide && decide (1 < (slice slides (start, stop)).length)) = true := by
      simp [huses, hlength]
    rw [if_pos hdrops, if_neg huses]
    simp only [slice, List.drop_drop]

/-- The number of the first new slide. -/
def newStart (s : SceneSpec Rat) (start : ℕ) : ℕ := if s.continuation then start + 1 else start

theorem newStart_eq {s : SceneSpec Rat} {start stop : ℕ}
    (hlong : s.continuation = true → start + 1 < stop) :
    start + dropped s + (stop - (start + dropped s) - s.added (stop - (start + dropped s))) =
      newStart s start := by
  unfold dropped newStart SceneSpec.added SceneSpec.usesOverlapSlide SceneSpec.Skips
  by_cases hcontinuation : s.continuation = true
  · have hstop := hlong hcontinuation
    have hseveral : 1 < stop - start := by omega
    by_cases hoverlaps : s.kind.overlaps = true
    · simp [hcontinuation, hoverlaps, hseveral]
      omega
    · simp [hcontinuation, hoverlaps]
  · simp [hcontinuation]

/-- A plan of some of the slides joins what the new ones among them add, and lasts as long as
these. -/
theorem joins_of_slideshow {s : SceneSpec Rat} (hT : 0 ≤ s.transitionDuration)
    (hzoom : ∀ i, ∃ d, s.zoom.pick i = .ok d) {slides : List Slide} {start stop : ℕ}
    {plan : RenderPlan Rat} (h : slideshow (slice slides (start, stop)) s = .ok plan)
    (hstop : stop ≤ slides.length) (hlong : s.continuation = true → start + 1 < stop)
    (hfirst : s.continuation = false → start = 0) :
    plan.Joins s slides (start + dropped s)
        (Operand.run s.kind.overlaps (newStart s start) stop) ∧
      start + dropped s + plan.inputs.length = stop ∧
      plan.duration = some (s.span (stop - newStart s start)) := by
  obtain ⟨scene, hscene, rfl⟩ := of_slideshow h
  have hlength : (slice slides (start + dropped s, stop)).length = stop - (start + dropped s) :=
    length_slice hstop
  rw [neededSlides_slice hstop hlong] at hscene ⊢
  rw [hlength] at hscene
  have hnew := newStart_eq hlong
  have hn := (Scene.run_of_assemble hscene).1
  have hadded : s.added (stop - (start + dropped s)) ≤ stop - (start + dropped s) := by
    unfold SceneSpec.added
    split <;> omega
  have hend : start + dropped s + (stop - (start + dropped s)) = stop := by omega
  refine ⟨⟨?_, _, Scene.endsJoined_timeline hT hzoom hscene, ?_⟩, by simpa [hlength] using hend, ?_⟩
  · simp [hlength, hend]
  · have hshown := Operand.forall₂_timeline (start + dropped s) hn (s.zoom.drawn .inward)
      (s.wipe.drawn .leftToRight) (s := s) ?_
    · rw [hnew, hend] at hshown
      simpa [hlength] using hshown
    · intro hoverlaps hskips
      have hcontinuation : s.continuation = false := by
        by_contra hcontinuation
        have hcontinuation : s.continuation = true := by simpa using hcontinuation
        apply hskips
        refine ⟨hcontinuation, rfl, ?_⟩
        have := hlong hcontinuation
        simp only [dropped, SceneSpec.usesOverlapSlide, hoverlaps, Bool.or_true, if_true]
        omega
      simp [dropped, SceneSpec.usesOverlapSlide, hcontinuation, hfirst hcontinuation]
  · have hcount : s.added (stop - (start + dropped s)) = stop - newStart s start := by omega
    rw [Scene.duration_eq_span hT hscene, hcount]

end RenderPlan

end Slideshow
