import Slideshow.Proofs.Render.Operands

/-! # A job in batches shows what it shows at once

Every batch adds its own slides to the timeline, and in the order of the batches they are all
slides. Where slides overlap, the last slide of a batch does not know of the one that follows it. -/

namespace Slideshow

/-! ## Consecutive ranges -/

section Ranges

variable {a : ℕ → ℕ}

theorem Operand.flatMap_run (overlaps : Bool) (hzero : a 0 = 0) (hmono : Monotone a) (k : ℕ) :
    (List.range k).flatMap (fun i => Operand.run overlaps (a i) (a (i + 1))) =
      Operand.run overlaps 0 (a k) := by
  induction k with
  | zero => simp [Operand.run, hzero]
  | succ k ih =>
      have hle : a k ≤ a (k + 1) := hmono (Nat.le_succ k)
      have hsplit : List.range' 0 (a (k + 1)) =
          List.range' 0 (a k) ++ List.range' (a k) (a (k + 1) - a k) := by
        have happend := List.range'_append_1 (s := 0) (m := a k) (n := a (k + 1) - a k)
        rw [Nat.zero_add, Nat.add_sub_cancel' hle] at happend
        exact happend.symm
      rw [List.range_succ, List.flatMap_append, ih]
      simp [Operand.run, hsplit]

theorem SceneSpec.sum_span (s : SceneSpec Rat) (hzero : a 0 = 0) (hmono : Monotone a) (k : ℕ) :
    ((List.range k).map fun i => s.span (a (i + 1) - a i)).sum =
      if s.kind.overlaps then a k * s.sceneDuration - (a k - k) * s.transitionDuration
      else a k * s.sceneDuration := by
  induction k with
  | zero => simp [hzero]
  | succ k ih =>
      have hle : a k ≤ a (k + 1) := hmono (Nat.le_succ k)
      rw [List.sum_range_succ, ih, SceneSpec.span, Nat.cast_sub hle]
      split
      · push_cast
        ring
      · ring

end Ranges

/-- The first slide that a batch adds. -/
def batchStart (slides size i : ℕ) : ℕ := min (i * size) slides

section Batches

variable {slides size i : ℕ}

theorem batchStart_zero : batchStart slides size 0 = 0 := by simp [batchStart]

theorem batchStart_mono : Monotone (batchStart slides size) := by
  intro i j hij
  have hle : i * size ≤ j * size := Nat.mul_le_mul_right size hij
  simp only [batchStart]
  omega

/-- Every batch but the first one starts one slide before those that it adds. -/
theorem batchStart_eq (hi : i < batchCount slides size) : batchStart slides size i =
    if 0 < i then (batchRange slides size i).1 + 1 else (batchRange slides size i).1 := by
  obtain ⟨hsize, hslides⟩ := lt_of_lt_batchCount hi
  simp only [batchStart, batchRange]
  split
  · rename_i hpos
    have hmul : 0 < i * size := Nat.mul_pos hpos hsize
    omega
  · obtain rfl : i = 0 := by omega
    simp

theorem batchStart_lt (hi : i < batchCount slides size) :
    batchStart slides size i < (batchRange slides size i).2 := by
  obtain ⟨hsize, hslides⟩ := lt_of_lt_batchCount hi
  have hsucc : (i + 1) * size = i * size + size := Nat.succ_mul i size
  simp only [batchStart, batchRange]
  omega

theorem batchStart_batchCount (hsize : 0 < size) :
    batchStart slides size (batchCount slides size) = slides :=
  min_eq_right (le_batchCount_mul hsize)

end Batches

/-! ## The plans of the batches -/

namespace RenderPlan

/-- A plan of some slides of a job, with what it joins and how long it lasts. -/
structure Part (slides : List Slide) where
  spec : SceneSpec Rat
  plan : RenderPlan Rat
  first : ℕ
  operands : List Operand
  duration : Rat
  joins : plan.Joins spec slides first operands
  lasts : plan.duration = some duration

namespace Part

variable {slides : List Slide}

/-- The plan is made of these slides. -/
structure Renders (p : Part slides) (own : List Slide) (s : SceneSpec Rat) : Prop where
  spec : p.spec = s
  plan : slideshow own s = .ok p.plan

/-- The plan ends with the slides that it adds. Where slides overlap it begins with the one before
them, if there is one. -/
structure Adds (p : Part slides) (start stop : ℕ) : Prop where
  first : p.first = if p.spec.kind.overlaps then start - 1 else start
  ends : p.first + p.plan.inputs.length = stop
  operands : p.operands = Operand.run p.spec.kind.overlaps start stop
  duration : p.duration = p.spec.span (stop - start)

theorem Adds.bodyWindow {p : Part slides} {start stop n k : ℕ} {s : SceneSpec Rat}
    (h : p.Adds start stop) (hbody : .body (p.first + k) ∈ p.operands)
    (hS : p.spec.sceneDuration = s.sceneDuration)
    (hT : p.spec.transitionDuration = s.transitionDuration) :
    p.spec.bodyWindow p.plan.inputs.length k =
      { s.bodyWindow n (p.first + k) with
        stop := if k + 1 = p.plan.inputs.length then s.sceneDuration
          else s.sceneDuration - s.transitionDuration } := by
  rw [h.operands] at hbody
  obtain ⟨hoverlaps, hstart, hlt⟩ := Operand.bounds_of_body_mem_run hbody
  have hfirst : p.first = start - 1 := h.first.trans (if_pos hoverlaps)
  have hzero : k = 0 ↔ p.first + k = 0 := by omega
  simp only [SceneSpec.bodyWindow, hS, hT, hzero]

end Part

theorem exists_part {o : SceneOptions Rat} (ho : o.validate = .ok ()) (frame : ℕ × ℕ)
    (words : Words) (slides : List Slide) {start stop : ℕ} (hlt : start < stop)
    (hstop : stop ≤ slides.length)
    (hlong : o.batchContinuation.isContinuation = true → start + 1 < stop)
    (hfirst : o.batchContinuation.isContinuation = false → start = 0) :
    ∃ p : Part slides,
      p.Renders (slice slides (start, stop)) (SceneSpec.ofOptions o frame words) ∧
      p.Adds (newStart (SceneSpec.ofOptions o frame words) start) stop := by
  have hne : slice slides (start, stop) ≠ [] := by
    apply List.ne_nil_of_length_pos
    rw [length_slice hstop]
    omega
  obtain ⟨plan, hplan⟩ := exists_slideshow (SceneOptions.timed_of_validate ho)
    (fun x => Rat.mul_comm 2 x) hne frame words
  obtain ⟨hjoins, hends, hlasts⟩ := joins_of_slideshow
    (SceneOptions.transitionDuration_nonneg ho) SceneSpec.exists_pick_zoom hplan hstop hlong hfirst
  refine ⟨⟨_, plan, _, _, _, hjoins, hlasts⟩, ⟨rfl, hplan⟩, ?_, hends, rfl, rfl⟩
  cases hcontinuation : o.batchContinuation.isContinuation with
  | true =>
      have hspec : (SceneSpec.ofOptions o frame words).continuation = true := hcontinuation
      simp only [dropped, newStart, SceneSpec.usesOverlapSlide, hspec]
      split <;> simp_all
  | false =>
      have hspec : (SceneSpec.ofOptions o frame words).continuation = false := hcontinuation
      simp [dropped, newStart, SceneSpec.usesOverlapSlide, hspec, hfirst hcontinuation]

/-- Parts of a job show, one after another, what the whole job shows, and last as long but for the
transitions between them: where slides overlap, the last body of a part runs on to the end of its
slide. -/
structure SameTimeline (s : SceneSpec Rat) (slides : List Slide) (whole : Part slides)
    (parts : List (Part slides)) : Prop where
  inputs : whole.plan.inputs = slides.map fun slide => slide.input s.sceneDuration
  operands : parts.flatMap Part.operands = whole.operands
  cut : s.kind.overlaps = false → whole.duration = slides.length * s.sceneDuration ∧
    (parts.map Part.duration).sum = whole.duration
  wipe : s.kind.overlaps = true →
    whole.duration = slides.length * s.sceneDuration - (slides.length - 1) * s.transitionDuration ∧
    (parts.map Part.duration).sum = whole.duration + (parts.length - 1) * s.transitionDuration
  bodies : ∀ p ∈ parts, ∀ k, .body (p.first + k) ∈ p.operands →
    p.spec.bodyWindow p.plan.inputs.length k =
      { s.bodyWindow slides.length (p.first + k) with
        stop := if k + 1 = p.plan.inputs.length then s.sceneDuration
          else s.sceneDuration - s.transitionDuration }

/-- The scene of a batch. -/
def batchSpec (frame : ℕ × ℕ) (words : ℕ → Words) (b : BatchJob Rat) : SceneSpec Rat :=
  .ofOptions b.options frame (words b.batch)

section Split

variable {o : SceneOptions Rat} {urls : List String} {size i : ℕ}

theorem isContinuation_ofRequest (id : JobId) (i : ℕ) (urls : List String) :
    (BatchJob.ofRequest id (i + 1) urls o).options.batchContinuation.isContinuation =
      decide (0 < i) := by
  cases i with
  | zero => rfl
  | succ i => simp [BatchJob.ofRequest, BatchContinuation.isContinuation]

theorem slice_map {β γ : Type} (f : β → γ) (xs : List β) (range : ℕ × ℕ) :
    slice (xs.map f) range = (slice xs range).map f := by simp [slice]

/-- A batch adds the slides from its start up to the start of the next one. -/
theorem exists_batchPart (ho : o.validate = .ok ()) (id : JobId)
    (hi : i < batchCount urls.length size) (slide : String → Slide) (frame : ℕ × ℕ)
    (words : ℕ → Words) :
    ∃ p : Part (urls.map slide),
      p.Renders ((slice urls (batchRange urls.length size i)).map slide)
        (batchSpec frame words
          (.ofRequest id (i + 1) (slice urls (batchRange urls.length size i)) o)) ∧
      p.Adds (batchStart urls.length size i) (batchStart urls.length size (i + 1)) := by
  let batch : BatchJob Rat :=
    .ofRequest id (i + 1) (slice urls (batchRange urls.length size i)) o
  have hoptions : batch.options.validate = .ok () := ho
  have hcontinues : batch.options.batchContinuation.isContinuation = decide (0 < i) :=
    isContinuation_ofRequest id i _
  obtain ⟨hlt, hstop⟩ := batchRange_bounds hi
  have hnew := batchStart_eq hi
  -- A batch that leaves its first slide out has another one.
  have hlong : batch.options.batchContinuation.isContinuation = true →
      (batchRange urls.length size i).1 + 1 < (batchRange urls.length size i).2 := by
    intro hcontinuation
    rw [hcontinues, decide_eq_true_eq] at hcontinuation
    have hadded := batchStart_lt hi
    rwa [hnew, if_pos hcontinuation] at hadded
  have hfirst : batch.options.batchContinuation.isContinuation = false →
      (batchRange urls.length size i).1 = 0 := by
    intro hcontinuation
    rw [hcontinues, decide_eq_false_iff_not, Nat.not_lt, Nat.le_zero] at hcontinuation
    rw [hcontinuation, batchRange_zero_fst]
  obtain ⟨p, hrenders, hadds⟩ := exists_part hoptions frame (words (i + 1))
    (urls.map slide) hlt (by simpa using hstop) hlong hfirst
  have hstart : newStart (SceneSpec.ofOptions batch.options frame (words (i + 1)))
      (batchRange urls.length size i).1 = batchStart urls.length size i := by
    have hcontinuation : (SceneSpec.ofOptions batch.options frame (words (i + 1))).continuation =
        decide (0 < i) := hcontinues
    simp [newStart, hcontinuation, hnew]
  rw [slice_map] at hrenders
  rw [hstart] at hadds
  exact ⟨p, hrenders, hadds⟩

end Split

/-- The plan shows slides of the same kind for the same times. -/
structure Part.Like {slides : List Slide} (p : Part slides) (s : SceneSpec Rat) : Prop where
  kind : p.spec.kind = s.kind
  sceneDuration : p.spec.sceneDuration = s.sceneDuration
  transitionDuration : p.spec.transitionDuration = s.transitionDuration

theorem Part.Like.span {slides : List Slide} {p : Part slides} {s : SceneSpec Rat} (h : p.Like s)
    (k : ℕ) : p.spec.span k = s.span k := by
  simp only [SceneSpec.span, h.kind, h.sceneDuration, h.transitionDuration]

theorem Part.Adds.inputs {slides : List Slide} {p : Part slides} {s : SceneSpec Rat}
    (h : p.Adds 0 slides.length) (hlike : p.Like s) :
    p.plan.inputs = slides.map fun slide => slide.input s.sceneDuration := by
  have hfirst : p.first = 0 := by rw [h.first]; split <;> rfl
  have hinputs := p.joins.inputs
  rw [h.ends, hfirst, hlike.sceneDuration] at hinputs
  simpa [slice] using hinputs

theorem sameTimeline {s : SceneSpec Rat} {slides : List Slide} {size : ℕ} (hsize : 0 < size)
    {whole : Part slides} {part : ℕ → Part slides} (hwhole : whole.Like s)
    (hall : whole.Adds 0 slides.length)
    (hlike : ∀ i < batchCount slides.length size, (part i).Like s)
    (hadds : ∀ i < batchCount slides.length size,
      (part i).Adds (batchStart slides.length size i) (batchStart slides.length size (i + 1))) :
    SameTimeline s slides whole ((List.range (batchCount slides.length size)).map part) := by
  have hoperands : ∀ i ∈ List.range (batchCount slides.length size), (part i).operands =
      Operand.run s.kind.overlaps (batchStart slides.length size i)
        (batchStart slides.length size (i + 1)) := by
    intro i hi
    rw [(hadds i (List.mem_range.mp hi)).operands, (hlike i (List.mem_range.mp hi)).kind]
  have hdurations : ∀ i ∈ List.range (batchCount slides.length size), (part i).duration =
      s.span (batchStart slides.length size (i + 1) - batchStart slides.length size i) := by
    intro i hi
    rw [(hadds i (List.mem_range.mp hi)).duration, (hlike i (List.mem_range.mp hi)).span]
  have hduration : whole.duration = s.span slides.length := by
    rw [hall.duration, hwhole.span, Nat.sub_zero]
  have hsum := s.sum_span batchStart_zero batchStart_mono (batchCount slides.length size)
    (a := batchStart slides.length size)
  rw [← List.map_congr_left hdurations, batchStart_batchCount hsize] at hsum
  constructor
  · exact hall.inputs hwhole
  · rw [List.flatMap_map, List.flatMap_congr hoperands, hall.operands, hwhole.kind,
      Operand.flatMap_run _ batchStart_zero batchStart_mono, batchStart_batchCount hsize]
  · intro hcut
    rw [hduration, SceneSpec.span, hcut]
    rw [hcut] at hsum
    exact ⟨rfl, by simpa [Function.comp_def] using hsum⟩
  · intro hwipe
    rw [hduration, SceneSpec.span, hwipe]
    rw [hwipe] at hsum
    refine ⟨rfl, ?_⟩
    rw [List.map_map, Function.comp_def, hsum, List.length_map, List.length_range, if_pos rfl]
    simp only [if_true]
    ring
  · intro p hp k hbody
    obtain ⟨i, hi, rfl⟩ := List.mem_map.mp hp
    have hlike := hlike i (List.mem_range.mp hi)
    exact (hadds i (List.mem_range.mp hi)).bodyWindow hbody hlike.sceneDuration
      hlike.transitionDuration

/-- A job that is split shows what it would show at once. -/
theorem exists_sameTimeline {o : SceneOptions Rat} (ho : o.validate = .ok ())
    (hnone : o.batchContinuation = .none) (id : JobId) {urls : List String} (hne : urls ≠ [])
    {size : ℕ} (hsize : 1 ≤ size) (hfew : batchCount urls.length size < UInt32.size)
    (slide : String → Slide) (frame : ℕ × ℕ) (words : Words) (batchWords : ℕ → Words) :
    ∃ (whole : Part (urls.map slide)) (parts : List (Part (urls.map slide))),
      whole.Renders (urls.map slide) (.ofOptions o frame words) ∧
      List.Forall₂ (fun b p => p.Renders (b.urls.map slide) (batchSpec frame batchWords b))
        (planBatches id urls o size) parts ∧
      SameTimeline (.ofOptions o frame words) (urls.map slide) whole parts := by
  have hslides := List.length_pos_iff.mpr hne
  have hcontinuation : o.batchContinuation.isContinuation = false := by rw [hnone]; rfl
  have hnew : newStart (SceneSpec.ofOptions o frame words) 0 = 0 :=
    if_neg (by simpa [SceneSpec.ofOptions] using hcontinuation)
  have hslice : slice (urls.map slide) (0, urls.length) = urls.map slide := by simp [slice]
  obtain ⟨whole, hwhole, hall⟩ := exists_part ho frame words (urls.map slide)
    hslides (by simp) (by simp [hcontinuation]) fun _ => rfl
  rw [hslice] at hwhole
  rw [hnew] at hall
  have hnonempty : Nonempty (Part (urls.map slide)) := ⟨whole⟩
  have hparts := fun i (hi : i < batchCount urls.length size) =>
    exists_batchPart ho id hi slide frame batchWords
  choose! part hrenders hadds using hparts
  have hlike : ∀ i < batchCount urls.length size,
      (part i).Like (SceneSpec.ofOptions o frame words) := by
    intro i hi
    constructor <;> rw [(hrenders i hi).spec] <;> rfl
  have hwholeLike : whole.Like (SceneSpec.ofOptions o frame words) := by
    constructor <;> rw [hwhole.spec]
  refine ⟨whole, (List.range (batchCount urls.length size)).map part, hwhole, ?_, ?_⟩
  · rw [planBatches_eq id urls o hfew, List.forall₂_map_left_iff, List.forall₂_map_right_iff,
      List.forall₂_same]
    exact fun i hi => hrenders i (List.mem_range.mp hi)
  · have hlength : (urls.map slide).length = urls.length := List.length_map slide
    rw [← hlength] at hall hlike hadds ⊢
    exact sameTimeline hsize hwholeLike hall hlike hadds

/-- Slides that are zoomed and move over one another. -/
def wiping : SceneOptions Rat := { overlapping with batchContinuation := .none }

theorem exists_sameTimeline_five :
    wiping.validate = .ok () ∧ wiping.batchContinuation = .none ∧
    ["a", "b", "c", "d", "e"] ≠ [] ∧ 1 ≤ 2 ∧
    batchCount ["a", "b", "c", "d", "e"].length 2 < UInt32.size ∧
    ∃ whole parts,
      Part.Renders whole (["a", "b", "c", "d", "e"].map (⟨·, .still⟩))
        (.ofOptions wiping (1280, 720) [7]) ∧
      List.Forall₂ (fun b p => p.Renders (b.urls.map (⟨·, .still⟩))
          (batchSpec (1280, 720) (fun n => [n]) b))
        (planBatches "job" ["a", "b", "c", "d", "e"] wiping 2) parts ∧
      SameTimeline (.ofOptions wiping (1280, 720) [7])
        (["a", "b", "c", "d", "e"].map (⟨·, .still⟩)) whole parts := by
  have hvalid : wiping.validate = .ok () := by decide +kernel
  have hne : ["a", "b", "c", "d", "e"] ≠ [] := by decide
  have hfew : batchCount ["a", "b", "c", "d", "e"].length 2 < UInt32.size := by decide
  exact ⟨hvalid, rfl, hne, by decide, hfew,
    exists_sameTimeline hvalid rfl "job" hne (by decide) hfew (⟨·, .still⟩) (1280, 720) [7]
      fun n => [n]⟩

end RenderPlan

end Slideshow
