import Slideshow.Proofs.Filter.Exchange
import Slideshow.Proofs.Render.Plan
import Mathlib.Data.Rat.Floor
import Mathlib.Algebra.Order.Floor.Semifield
import Mathlib.Tactic.Linarith
import Mathlib.Tactic.NormNum

/-! # Tracks that cover a video

A track is repeated as often as it takes and no more, cut where the video ends, and silent at that
moment. In a graph whose streams are named by its own labelers a track can always be fitted. What it
leaves is one stream, made of the track alone, and all that was in the graph stays as it was. -/

namespace Slideshow

open Slideshow.Graph

/-! ## Timing -/

namespace AudioFit

variable {native target : ℚ}

/-- The fit plays a track of `native` seconds as often as `target` seconds ask for, and fades it out
up to their end. -/
structure Covers (fit : AudioFit ℚ) (native target : ℚ) : Prop where
  repetitions : IsLeast {r : ℕ | 1 ≤ r ∧ target ≤ r * native} fit.repetitions
  duration : fit.duration = target
  fadeLength : fit.fadeLength = min 4 target
  fadeStart_nonneg : 0 ≤ fit.fadeStart
  fade_end : fit.fadeStart + fit.fadeLength = target

/-- The count is the quotient rounded up, where it fits into a word. -/
theorem repetitions_eq_ceil (hnative : 0 < native) (htarget : 0 < target)
    (hfits : target ≤ maxWord64 * native) :
    (compute native target).repetitions = ⌈target / native⌉₊ := by
  have hcount : (compute native target).repetitions =
      max 1 (min maxWord64 ⌈target / native⌉₊) := by
    change (if decide (0 < native) = true then max 1 (min maxWord64 (target / native).ceil.toNat)
      else 1) = _
    rw [if_pos (decide_eq_true hnative), Rat.ceil_eq_neg_floor_neg]
    rfl
  have hpos : 0 < ⌈target / native⌉₊ := Nat.ceil_pos.mpr (div_pos htarget hnative)
  have hword : ⌈target / native⌉₊ ≤ maxWord64 := Nat.ceil_le.mpr ((div_le_iff₀ hnative).mpr hfits)
  rw [hcount, min_eq_right hword, max_eq_right hpos]

theorem isLeast_repetitions (hnative : 0 < native) (htarget : 0 < target)
    (hfits : target ≤ maxWord64 * native) :
    IsLeast {r : ℕ | 1 ≤ r ∧ target ≤ r * native} (compute native target).repetitions := by
  have henough : ∀ r : ℕ, target ≤ r * native ↔ ⌈target / native⌉₊ ≤ r := fun r => by
    rw [Nat.ceil_le, div_le_iff₀ hnative]
  refine ⟨⟨repetitions_pos native target, ?_⟩, fun r hr => ?_⟩
  · rw [henough, repetitions_eq_ceil hnative htarget hfits]
  · rw [repetitions_eq_ceil hnative htarget hfits]
    exact (henough r).mp hr.2

theorem fadeLength_compute (native target : ℚ) :
    (compute native target).fadeLength = min 4 target := by
  change (if target < 4 then target else 4) = min 4 target
  split
  · rename_i hshort
    exact (min_eq_right (le_of_lt hshort)).symm
  · rename_i hlong
    exact (min_eq_left (not_lt.mp hlong)).symm

/-- The end of a track is cut and then faded. -/
theorem ending_eq {α : Type} [Scalar α] (fit : AudioFit α) : fit.ending =
    "atrim=duration=" ++ Scalar.filterText fit.duration ++
      ",asetpts=PTS-STARTPTS,afade=t=out:st=" ++ Scalar.filterText fit.fadeStart ++ ":d=" ++
      Scalar.filterText fit.fadeLength := by
  apply String.toList_inj.mp
  simp [ending, String.intercalate_cons_cons]

theorem covers_compute (hnative : 0 < native) (htarget : 0 < target)
    (hfits : target ≤ maxWord64 * native) : (compute native target).Covers native target where
  repetitions := isLeast_repetitions hnative htarget hfits
  duration := rfl
  fadeLength := fadeLength_compute native target
  fadeStart_nonneg := by
    change 0 ≤ target - (compute native target).fadeLength
    rw [fadeLength_compute]
    exact sub_nonneg.mpr (min_le_right 4 target)
  fade_end := sub_add_cancel target _

end AudioFit

/-! ## Streams -/

/-- What leads back only to streams of a set comes from that set. -/
theorem FlowsInto.mem_of_closed {ops : List Operation} {s : Label → Prop} {l v : Label}
    (h : FlowsInto ops l v) (hclosed : ∀ a b, Feeds ops a b → s b → s a) (hv : s v) : s l := by
  induction h using Relation.ReflTransGen.head_induction_on with
  | refl => exact hv
  | head hfeeds _ ih => exact hclosed _ _ hfeeds ih

namespace Graph

/-- With the track the graph has three operations more: one copies the input, one joins all copies,
and one cuts and fades what they make. It has one open stream more, made of the input alone. -/
structure GainsTrack (g : Graph) (input : Label) (fit : AudioFit ℚ) (track : Label) (g' : Graph) :
    Prop where
  ops : ∃ copies joined, copies.length = fit.repetitions ∧ g'.ops = g.ops ++
    [⟨[input], "asplit=" ++ Decimal.natText fit.repetitions, copies⟩,
     ⟨copies, "concat=n=" ++ Decimal.natText fit.repetitions ++ ":v=0:a=1", [joined]⟩,
     ⟨[joined], "atrim=duration=" ++ Scalar.filterText fit.duration ++
       ",asetpts=PTS-STARTPTS,afade=t=out:st=" ++ Scalar.filterText fit.fadeStart ++ ":d=" ++
       Scalar.filterText fit.fadeLength, [track]⟩]
  traced : g'.traceInputs track = [input]
  open_iff : ∀ l, g'.Open l ↔ l = track ∨ g.Open l
  not_open : ¬ g.Open track

namespace Labelled

variable {handed used : List Labeler} {g : Graph} {l : Label}

/-- Every stream that operations give is numbered. -/
theorem numbered_of_given (h : Labelled handed used g)
    (hl : l ∈ g.ops.flatMap Operation.outputs) : g.Numbered l := by
  obtain ⟨labels, hlabels, i, rfl⟩ := h.tracked.named l hl
  obtain ⟨k, hk, hnamed⟩ := h.tracked.numbered labels (h.tracked.subset hlabels)
  exact ⟨labels, k, i, hk, hnamed, rfl⟩

/-- Every stream that operations take is an input or numbered. -/
theorem isInput_or_numbered_of_taken (h : Labelled handed used g)
    (hl : l ∈ g.ops.flatMap Operation.inputs) : l.isInput = true ∨ g.Numbered l := by
  obtain ⟨-, hordered⟩ := h.built.accounted_and_ordered
  by_cases hinput : l.isInput = true
  · exact .inl hinput
  · obtain ⟨k, hk⟩ := exists_consumes_iff.mpr hl
    obtain ⟨j, -, hj⟩ := hordered.given_before k l hk (Bool.eq_false_iff.mpr hinput)
    exact .inr (h.numbered_of_given (exists_produces_iff.mp ⟨j, hj⟩))

/-- Every stream that counts as used is an input or numbered. -/
theorem isInput_or_numbered_of_used (h : Labelled handed used g)
    (hl : l ∈ g.produced ∨ l ∈ g.consumed) : l.isInput = true ∨ g.Numbered l := by
  obtain ⟨haccounted, -⟩ := h.built.accounted_and_ordered
  rcases hl with hl | hl
  · exact .inr (h.numbered_of_given ((haccounted.produced l).mp hl))
  · exact h.isInput_or_numbered_of_taken (mem_inner.mp ((haccounted.consumed l).mp hl)).1

end Labelled

section Track

variable {handed used : List Labeler} {g g' : Graph} {input l : Label} {count : ℕ} {fade : String}

/-- The streams that are only passed on while a track is fitted. -/
def passedOn (k count : ℕ) : List Label :=
  (List.range count).map (AudioFit.copies k).label ++ [(AudioFit.joined k).label 0]

theorem outputs_operations (k : ℕ) (input : Label) (count : ℕ) (fade : String) :
    (AudioFit.operations k input count fade).flatMap Operation.outputs =
      passedOn k count ++ [(AudioFit.faded k).label 0] := by
  simp [AudioFit.operations, passedOn]

theorem inputs_operations (k : ℕ) (input : Label) (count : ℕ) (fade : String) :
    (AudioFit.operations k input count fade).flatMap Operation.inputs =
      input :: passedOn k count := by
  simp [AudioFit.operations, passedOn]

/-- What is given while a track is fitted was neither given nor taken before. -/
theorem Labelled.new_of_given (h : Labelled handed used g) (hinput : input.isInput = true)
    {n : ℕ} (hl : l ∈ passedOn g.stages n ++ [(AudioFit.faded g.stages).label 0]) :
    l ∉ g.ops.flatMap Operation.outputs ∧ l ∉ g.ops.flatMap Operation.inputs ∧ l ≠ input := by
  rw [← outputs_operations g.stages input n ""] at hl
  exact ⟨fun hmade => AudioFit.new_of_mem (.inr (h.numbered_of_given hmade)) hl rfl,
    fun htaken => AudioFit.new_of_mem (h.isInput_or_numbered_of_taken htaken) hl rfl,
    (AudioFit.new_of_mem (.inl hinput) hl).symm⟩

variable (h : Labelled handed used g) (hinput : input.isInput = true)
  (hops : g'.ops = g.ops ++ AudioFit.operations g.stages input count fade)
include h hinput hops

theorem Labelled.givenOnce_of_track : GivenOnce g'.ops := by
  rw [hops]
  refine h.built.givenOnce.append AudioFit.givenOnce_operations fun l hl => ?_
  rw [outputs_operations] at hl
  exact (h.new_of_given (n := count) hinput hl).1

theorem Labelled.open_iff_of_track :
    g'.Open l ↔ l = (AudioFit.faded g.stages).label 0 ∨ g.Open l := by
  have hnodup : ((AudioFit.operations g.stages input count fade).flatMap Operation.outputs).Nodup :=
    AudioFit.nodup_operations
  rw [outputs_operations, List.nodup_append] at hnodup
  simp only [Open, exists_produces_iff, ← not_exists, exists_consumes_iff, hops,
    List.flatMap_append, List.mem_append, outputs_operations, inputs_operations, List.mem_cons,
    List.not_mem_nil, or_false, not_or]
  constructor
  · rintro ⟨hmade | hpassed | rfl, htaken, -, hnot⟩
    · exact .inr ⟨hmade, htaken⟩
    · exact (hnot hpassed).elim
    · exact .inl rfl
  · rintro (rfl | ⟨hmade, htaken⟩)
    · obtain ⟨-, htaken, hne⟩ := h.new_of_given (n := count) hinput
        (List.mem_append_right _ (List.mem_singleton_self _))
      exact ⟨.inr (.inr rfl), htaken, hne,
        fun hl => hnodup.2.2 _ hl _ (List.mem_singleton_self _) rfl⟩
    · refine ⟨.inl hmade, htaken, ?_, fun hl => ?_⟩
      · rintro rfl
        exact h.built.givenOnce.not_made hinput hmade
      · exact (h.new_of_given (n := count) hinput (List.mem_append_left _ hl)).1 hmade

/-- What leads to the stream of the track is the input or was given while the track was fitted. -/
theorem Labelled.eq_or_given_of_flowsInto
    (hflows : FlowsInto g'.ops l ((AudioFit.faded g.stages).label 0)) :
    l = input ∨ l ∈ passedOn g.stages count ++ [(AudioFit.faded g.stages).label 0] := by
  let chain (l : Label) : Prop :=
    l = input ∨ l ∈ passedOn g.stages count ++ [(AudioFit.faded g.stages).label 0]
  refine hflows.mem_of_closed (s := chain) ?_ (.inr (List.mem_append_right _ (by simp)))
  rintro a b ⟨op, hop, ha, hb⟩ hs
  rw [hops, List.mem_append] at hop
  rcases hop with hop | hop
  · -- no operation that was there gives a stream of the chain
    have hmade : b ∈ g.ops.flatMap Operation.outputs := List.mem_flatMap.mpr ⟨op, hop, hb⟩
    rcases hs with rfl | hs
    · exact (h.built.givenOnce.not_made hinput hmade).elim
    · exact ((h.new_of_given (n := count) hinput hs).1 hmade).elim
  · have htaken : a ∈ input :: passedOn g.stages count :=
      inputs_operations g.stages input count fade ▸ List.mem_flatMap.mpr ⟨op, hop, ha⟩
    exact (List.mem_cons.mp htaken).imp_right (List.mem_append_left _)

omit h hinput in
/-- The input leads to the stream of the track by way of a copy and of all copies joined. -/
theorem flowsInto_track (hcount : 0 < count) :
    FlowsInto g'.ops input ((AudioFit.faded g.stages).label 0) := by
  have hfeeds : ∀ {a b op}, op ∈ AudioFit.operations g.stages input count fade →
      a ∈ op.inputs → b ∈ op.outputs → Feeds g'.ops a b := fun hop ha hb =>
    ⟨_, hops ▸ List.mem_append_right _ hop, ha, hb⟩
  have hcopy : (AudioFit.copies g.stages).label 0 ∈
      (List.range count).map (AudioFit.copies g.stages).label :=
    List.mem_map_of_mem (List.mem_range.mpr hcount)
  have hcopied : Feeds g'.ops input ((AudioFit.copies g.stages).label 0) :=
    hfeeds (.head _) (List.mem_singleton_self input) hcopy
  have hjoined : Feeds g'.ops ((AudioFit.copies g.stages).label 0)
      ((AudioFit.joined g.stages).label 0) :=
    hfeeds (.tail _ (.head _)) hcopy (List.mem_singleton_self _)
  have hfaded : Feeds g'.ops ((AudioFit.joined g.stages).label 0)
      ((AudioFit.faded g.stages).label 0) :=
    hfeeds (.tail _ (.tail _ (.head _))) (List.mem_singleton_self _) (List.mem_singleton_self _)
  exact .tail (.tail (.single hcopied) hjoined) hfaded

/-- The stream of the track is made of the input alone. -/
theorem Labelled.traceInputs_of_track (hcount : 0 < count) :
    g'.traceInputs ((AudioFit.faded g.stages).label 0) = [input] := by
  refine traceInputs_eq_singleton (h.givenOnce_of_track hinput hops) fun l => ⟨?_, ?_⟩
  · rintro ⟨hl, hflows⟩
    refine (h.eq_or_given_of_flowsInto hinput hops hflows).resolve_right fun hgiven => ?_
    rw [← outputs_operations g.stages input count fade] at hgiven
    exact AudioFit.givenOnce_operations.not_made hl hgiven
  · rintro rfl
    exact ⟨hinput, flowsInto_track hops hcount⟩

end Track

/-- A track can be fitted in every graph of labelers, whatever is open there. It covers the video,
and the graph gains one stream, which is that of the track. -/
theorem Labelled.exists_covering_track {handed used : List Labeler} {g : Graph}
    (h : Labelled handed used g) (k : ℕ) {native target : ℚ} (hnative : 0 < native)
    (htarget : 0 < target) (hfits : target ≤ maxWord64 * native) :
    ∃ track fit g', (AudioFit.apply (.audio k) native target).run g = (.ok (track, fit), g') ∧
      fit.Covers native target ∧ g.GainsTrack (.audio k) fit track g' := by
  have hinput := Label.isInput_audio k
  obtain ⟨g', hrun, hops⟩ := AudioFit.exists_apply native target hinput
    (g := g) fun l => h.isInput_or_numbered_of_used
  have hcount := AudioFit.repetitions_pos native target
  refine ⟨_, _, g', hrun, AudioFit.covers_compute hnative htarget hfits, ?_⟩
  constructor
  · refine ⟨(List.range (AudioFit.compute native target).repetitions).map
      (AudioFit.copies g.stages).label, (AudioFit.joined g.stages).label 0, by simp, ?_⟩
    rw [hops, AudioFit.operations, AudioFit.ending_eq]
  · exact h.traceInputs_of_track hinput hops hcount
  · exact fun l => h.open_iff_of_track hinput hops
  · rintro ⟨hmade, -⟩
    exact (h.new_of_given (n := 0) hinput (List.mem_append_right _
      (List.mem_singleton_self _))).1 (exists_produces_iff.mp hmade)

/-- Three times ten seconds cover twenty-five, and the other copy of the picture stays open. -/
theorem Labelled.exists_covering_track_beside_copies : ∃ track fit g',
    (AudioFit.apply (.audio 5) (10 : ℚ) 25).run handing = (.ok (track, fit), g') ∧
      fit.repetitions = 3 ∧ g'.traceInputs track = [.audio 5] ∧ g'.Open track ∧
      g'.Open ⟨"a0_1"⟩ := by
  obtain ⟨track, fit, g', hrun, hcovers, hgains⟩ :=
    labelled_handing.exists_covering_track 5 (show (0 : ℚ) < 10 by norm_num)
      (show (0 : ℚ) < 25 by norm_num) (by norm_num [maxWord64, UInt64.size])
  have hthree : IsLeast {r : ℕ | 1 ≤ r ∧ (25 : ℚ) ≤ r * 10} 3 := by
    refine ⟨⟨by norm_num, by norm_num⟩, fun r hr => ?_⟩
    by_contra hless
    have hfew : (r : ℚ) ≤ 2 := by exact_mod_cast Nat.lt_succ_iff.mp (not_le.mp hless)
    linarith [hr.2]
  have hcopy : handing.Open ⟨"a0_1"⟩ := labelled_handing.built.open_iff.mpr (by decide)
  exact ⟨track, fit, g', hrun, hcovers.repetitions.unique hthree, hgains.traced,
    (hgains.open_iff _).mpr (.inl rfl), (hgains.open_iff _).mpr (.inr hcopy)⟩

end Graph

end Slideshow
