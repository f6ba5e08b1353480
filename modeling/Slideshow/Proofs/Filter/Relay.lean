import Slideshow.Proofs.Filter.Label
import Slideshow.Proofs.Program.Result
import Slideshow.Filter.Compile
import Mathlib.Data.List.Nodup

/-! # Stages pass streams on

Whatever a filter is made of, its operations take the streams that it is given, in order, and then
those that they give one another; and what they give is what they take from one another, in order,
and then what they leave. -/

namespace Slideshow

/-! ## Labelers of a filter -/

namespace Filter

variable {α : Type}

mutual

/-- The labelers of the primitives of a filter. -/
def labelers : Filter α → List Labeler
  | .split labels _ _ => [labels]
  | .audioLoop labels _ => [labels]
  | .concat labels _ _ => [labels]
  | .overlayWipe labels _ _ => [labels]
  | .combine labels _ _ => [labels]
  | .chain stages => labelersOf stages

/-- The labelers of the primitives of several filters. -/
def labelersOf : List (Filter α) → List Labeler
  | [] => []
  | stage :: rest => stage.labelers ++ labelersOf rest

end

end Filter

/-- One of the labelers names the stream. -/
def Label.NamedBy (labelers : List Labeler) (l : Label) : Prop :=
  ∃ labels ∈ labelers, ∃ i, l = labels.label i

/-! ## One primitive -/

namespace Stage

/-- The operations treat the inputs one after another and give the first labels of a labeler. -/
structure Primitive (stage : Stage) (labels : Labeler) (inputs : List Label) : Prop where
  taken : stage.ops.flatMap Operation.inputs = inputs
  given : stage.ops.flatMap Operation.outputs = stage.outputs
  labelled : ∃ n, stage.outputs = (List.range' 0 n).map labels.label
  sided : ∀ op ∈ stage.ops, op.inputs ≠ [] ∧ op.outputs ≠ []

end Stage

namespace Filter

variable {α : Type} [Scalar α] {labels : Labeler} {inputs : List Label} {stage : Stage}

theorem labels_split (labels : Labeler) (copies k : ℕ) (inputs : List Label) :
    ((inputs.zipIdx k).flatMap fun x => (List.range copies).map fun c =>
      labels.label (x.2 * copies + c)) =
      (List.range' (k * copies) (inputs.length * copies)).map labels.label := by
  induction inputs generalizing k with
  | nil => simp
  | cons input inputs ih =>
      have hrange : (List.range copies).map (fun c => labels.label (k * copies + c)) =
          (List.range' (k * copies) copies).map labels.label := by
        rw [List.range'_eq_map_range, List.map_map]
        rfl
      have hlater : List.range' (k * copies) ((inputs.length + 1) * copies) =
          List.range' (k * copies) copies ++
            List.range' ((k + 1) * copies) (inputs.length * copies) := by
        rw [Nat.succ_mul, Nat.succ_mul, Nat.add_comm _ copies, List.range'_append_1]
      rw [List.zipIdx_cons, List.flatMap_cons, hrange, ih, List.length_cons, hlater, List.map_append]

theorem primitive_of_compileSplit {kind : StreamKind} {copies : ℕ}
    (h : compileSplit labels kind copies inputs = .ok stage) : stage.Primitive labels inputs := by
  unfold compileSplit at h
  split at h
  · cases h
  · split at h
    · cases h
    · rename_i hcopies
      cases h
      refine ⟨?_, rfl, ⟨inputs.length * copies, ?_⟩, ?_⟩
      · rw [List.flatMap_map]
        change (inputs.zipIdx.flatMap fun x => [x.1]) = inputs
        rw [← List.map_eq_flatMap, List.zipIdx_map_fst]
      · rw [List.flatMap_map]
        simpa using labels_split labels copies 0 inputs
      · intro op hop
        obtain ⟨x, -, rfl⟩ := List.mem_map.mp hop
        simpa using hcopies

theorem primitive_of_compileConcat {kind : StreamKind} {count : ℕ}
    (h : compileConcat labels kind count inputs = .ok stage) : stage.Primitive labels inputs := by
  unfold compileConcat at h
  split at h
  · cases h
  · rename_i hnil
    split at h
    · cases h
    · cases h
      refine ⟨by simp, by simp, ⟨1, by simp⟩, ?_⟩
      intro op hop
      obtain rfl := List.mem_singleton.mp hop
      exact ⟨by simpa using hnil, by simp⟩

/-- Overlays of an even number of streams leave none of them over. -/
theorem of_overlayPairs {duration : α} {directions : Variants WipeDirection} {i : ℕ}
    {ops : List Operation} (heven : inputs.length % 2 = 0)
    (h : overlayPairs labels duration directions i inputs = .ok ops) :
    ops.flatMap Operation.inputs = inputs ∧
      ops.flatMap Operation.outputs = (List.range' i ops.length).map labels.label ∧
      ∀ op ∈ ops, op.inputs ≠ [] ∧ op.outputs ≠ [] := by
  fun_induction overlayPairs labels duration directions i inputs generalizing ops with
  | case1 i below above rest ih =>
      obtain ⟨direction, -, h⟩ := ok_of_bind h
      obtain ⟨ops', hops', h⟩ := ok_of_bind h
      cases h
      obtain ⟨htaken, hgiven, hsided⟩ := ih (by simp only [List.length_cons] at heven; omega) hops'
      refine ⟨by simp [htaken], by simp [hgiven, List.range'_succ], ?_⟩
      intro op hop
      rcases List.mem_cons.mp hop with rfl | hop
      · simp
      · exact hsided op hop
  | case2 rest i hshort =>
      have hnil : rest = [] := by
        match rest, hshort, heven with
        | [], _, _ => rfl
        | [_], _, heven => simp at heven
        | below :: above :: rest, hshort, _ => exact (hshort below above rest rfl).elim
      subst hnil
      cases h
      simp

theorem primitive_of_compileOverlay {duration : α} {directions : Variants WipeDirection}
    (h : compileOverlay labels duration directions inputs = .ok stage) :
    stage.Primitive labels inputs := by
  unfold compileOverlay at h
  split at h
  · cases h
  · split at h
    · cases h
    · rename_i heven
      obtain ⟨ops, hops, h⟩ := ok_of_bind h
      cases h
      obtain ⟨htaken, hgiven, hsided⟩ := of_overlayPairs (by simpa using heven) hops
      exact ⟨htaken, rfl, ⟨_, hgiven⟩, hsided⟩

/-- Operations that each treat one stream treat all of them. -/
theorem of_mapM_zipIdx (labels : Labeler) {f : Label × ℕ → Except GraphError Operation} {k : ℕ}
    {ops : List Operation}
    (hf : ∀ x op, f x = .ok op → op.inputs = [x.1] ∧ op.outputs = [labels.label x.2])
    (h : (inputs.zipIdx k).mapM f = .ok ops) :
    ops.flatMap Operation.inputs = inputs ∧
      ops.flatMap Operation.outputs = (List.range' k ops.length).map labels.label ∧
      ∀ op ∈ ops, op.inputs ≠ [] ∧ op.outputs ≠ [] := by
  induction inputs generalizing k ops with
  | nil =>
      cases h
      simp
  | cons input inputs ih =>
      rw [List.zipIdx_cons, List.mapM_cons] at h
      obtain ⟨op, hop, h⟩ := ok_of_bind h
      obtain ⟨ops', hops', h⟩ := ok_of_bind h
      cases h
      obtain ⟨hin, hout⟩ := hf _ _ hop
      obtain ⟨htaken, hgiven, hsided⟩ := ih hops'
      refine ⟨by simp [hin, htaken], by simp [hout, hgiven, List.range'_succ], ?_⟩
      intro op' hop'
      rcases List.mem_cons.mp hop' with rfl | hop'
      · simp [hin, hout]
      · exact hsided op' hop'

theorem primitive_of_compileCombine {parts : List (Expression α)} {first : ℕ}
    (h : compileCombine labels parts first inputs = .ok stage) : stage.Primitive labels inputs := by
  unfold compileCombine at h
  split at h
  · cases h
  · split at h
    · cases h
    · obtain ⟨ops, hops, h⟩ := ok_of_bind h
      cases h
      obtain ⟨htaken, hgiven, hsided⟩ := of_mapM_zipIdx labels (fun x op hop => by
        obtain ⟨expression, -, hop⟩ := ok_of_bind hop
        cases hop
        exact ⟨rfl, rfl⟩) hops
      exact ⟨htaken, rfl, ⟨_, hgiven⟩, hsided⟩

end Filter

/-! ## A whole filter -/

namespace Stage

/-- The stage is put together from primitives with these labelers, each of which treats what the one
before it leaves. -/
inductive Assembled : List Labeler → List Label → Stage → Prop where
  | primitive {stage : Stage} {labels : Labeler} {inputs : List Label} :
      stage.Primitive labels inputs → Assembled [labels] inputs stage
  | idle {inputs : List Label} : Assembled [] inputs ⟨[], inputs⟩
  | append {first last : Stage} {earlier later : List Labeler} {inputs : List Label} :
      Assembled earlier inputs first → Assembled later first.outputs last →
      Assembled (earlier ++ later) inputs ⟨first.ops ++ last.ops, last.outputs⟩

/-- What the operations of a stage take are the inputs and then what is passed on, and what they
give is what is passed on and then the outputs. -/
structure Relays (stage : Stage) (inputs passed : List Label) : Prop where
  taken : stage.ops.flatMap Operation.inputs = inputs ++ passed
  given : stage.ops.flatMap Operation.outputs = passed ++ stage.outputs

namespace Assembled

variable {stage : Stage} {labelers : List Labeler} {inputs : List Label}

theorem labelled (h : Assembled labelers inputs stage) {l : Label}
    (hl : l ∈ stage.ops.flatMap Operation.outputs) : l.NamedBy labelers := by
  induction h with
  | @primitive stage labels inputs h =>
      obtain ⟨n, hn⟩ := h.labelled
      rw [h.given, hn] at hl
      obtain ⟨i, -, rfl⟩ := List.mem_map.mp hl
      exact ⟨labels, List.mem_singleton_self labels, i, rfl⟩
  | idle => cases hl
  | append _ _ hfirst hlast =>
      rw [List.flatMap_append, List.mem_append] at hl
      rcases hl with hl | hl
      · obtain ⟨labels, hlabels, hlabel⟩ := hfirst hl
        exact ⟨labels, List.mem_append_left _ hlabels, hlabel⟩
      · obtain ⟨labels, hlabels, hlabel⟩ := hlast hl
        exact ⟨labels, List.mem_append_right _ hlabels, hlabel⟩

/-- Without primitives nothing is done. -/
theorem eq_of_idle (h : Assembled labelers inputs stage) (hidle : labelers = []) :
    stage = ⟨[], inputs⟩ := by
  induction h with
  | primitive _ => cases hidle
  | idle => rfl
  | append _ _ hfirst hlast =>
      obtain ⟨hearlier, hlater⟩ := List.append_eq_nil_iff.mp hidle
      rw [hfirst hearlier] at hlast ⊢
      rw [hlast hlater]
      rfl

theorem exists_relays (h : Assembled labelers inputs stage) (hne : labelers ≠ []) :
    ∃ passed, stage.Relays inputs passed := by
  induction h with
  | primitive h => exact ⟨[], by rw [h.taken, List.append_nil], h.given⟩
  | idle => exact (hne rfl).elim
  | @append first last earlier later inputs hassembled hassembled' hfirst hlast =>
      by_cases hearlier : earlier = []
      · obtain ⟨passed, htaken, hgiven⟩ := hlast fun hlater => hne (by rw [hearlier, hlater]; rfl)
        rw [hassembled.eq_of_idle hearlier] at htaken ⊢
        exact ⟨passed, htaken, hgiven⟩
      obtain ⟨passed, htaken, hgiven⟩ := hfirst hearlier
      by_cases hlater : later = []
      · rw [hassembled'.eq_of_idle hlater]
        exact ⟨passed, by simpa using htaken, by simpa using hgiven⟩
      obtain ⟨passed', htaken', hgiven'⟩ := hlast hlater
      refine ⟨passed ++ first.outputs ++ passed', ?_, ?_⟩
      · simp [htaken, htaken', List.append_assoc]
      · simp [hgiven, hgiven', List.append_assoc]

end Assembled

end Stage

namespace Filter

variable {α : Type} [Scalar α]

mutual

/-- What a filter compiles to is put together from its primitives. -/
theorem assembled_of_compile {inputs : List Label} {stage : Stage} (filter : Filter α)
    (h : filter.compile inputs = .ok stage) : Stage.Assembled filter.labelers inputs stage := by
  match filter with
  | .split labels kind copies =>
      rw [compile] at h
      exact .primitive (primitive_of_compileSplit h)
  | .audioLoop labels repetitions =>
      rw [compile] at h
      split at h
      · cases h
      · exact .primitive (primitive_of_compileSplit h)
  | .concat labels kind count =>
      rw [compile] at h
      exact .primitive (primitive_of_compileConcat h)
  | .overlayWipe labels duration directions =>
      rw [compile] at h
      exact .primitive (primitive_of_compileOverlay h)
  | .combine labels parts first =>
      rw [compile] at h
      exact .primitive (primitive_of_compileCombine h)
  | .chain stages =>
      rw [compile] at h
      exact assembled_of_compileChain stages h

theorem assembled_of_compileChain {inputs : List Label} {stage : Stage} (stages : List (Filter α))
    (h : compileChain inputs stages = .ok stage) :
    Stage.Assembled (labelersOf stages) inputs stage := by
  match stages with
  | [] =>
      rw [compileChain] at h
      cases h
      exact .idle
  | filter :: rest =>
      rw [compileChain] at h
      obtain ⟨first, hfirst, h⟩ := ok_of_bind h
      obtain ⟨last, hlast, h⟩ := ok_of_bind h
      cases h
      exact .append (assembled_of_compile filter hfirst) (assembled_of_compileChain rest hlast)

end

end Filter

end Slideshow
