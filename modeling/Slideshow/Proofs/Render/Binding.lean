import Slideshow.Proofs.Render.Plan
import Slideshow.Proofs.Render.Arguments
import Slideshow.Proofs.Scene.Connected

/-! # Plans bind files to streams

The inputs of a plan are numbered by their position. Its graph uses every one of them once, and what
is made and not used again is mapped into the output. -/

namespace Slideshow

open Slideshow.Graph

/-! ## Numbered sources -/

/-- Every source is a stream of the input at its position. -/
def Indexed (sources : List Label) : Prop :=
  ∀ (k : ℕ) (l : Label), sources[k]? = some l → l = .video k ∨ l = .audio k

namespace Indexed

variable {sources : List Label}

theorem isInput (h : Indexed sources) : ∀ l ∈ sources, l.isInput = true := by
  intro l hl
  obtain ⟨k, hk⟩ := List.mem_iff_getElem?.mp hl
  rcases h k l hk with rfl | rfl
  · exact Label.isInput_video k
  · exact Label.isInput_audio k

theorem position_eq (h : Indexed sources) {j k : ℕ} {l : Label}
    (hl : l = .video k ∨ l = .audio k) (hj : sources[j]? = some l) : j = k := by
  rcases h j l hj with rfl | rfl <;> rcases hl with hl | hl
  · exact Label.video_inj hl
  · exact (Label.video_ne_audio j k hl).elim
  · exact (Label.video_ne_audio k j hl.symm).elim
  · exact Label.audio_inj hl

theorem nodup (h : Indexed sources) : sources.Nodup := by
  apply List.nodup_iff_getElem?_ne_getElem?.mpr
  intro i j hij hj heq
  have hi : sources[i]? = some sources[j] := by rw [heq, List.getElem?_eq_getElem hj]
  have hsame := h.position_eq (h i _ hi) (List.getElem?_eq_getElem hj)
  omega

theorem eq_of_mem (h : Indexed sources) {k : ℕ} {l l' : Label} (hl : sources[k]? = some l)
    (hl' : l' = .video k ∨ l' = .audio k) (hmem : l' ∈ sources) : l' = l := by
  obtain ⟨j, hj⟩ := List.mem_iff_getElem?.mp hmem
  obtain rfl := h.position_eq hl' hj
  exact Option.some.inj (hj.symm.trans hl)

/-- Of the two streams of an input, one is a source. -/
theorem count (h : Indexed sources) {k : ℕ} (hk : k < sources.length) :
    sources.count (.video k) + sources.count (.audio k) = 1 := by
  have hget := List.getElem?_eq_getElem hk
  have hone := List.count_eq_one_of_mem h.nodup (List.getElem_mem hk)
  rcases h k _ hget with hvideo | haudio
  · rw [hvideo] at hget hone
    have hnone : Label.audio k ∉ sources := fun hmem =>
      Label.video_ne_audio k k (h.eq_of_mem hget (.inr rfl) hmem).symm
    rw [hone, List.count_eq_zero.mpr hnone]
  · rw [haudio] at hget hone
    have hnone : Label.video k ∉ sources := fun hmem =>
      Label.video_ne_audio k k (h.eq_of_mem hget (.inl rfl) hmem)
    rw [hone, List.count_eq_zero.mpr hnone]

end Indexed

namespace RenderPlan

variable {α : Type} {plan : RenderPlan α} {sources : List Label}

/-- The streams that the graph takes or that are mapped into the output. -/
def references (plan : RenderPlan α) : List Label :=
  plan.graph.ops.flatMap Operation.inputs ++ plan.mapped

/-- The sources flow through the graph into what is mapped. -/
structure Wired (plan : RenderPlan α) (sources : List Label) : Prop where
  indexed : Indexed sources
  flow : Flow sources plan.graph.ops plan.mapped
  made : ∀ l ∈ plan.graph.ops.flatMap Operation.outputs, l.isInput = false

namespace Wired

/-- Sources, and what is made, are referred to once each. -/
theorem count_references (h : plan.Wired sources) (l : Label) :
    plan.references.count l =
      (plan.graph.ops.flatMap Operation.outputs).count l + sources.count l := by
  rw [references, List.count_append, h.flow.balance l]

theorem count_of_isInput (h : plan.Wired sources) {l : Label} (hl : l.isInput = true) :
    plan.references.count l = sources.count l := by
  have hmade : l ∉ plan.graph.ops.flatMap Operation.outputs := by
    intro hmade
    rw [h.made l hmade] at hl
    cases hl
  rw [h.count_references, List.count_eq_zero.mpr hmade, Nat.zero_add]

theorem input (h : plan.Wired sources) {k : ℕ} (hk : k < sources.length) :
    plan.references.count (.video k) + plan.references.count (.audio k) = 1 := by
  rw [h.count_of_isInput (Label.isInput_video k), h.count_of_isInput (Label.isInput_audio k)]
  exact h.indexed.count hk

/-- What is made is taken once, later on, or else mapped once. -/
theorem produced (h : plan.Wired sources) {k : ℕ} {l : Label} (hk : plan.graph.Produces k l) :
    ((∃ k', k < k' ∧ plan.graph.Consumes k' l) ∧
        (plan.graph.ops.flatMap Operation.inputs).count l = 1 ∧ plan.mapped.count l = 0) ∨
      ((plan.graph.ops.flatMap Operation.inputs).count l = 0 ∧ plan.mapped.count l = 1) := by
  have hmade := exists_produces_iff.mp ⟨k, hk⟩
  have hnodup := h.flow.nodup_outputs h.indexed.nodup
  have hone := List.count_eq_one_of_mem hnodup hmade
  have hsource : l ∉ sources := fun hs => h.flow.not_made_of_source h.indexed.nodup hs hmade
  have hbalance := h.flow.balance l
  rw [hone, List.count_eq_zero.mpr hsource] at hbalance
  by_cases htaken : l ∈ plan.graph.ops.flatMap Operation.inputs
  · have hpos := List.count_pos_iff.mpr htaken
    obtain ⟨k', op, hop, hl⟩ := exists_consumes_iff.mpr htaken
    have hlater : k < k' := by
      rcases h.flow.taken_cases hop hl with hs | ⟨j, op', hj, hop', hl'⟩
      · exact (hsource hs).elim
      · obtain ⟨op'', hop'', hl''⟩ := hk
        rwa [Flow.position_unique hnodup hop'' hop' hl'' hl']
    exact .inl ⟨⟨k', hlater, op, hop, hl⟩, by omega, by omega⟩
  · rw [List.count_eq_zero.mpr htaken] at hbalance ⊢
    exact .inr ⟨rfl, by omega⟩

end Wired

/-! ## Files -/

/-- Files whose pictures are used, in order. -/
def pictures (files : List String) : List (Label × String) :=
  files.zipIdx.map fun (file, k) => (.video k, file)

section Plans

variable [Scalar α]

end Plans

end RenderPlan

end Slideshow
