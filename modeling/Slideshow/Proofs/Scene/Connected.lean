import Slideshow.Proofs.Filter.Tracing
import Slideshow.Proofs.Scene.Assemble

/-! # Scenes are connected

In the graph of a scene every stream that is made is used once, later on, and the picture of the
scene is made of all inputs and nothing else. -/

namespace Slideshow

open Slideshow.Graph

/-! ## Who makes a stream and who uses it -/

namespace Graph

variable {g : Graph} {l : Label} {k k' : ℕ}

theorem pictureOf_of_not_made {ops : List Operation} (h : l ∉ ops.flatMap Operation.outputs) :
    pictureOf ops l = .input l := by
  induction ops with
  | nil => rfl
  | cons op ops ih =>
      rw [List.flatMap_cons, List.mem_append, not_or] at h
      rw [pictureOf, if_neg h.1, ih h.2]

namespace Holds

variable {sources : List Label} {held : List (Label × Picture)}

theorem givenOnce (h : Holds sources held g) : GivenOnce g.ops where
  nodup := h.flow.nodup_outputs h.nodup
  isInput l hl := (h.numbered l hl).isInput

theorem consumes_unique (h : Holds sources held g) (hk : g.Consumes k l)
    (hk' : g.Consumes k' l) : k = k' := by
  obtain ⟨op, hop, hl⟩ := hk
  obtain ⟨op', hop', hl'⟩ := hk'
  exact Flow.position_unique (h.flow.nodup_inputs h.nodup) hop hop' hl hl'

theorem produces_unique (h : Holds sources held g) (hk : g.Produces k l)
    (hk' : g.Produces k' l) : k = k' := by
  obtain ⟨op, hop, hl⟩ := hk
  obtain ⟨op', hop', hl'⟩ := hk'
  exact Flow.position_unique (h.flow.nodup_outputs h.nodup) hop hop' hl hl'

/-- An operation only takes what was made before. -/
theorem lt_of_consumes (h : Holds sources held g) (hk : g.Produces k l)
    (hk' : g.Consumes k' l) : k < k' := by
  have hmade := exists_produces_iff.mp ⟨k, hk⟩
  obtain ⟨op, hop, hl⟩ := hk'
  rcases h.flow.taken_cases hop hl with hsource | ⟨j, op', hj, hop', hl'⟩
  · exact (h.flow.not_made_of_source h.nodup hsource hmade).elim
  · rwa [h.produces_unique hk ⟨op', hop', hl'⟩]

theorem source_of_isInput (h : Holds sources held g)
    (hl : l ∈ g.ops.flatMap Operation.inputs) (hinput : l.isInput = true) : l ∈ sources := by
  obtain ⟨k, op, hop, hl⟩ := exists_consumes_iff.mpr hl
  rcases h.flow.taken_cases hop hl with hsource | ⟨j, op', -, hop', hl'⟩
  · exact hsource
  · have hmade := exists_produces_iff.mp ⟨j, op', hop', hl'⟩
    rw [(h.numbered l hmade).isInput] at hinput
    cases hinput

theorem made_of_shows (h : Holds sources held g) {p : String} {ps : List Picture}
    (hl : (l, .made p ps) ∈ held) : l ∈ g.ops.flatMap Operation.outputs := by
  by_contra hmade
  have hshows := h.shows _ hl
  rw [picture, pictureOf_of_not_made (by simpa using hmade)] at hshows
  cases hshows

end Holds

end Graph

/-! ## Connected scenes -/

/-- The graph uses the first inputs once each and no other ones; it makes every stream once and uses
all but the last once, later on; and the last one is made of all inputs. -/
structure Scene.Connected {α : Type} (scene : Scene α) (inputs : ℕ) : Prop where
  input : ∀ i < inputs, ∃! k, scene.graph.Consumes k (.video i)
  isInput : ∀ k l, scene.graph.Consumes k l ∨ scene.graph.Produces k l → l.isInput = true →
    ∃ i < inputs, l = .video i
  produced : ∀ k l, scene.graph.Produces k l →
    l.isInput = false ∧ ∀ k', scene.graph.Produces k' l → k' = k
  consumed : ∀ k l, scene.graph.Produces k l → l ≠ scene.video →
    ∃ k', k < k' ∧ scene.graph.Consumes k' l ∧ ∀ k'', scene.graph.Consumes k'' l → k'' = k'
  video : (∃ k, scene.graph.Produces k scene.video) ∧
    ∀ k, ¬ scene.graph.Consumes k scene.video
  nodup : ∀ op ∈ scene.graph.ops, op.inputs.Nodup ∧ op.outputs.Nodup
  shaped : ∀ op ∈ scene.graph.ops, op.Shaped
  traced : ∀ l, l ∈ scene.graph.traceInputs scene.video ↔ ∃ i < inputs, l = .video i

theorem Graph.Holds.connected {α : Type} {scene : Scene α} {n : ℕ} {p : String} {ps : List Picture}
    (h : Holds (Scene.inputs n) [(scene.video, .made p ps)] scene.graph) : scene.Connected n := by
  have hvideo := h.made_of_shows List.mem_cons_self
  have hinput := (h.numbered _ hvideo).isInput
  have hne : ∀ {l : Label}, l.isInput = true →
      l ∉ [(scene.video, Picture.made p ps)].map Prod.fst := by
    rintro l hl hmem
    cases List.mem_singleton.mp hmem
    rw [hinput] at hl
    cases hl
  refine ⟨fun i hi => ?_, fun k l hl hinput => ?_, fun k l hl => ?_, fun k l hl hlast => ?_,
    ⟨exists_produces_iff.mpr hvideo, fun k hk => ?_⟩, fun op hop => ⟨?_, ?_⟩, h.shaped,
    fun l => ?_⟩
  · have hsource := Scene.mem_inputs_iff.mpr ⟨i, hi, rfl⟩
    obtain ⟨k, hk⟩ := exists_consumes_iff.mpr
      (h.flow.taken_of_not_held (.inl hsource) (hne (Label.isInput_video i)))
    exact ⟨k, hk, fun k' hk' => h.consumes_unique hk' hk⟩
  · rcases hl with hl | hl
    · exact Scene.mem_inputs_iff.mp (h.source_of_isInput (exists_consumes_iff.mp ⟨k, hl⟩) hinput)
    · rw [(h.numbered l (exists_produces_iff.mp ⟨k, hl⟩)).isInput] at hinput
      cases hinput
  · exact ⟨(h.numbered l (exists_produces_iff.mp ⟨k, hl⟩)).isInput,
      fun k' hk' => h.produces_unique hk' hl⟩
  · obtain ⟨k', hk'⟩ := exists_consumes_iff.mpr (h.flow.taken_of_not_held
      (.inr (exists_produces_iff.mp ⟨k, hl⟩)) (by simpa using hlast))
    exact ⟨k', h.lt_of_consumes hl hk', hk', fun k'' hk'' => h.consumes_unique hk'' hk'⟩
  · exact h.flow.not_taken h.nodup List.mem_cons_self (exists_consumes_iff.mp ⟨k, hk⟩)
  · exact (List.nodup_flatMap.mp (h.flow.nodup_inputs h.nodup)).1 op hop
  · exact (List.nodup_flatMap.mp (h.flow.nodup_outputs h.nodup)).1 op hop
  · rw [mem_traceInputs h.givenOnce, ← Scene.mem_inputs_iff]
    constructor
    · rintro ⟨hinput', hflows⟩
      rcases hflows.taken with rfl | hl
      · rw [hinput] at hinput'
        cases hinput'
      · exact h.source_of_isInput hl hinput'
    · intro hl
      obtain ⟨v, hv, hflows⟩ := h.flow.exists_flowsInto hl
      cases List.mem_singleton.mp hv
      exact ⟨Scene.isInput_of_mem_inputs hl, hflows⟩

/-- Valid options make a connected scene of any number of slides, whatever the frame and the random
directions. -/
theorem Scene.exists_connected {o : SceneOptions Rat} (ho : o.validate = .ok ()) (size : ℕ × ℕ)
    (words : Words) {n : ℕ} (hn : 1 ≤ n) :
    ∃ scene, Scene.assemble (.ofOptions o size words) n = .ok scene ∧ scene.Connected n := by
  obtain ⟨scene, hscene, hholds⟩ :=
    exists_assemble_ofOptions (SceneOptions.timed_of_validate ho) (fun x => Rat.mul_comm 2 x)
      size words hn
  exact ⟨scene, hscene, hholds.connected⟩

theorem Scene.exists_connected_overlapping : overlapping.validate = .ok () ∧ 1 ≤ 3 ∧
    ∃ scene, Scene.assemble (.ofOptions overlapping (1280, 720) [7]) 3 = .ok scene ∧
      scene.Connected 3 :=
  ⟨overlapping_valid, by decide,
    Scene.exists_connected overlapping_valid (1280, 720) [7] (by decide)⟩

end Slideshow
