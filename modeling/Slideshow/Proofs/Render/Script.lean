import Slideshow.Proofs.Filter.Legible
import Slideshow.Proofs.Render.Plan

/-! # Scripts tell the graph

Whatever is put together, joined or given a track, the text that the renderer is handed says exactly
which operations there are, and in which order. -/

namespace Slideshow

open Slideshow.Graph

variable {α : Type} [Scalar α]

/-- Streams that are joined leave an operation behind. -/
theorem Graph.Legible.concat [BareNumbers α] {g : Graph} {streams : List Label} (h : g.Legible)
    {labels : Labeler} (hlabels : Bare labels.stem) {kind : StreamKind} {count : ℕ} (hstreams : ∀ l ∈ streams, l.Legible) :
    ((Filter.concat labels kind count : Filter α).appendTo streams).Ends g True fun outs g' =>
      (∀ l ∈ outs, l.Legible) ∧ g'.Legible ∧ g'.ops ≠ [] := by
  have hfilter : (Filter.concat labels kind count : Filter α).Legible :=
    Filter.legible_of_labelers_eq rfl hlabels trivial
  refine (h.appendTo hfilter hstreams).mono ?_
  rintro outs g' ⟨stage, hcompile, hops, houts, h'⟩
  refine ⟨houts, h', ?_⟩
  rw [Filter.compile] at hcompile
  unfold Filter.compileConcat at hcompile
  split at hcompile
  · cases hcompile
  · split at hcompile
    · cases hcompile
    · cases hcompile
      simp [hops]

/-! ## Scenes -/

/-- The names of all streams that are cut out of a slide can be read. -/
structure SlideCuts.Legible (c : SlideCuts) : Prop where
  lead : ∀ l ∈ c.lead, l.Legible
  body : ∀ l ∈ c.body, l.Legible
  tail : ∀ l ∈ c.tail, l.Legible

namespace Scene

variable [BareNumbers α] {g : Graph} {streams copies : List Label} {input scene : Label}
  {s : SceneSpec α}

theorem legible_of_mem_inputs {n : ℕ} : ∀ l ∈ inputs n, l.Legible := by
  intro l hl
  obtain ⟨i, -, rfl⟩ := mem_inputs_iff.mp hl
  exact Label.legible_video i

theorem ends_single (streams : List Label) (g : Graph) :
    (single streams).Ends g True fun l g' => l ∈ streams ∧ g' = g := by
  match streams with
  | [] => trivial
  | [l] => exact Build.ends_pure ⟨List.mem_singleton_self l, rfl⟩
  | _ :: _ :: _ => trivial

theorem legible_join (h : g.Legible) (hstreams : ∀ l ∈ streams, l.Legible) :
    (join (α := α) streams).Ends g True fun l g' => l.Legible ∧ g'.Legible ∧ g'.ops ≠ [] := by
  refine (h.labeler (by decide)).bind fun labels g₁ ⟨hlabels, h₁⟩ => ?_
  refine (h₁.concat (α := α) hlabels hstreams).bind fun outs g₂ ⟨houts, h₂⟩ => ?_
  refine (ends_single outs g₂).mono ?_
  rintro l _ ⟨hl, rfl⟩
  exact ⟨houts l hl, h₂⟩

/-- Every slide is scaled, cut and so on by itself. -/
theorem legible_slides (h : g.Legible) {parts : List (Expression α)}
    (hparts : Expression.FirstActs parts) (n : ℕ) :
    Build.Ends (do
      let labels ← labeler "scn"
      (Filter.combine labels parts 0).appendTo (inputs n)) g True fun outs g' =>
      (∀ l ∈ outs, l.Legible) ∧ g'.Legible :=
  h.appendNamed (by decide) (fun _ => rfl) (fun _ => hparts) legible_of_mem_inputs

theorem legible_cut (h : g.Legible) (hinput : input.Legible) (w : Window α)
    (zoom : Option (PanZoom α)) (slide : ℕ) :
    (cut input w zoom slide).Ends g True fun l g' => l.Legible ∧ g'.Legible := by
  refine (h.labeler (by decide)).bind fun labels g₁ ⟨hlabels, h₁⟩ => ?_
  have hfilter : (Filter.combine labels (cutParts w zoom) slide).Legible :=
    Filter.legible_of_labelers_eq rfl hlabels trivial
  refine (h₁.appendTo hfilter (List.forall_mem_singleton.mpr hinput)).bind
    fun outs g₂ ⟨_, _, _, houts, h₂⟩ => ?_
  refine (ends_single outs g₂).mono ?_
  rintro l _ ⟨hl, rfl⟩
  exact ⟨houts l hl, h₂⟩

theorem legible_cutNext (h : g.Legible) (hcopies : ∀ l ∈ copies, l.Legible)
    (w : Option (Window α)) (zoom : Option (PanZoom α)) (slide : ℕ) :
    (cutNext copies w zoom slide).Ends g True fun r g' =>
      (∀ l ∈ r.1, l.Legible) ∧ (∀ l ∈ r.2, l.Legible) ∧ g'.Legible := by
  cases w with
  | none => exact Build.ends_pure ⟨(fun l hl => nomatch hl), hcopies, h⟩
  | some w =>
      cases copies with
      | nil => trivial
      | cons copy copies =>
          obtain ⟨hcopy, hcopies⟩ := List.forall_mem_cons.mp hcopies
          refine (legible_cut h hcopy w zoom slide).bind fun l g' ⟨hl, h'⟩ => ?_
          have hcut : ∀ l' ∈ some l, l'.Legible := by
            rintro _ ⟨⟩
            exact hl
          exact Build.ends_pure ⟨hcut, hcopies, h'⟩

theorem legible_copies (h : g.Legible) (hscene : scene.Legible) (k : ℕ) :
    Build.Ends (if 1 < k then do
      let labels ← labeler "spl"
      (Filter.split labels .video k : Filter α).appendTo [scene]
      else pure [scene]) g True fun outs g' => (∀ l ∈ outs, l.Legible) ∧ g'.Legible := by
  have hscene' : ∀ l ∈ [scene], l.Legible := List.forall_mem_singleton.mpr hscene
  split
  · exact h.appendNamed (by decide) (fun _ => rfl) (fun _ => trivial) hscene'
  · exact Build.ends_pure ⟨hscene', h⟩

theorem legible_cutSlide (h : g.Legible) (hscene : scene.Legible) (n i : ℕ) :
    (cutSlide s n i scene).Ends g True fun cuts g' => cuts.Legible ∧ g'.Legible := by
  rw [cutSlide_eq]
  refine (legible_copies (α := α) h hscene _).bind fun copies g₁ ⟨hcopies, h₁⟩ => ?_
  refine (legible_cutNext h₁ hcopies _ none i).bind fun lead g₂ ⟨hlead, hcopies₂, h₂⟩ => ?_
  refine (legible_cutNext h₂ hcopies₂ _ (bodyZoom s) i).bind
    fun body g₃ ⟨hbody, hcopies₃, h₃⟩ => ?_
  refine (legible_cutNext h₃ hcopies₃ _ none i).bind fun tail g₄ ⟨htail, _, h₄⟩ => ?_
  exact Build.ends_pure ⟨⟨hlead, hbody, htail⟩, h₄⟩

theorem legible_cutSlides (h : g.Legible) (hstreams : ∀ l ∈ streams, l.Legible) (n i : ℕ) :
    (cutSlides s n i streams).Ends g True fun cuts g' =>
      (∀ c ∈ cuts, c.Legible) ∧ g'.Legible := by
  induction streams generalizing i g with
  | nil => exact Build.ends_pure ⟨List.forall_mem_nil _, h⟩
  | cons scene streams ih =>
      obtain ⟨hscene, hstreams⟩ := List.forall_mem_cons.mp hstreams
      refine (legible_cutSlide h hscene n i).bind fun cuts g₁ ⟨hcuts, h₁⟩ => ?_
      refine (ih h₁ hstreams (i + 1)).bind fun rest g₂ ⟨hrest, h₂⟩ => ?_
      exact Build.ends_pure ⟨List.forall_mem_cons.mpr ⟨hcuts, hrest⟩, h₂⟩

theorem legible_boundaryPairs {cuts : List SlideCuts} (h : g.Legible)
    (hcuts : ∀ c ∈ cuts, c.Legible) :
    (boundaryPairs cuts).Ends g True fun pairs g' => (∀ l ∈ pairs, l.Legible) ∧ g'.Legible := by
  have hpresent : ∀ {o : Option Label} {g : Graph}, (∀ l ∈ o, l.Legible) →
      (present o).Ends g True fun l g' => l.Legible ∧ g' = g := by
    intro o g ho
    cases o with
    | none => trivial
    | some l => exact Build.ends_pure ⟨ho l rfl, rfl⟩
  induction cuts using boundaryPairs.induct with
  | case1 a b rest ih =>
      obtain ⟨ha, hrest⟩ := List.forall_mem_cons.mp hcuts
      have hb := hrest b List.mem_cons_self
      rw [boundaryPairs]
      refine (hpresent ha.tail).bind ?_
      rintro tail _ ⟨htail, rfl⟩
      refine (hpresent hb.lead).bind ?_
      rintro lead _ ⟨hlead, rfl⟩
      refine (ih hrest).bind ?_
      rintro pairs g' ⟨hpairs, h'⟩
      refine Build.ends_pure ⟨?_, h'⟩
      exact List.forall_mem_cons.mpr ⟨htail, List.forall_mem_cons.mpr ⟨hlead, hpairs⟩⟩
  | case2 cuts hshort =>
      rw [boundaryPairs]
      · exact Build.ends_pure ⟨List.forall_mem_nil _, h⟩
      · exact hshort

theorem legible_transitions (h : g.Legible) (hpairs : ∀ l ∈ streams, l.Legible) :
    Build.Ends (if streams.isEmpty then pure [] else do
      let labels ← labeler "wip"
      (Filter.overlayWipe labels s.transitionDuration s.wipe).appendTo streams) g True
      fun outs g' => (∀ l ∈ outs, l.Legible) ∧ g'.Legible := by
  split
  · exact Build.ends_pure ⟨List.forall_mem_nil _, h⟩
  · exact h.appendNamed (by decide) (fun _ => rfl) (fun _ => trivial) hpairs

theorem legible_interleave {bodies : List (Option Label)} {transitions : List Label}
    (hbodies : ∀ o ∈ bodies, ∀ l ∈ o, l.Legible) (htransitions : ∀ l ∈ transitions, l.Legible) :
    ∀ l ∈ interleave bodies transitions, l.Legible := by
  have hbody : ∀ {o : Option Label}, (∀ l ∈ o, l.Legible) → ∀ l ∈ o.toList, l.Legible :=
    fun ho l hl => ho l (Option.mem_toList.mp hl)
  fun_induction interleave bodies transitions with
  | case1 => exact List.forall_mem_nil _
  | case2 body bodies ih =>
      obtain ⟨ho, hbodies⟩ := List.forall_mem_cons.mp hbodies
      exact List.forall_mem_append.mpr ⟨hbody ho, ih hbodies htransitions⟩
  | case3 body bodies transition rest ih =>
      obtain ⟨ho, hbodies⟩ := List.forall_mem_cons.mp hbodies
      obtain ⟨htransition, hrest⟩ := List.forall_mem_cons.mp htransitions
      exact List.forall_mem_append.mpr ⟨hbody ho,
        List.forall_mem_cons.mpr ⟨htransition, ih hbodies hrest⟩⟩

theorem legible_assembleCut (s : SceneSpec α) (n : ℕ) :
    (assembleCut s n).Ends {} True fun _ g => g.Legible ∧ g.ops ≠ [] := by
  have hparts : Expression.FirstActs (cutSceneParts s) := trivial
  rw [assembleCut_eq]
  refine (legible_slides legible_nil hparts n).bind fun scenes g₁ ⟨hscenes, h₁⟩ => ?_
  exact (legible_join (α := α) h₁ hscenes).bind fun video g₂ ⟨_, h₂⟩ => Build.ends_pure h₂

theorem legible_assembleWipe (s : SceneSpec α) (n : ℕ) :
    (assembleWipe s n).Ends {} True fun _ g => g.Legible ∧ g.ops ≠ [] := by
  have hparts : Expression.FirstActs (wipeSceneParts s) := trivial
  rw [assembleWipe_eq]
  refine (legible_slides legible_nil hparts n).bind fun scenes g₁ ⟨hscenes, h₁⟩ => ?_
  refine (legible_cutSlides h₁ hscenes n 0).bind fun cuts g₂ ⟨hcuts, h₂⟩ => ?_
  refine (legible_boundaryPairs h₂ hcuts).bind fun pairs g₃ ⟨hpairs, h₃⟩ => ?_
  refine (legible_transitions h₃ hpairs).bind fun transitions g₄ ⟨htransitions, h₄⟩ => ?_
  have hbodies : ∀ o ∈ cuts.map SlideCuts.body, ∀ l ∈ o, l.Legible :=
    List.forall_mem_map.mpr fun c hc => (hcuts c hc).body
  exact (legible_join (α := α) h₄ (legible_interleave hbodies htransitions)).bind
    fun video g₅ ⟨_, h₅⟩ => Build.ends_pure h₅

theorem legible_of_assemble {n : ℕ} {scene : Scene α} (h : assemble s n = .ok scene) :
    scene.graph.Legible ∧ scene.graph.ops ≠ [] := by
  obtain ⟨-, -, hrun⟩ := run_of_assemble h
  split at hrun
  · exact (legible_assembleWipe s n).of_run hrun
  · exact (legible_assembleCut s n).of_run hrun

end Scene

/-! ## Tracks -/

section Track

variable [BareNumbers α] {g : Graph} {input : Label}

/-- A track is fitted by operations that can be read, if the stream can that it is made of. -/
theorem AudioFit.legible_apply (h : g.Legible) (hinput : input.isInput = true → input.Legible)
    (native target : α) :
    (apply input native target).Ends g True fun _ g' => g'.Legible ∧ g'.ops ≠ [] := by
  let fit := compute native target
  let filter : Filter α := .chain [.audioLoop (copies g.stages) fit.repetitions,
    .concat (joined g.stages) .audio fit.repetitions,
    .combine (faded g.stages) [.audioTrim fit.duration, .audioFade fit.fadeStart fit.fadeLength] 0]
  have hfilter : filter.Legible := by
    refine ⟨?_, trivial, trivial, trivial, trivial⟩
    simp only [filter, Filter.labelers, Filter.labelersOf, List.cons_append, List.nil_append,
      List.forall_mem_cons, List.not_mem_nil, false_implies, implies_true, and_true]
    simp only [copies, joined, faded, bare_append, bare_natText, and_true]
    decide
  have hcompile : filter.compile [input] = _ :=
    compile_chain g.stages input fit (repetitions_pos native target)
  have h₃ : Legible { g with stages := g.stages + 3 } := ⟨h.ops, h.produced⟩
  refine Build.ends_bind_of_run rfl (Build.ends_bind_of_run rfl (Build.ends_bind_of_run rfl ?_))
  have happend : (filter.appendTo [input]).Ends { g with stages := g.stages + 3 } True
      fun _ g' => g'.Legible ∧ g'.ops ≠ [] := by
    by_cases hlegible : input.Legible
    · refine (h₃.appendTo hfilter (List.forall_mem_singleton.mpr hlegible)).mono ?_
      rintro outs g' ⟨stage, hstage, hops, -, h'⟩
      cases hstage.symm.trans hcompile
      exact ⟨h', by simp [hops, operations]⟩
    · -- the graph does not take what it was not given
      refine (ends_appendTo filter [input] _).mono ?_
      rintro outs g' ⟨stage, hstage, hrun, -⟩
      cases hstage.symm.trans hcompile
      exact (hlegible (h₃.of_taken hrun (List.forall_mem_singleton.mpr hinput) input
        (List.mem_singleton_self input))).elim
  refine happend.bind fun outs g' h' => ?_
  split
  · exact Build.ends_pure h'
  · trivial

end Track

/-! ## Parts -/

theorem RenderPlan.legible_of_concat [BareNumbers α] {segments : List String} {plan : RenderPlan α}
    (h : concat segments = .ok plan) : plan.graph.Legible ∧ plan.graph.ops ≠ [] := by
  have hjoin : (joinParts (α := α) segments.length).Ends {} True fun _ g =>
      g.Legible ∧ g.ops ≠ [] := by
    refine (legible_nil.labeler (by decide)).bind fun labels g₁ ⟨hlabels, h₁⟩ => ?_
    exact (h₁.concat hlabels Scene.legible_of_mem_inputs).mono fun _ _ ⟨_, h'⟩ => h'
  unfold concat at h
  split at h
  · cases h
  · split at h
    · cases h
    · rename_i hrun
      cases h
      exact hjoin.of_run hrun
    · cases h

/-! ## Graphs that are rendered -/

namespace Graph

/-- The graphs that slides, parts and tracks are compiled to, also a track where there is one
already. An input is addressed by its number and its kind, or in any way that can be read. -/
inductive Compiled : Graph → Prop where
  | scene {s : SceneSpec Float} {n : ℕ} {scene : Scene Float} :
      Scene.assemble s n = .ok scene → Compiled scene.graph
  | parts {segments : List String} {plan : RenderPlan Float} :
      RenderPlan.concat segments = .ok plan → Compiled plan.graph
  | lone {input : Label} {native target : Float} {fitted : Label × AudioFit Float} {g : Graph} :
      (input.isInput = true → input.Legible) →
      (AudioFit.apply input native target).run {} = (.ok fitted, g) → Compiled g
  | track {input : Label} {native target : Float} {fitted : Label × AudioFit Float}
      {g g' : Graph} : Compiled g → (input.isInput = true → input.Legible) →
      (AudioFit.apply input native target).run g = (.ok fitted, g') → Compiled g'

namespace Compiled

variable {g : Graph}

theorem legible (h : Compiled g) : g.Legible ∧ g.ops ≠ [] := by
  induction h with
  | scene h => exact Scene.legible_of_assemble h
  | parts h => exact RenderPlan.legible_of_concat h
  | lone hinput hrun => exact (AudioFit.legible_apply legible_nil hinput _ _).of_run hrun
  | track _ hinput hrun ih => exact (AudioFit.legible_apply ih.1 hinput _ _).of_run hrun

/-- What is read from the text of a graph is its operations, in order. Graphs of different
operations therefore have different texts. -/
theorem script_denotes (h : Compiled g) : read? g.render = some g.ops ∧
    ∀ g', Compiled g' → g'.ops ≠ g.ops → g'.render ≠ g.render := by
  have hread : ∀ {g : Graph}, Compiled g → read? g.render = some g.ops :=
    fun h => read?_render h.legible.2 h.legible.1.ops
  refine ⟨hread h, fun g' h' hne htext => hne (Option.some.inj ?_)⟩
  rw [← hread h', ← hread h, htext]

/-- A track under two parts that are joined. -/
theorem script_denotes_trackUnderParts : ∃ (plan : RenderPlan Float)
    (fitted : Label × AudioFit Float) (g : Graph),
    RenderPlan.concat ["a.mp4", "b.mp4"] = .ok plan ∧
      (AudioFit.apply (.audio 2) 10 25).run plan.graph = (.ok fitted, g) ∧
      Compiled plan.graph ∧ Compiled g ∧ read? g.render = some g.ops ∧
      g.render ≠ plan.graph.render := by
  have hsegments : ["a.mp4", "b.mp4"] ≠ [] := by decide
  obtain ⟨video, picture, graph, hplan, hholds⟩ := RenderPlan.concat_eq (α := Float) hsegments
  obtain ⟨g, hrun, hops⟩ := AudioFit.exists_apply (10 : Float) 25 (Label.isInput_audio 2)
    (g := graph) fun l => hholds.used
  have hparts : Compiled graph := .parts hplan
  have htrack : Compiled g := .track hparts (fun _ => Label.legible_audio 2) hrun
  have hne : g.ops ≠ graph.ops := by simp [hops, AudioFit.operations]
  exact ⟨_, _, g, hplan, hrun, hparts, htrack, (script_denotes htrack).1,
    (script_denotes hparts).2 g htrack hne⟩

end Compiled

end Graph

end Slideshow
