import Slideshow.Worker.Handle
import Slideshow.Proofs.Filter.Tracing
import Slideshow.Proofs.Scene.Assemble

/-! # Plans that can always be made

Slides whose timing is right can be shown, parts can be joined, and a track can be laid under a
finished video, whatever the paths, the lengths and the random words. -/

namespace Slideshow

open Slideshow.Graph

variable {α : Type} [Scalar α]

/-- Stages one after another. -/
theorem Filter.compileChain_cons {filter : Filter α} {rest : List (Filter α)} {inputs : List Label}
    {first last : Stage} (hfirst : filter.compile inputs = .ok first)
    (hlast : compileChain first.outputs rest = .ok last) :
    compileChain inputs (filter :: rest) = .ok ⟨first.ops ++ last.ops, last.outputs⟩ := by
  rw [compileChain, hfirst]
  change (do
    let last ← compileChain first.outputs rest
    return (⟨first.ops ++ last.ops, last.outputs⟩ : Stage)) = _
  rw [hlast]
  rfl

/-- Operations that can be added are those of a filter. -/
theorem Filter.run_appendTo {filter : Filter α} {inputs outputs : List Label}
    {ops : List Operation} {g g' : Graph} (hcompile : filter.compile inputs = .ok ⟨ops, outputs⟩)
    (hpush : (pushAll ops).run g = (.ok (), g')) :
    (filter.appendTo inputs).run g = (.ok outputs, g') := by
  have hends : (filter.appendTo inputs).Ends g False fun outs g'' => outs = outputs ∧ g'' = g' := by
    rw [appendTo, hcompile]
    exact Build.ends_bind_of_run rfl (Build.ends_bind_of_run hpush (Build.ends_pure ⟨rfl, rfl⟩))
  obtain ⟨_, _, hrun, rfl, rfl⟩ := hends.exists_run id
  exact hrun

/-! ## Tracks -/

namespace AudioFit

/-- A track is repeated at least once. -/
theorem repetitions_pos (native target : α) : 0 < (compute native target).repetitions := by
  unfold compute
  dsimp only
  split
  · exact Nat.lt_of_lt_of_le Nat.one_pos (Nat.le_max_left 1 _)
  · exact Nat.one_pos

/-! The labelers of a track that is fitted when `k` labelers were handed out. -/

def copies (k : ℕ) : Labeler := ⟨"alp" ++ Decimal.natText k⟩

def joined (k : ℕ) : Labeler := ⟨"acat" ++ Decimal.natText (k + 1)⟩

def faded (k : ℕ) : Labeler := ⟨"aud" ++ Decimal.natText (k + 2)⟩

theorem named_copies (k : ℕ) : (copies k).Named k := ⟨"alp", rfl, by simp⟩

theorem named_joined (k : ℕ) : (joined k).Named (k + 1) := ⟨"acat", rfl, by simp⟩

theorem named_faded (k : ℕ) : (faded k).Named (k + 2) := ⟨"aud", rfl, by simp⟩

/-- The operations that fit a track: it is copied, joined with itself, and faded out. -/
def operations (k : ℕ) (input : Label) (count : ℕ) (fade : String) : List Operation :=
  [⟨[input], "asplit=" ++ Decimal.natText count, (List.range count).map (copies k).label⟩,
   ⟨(List.range count).map (copies k).label, "concat=n=" ++ Decimal.natText count ++ ":v=0:a=1",
     [(joined k).label 0]⟩,
   ⟨[(joined k).label 0], fade, [(faded k).label 0]⟩]

/-- How the end of a track is cut and faded. -/
def ending (fit : AudioFit α) : String :=
  ",".intercalate
    ["atrim=duration=" ++ Scalar.filterText fit.duration ++ ",asetpts=PTS-STARTPTS",
     "afade=t=out:st=" ++ Scalar.filterText fit.fadeStart ++ ":d=" ++
       Scalar.filterText fit.fadeLength]

theorem compile_chain (k : ℕ) (input : Label) (fit : AudioFit α) (hcount : 0 < fit.repetitions) :
    (Filter.chain [.audioLoop (copies k) fit.repetitions,
      .concat (joined k) .audio fit.repetitions,
      .combine (faded k) [.audioTrim fit.duration, .audioFade fit.fadeStart fit.fadeLength] 0]
        ).compile [input] =
      .ok ⟨operations k input fit.repetitions fit.ending, [(faded k).label 0]⟩ := by
  have hne : fit.repetitions ≠ 0 := Nat.ne_of_gt hcount
  let looped := (List.range fit.repetitions).map (copies k).label
  have hloop : (Filter.audioLoop (copies k) fit.repetitions : Filter α).compile [input] =
      .ok ⟨[⟨[input], "asplit=" ++ Decimal.natText fit.repetitions, looped⟩], looped⟩ := by
    simp [Filter.compile, Filter.compileSplit, Filter.splitName, hne, looped]
  have hjoin : (Filter.concat (joined k) .audio fit.repetitions : Filter α).compile looped = .ok
      ⟨[⟨looped, "concat=n=" ++ Decimal.natText fit.repetitions ++ ":v=0:a=1",
        [(joined k).label 0]⟩], [(joined k).label 0]⟩ := by
    simp [Filter.compile, Filter.compileConcat, hne, looped]
  have hfade : (Expression.sequence
      [.audioTrim fit.duration, .audioFade fit.fadeStart fit.fadeLength]).text 0 =
        .ok fit.ending := rfl
  have hend : (Filter.combine (faded k)
      [.audioTrim fit.duration, .audioFade fit.fadeStart fit.fadeLength] 0).compile
      [(joined k).label 0] = .ok ⟨[⟨[(joined k).label 0], fit.ending, [(faded k).label 0]⟩],
        [(faded k).label 0]⟩ := by
    simp [Filter.compile, Filter.compileCombine, hfade]
  rw [Filter.compile]
  exact Filter.compileChain_cons hloop
    (Filter.compileChain_cons hjoin (Filter.compileChain_cons hend (by rw [Filter.compileChain])))

variable {k count : ℕ} {input : Label} {fade : String}

theorem nodup_operations :
    ((operations k input count fade).flatMap Operation.outputs).Nodup := by
  have hdistinct : ((List.range count).map (copies k).label).Nodup :=
    List.nodup_range.map fun _ _ => Labeler.label_inj
  simp [operations, List.nodup_append, hdistinct,
    (named_copies k).label_ne (named_joined k) (by omega),
    (named_copies k).label_ne (named_faded k) (by omega),
    (named_joined k).label_ne (named_faded k) (by omega)]

/-- What is given is numbered from `k` on. -/
theorem exists_named_of_mem {l : Label}
    (h : l ∈ (operations k input count fade).flatMap Operation.outputs) :
    ∃ (labels : Labeler) (m c : ℕ), k ≤ m ∧ labels.Named m ∧ l = labels.label c := by
  simp only [operations, List.flatMap_cons, List.flatMap_nil, List.append_nil, List.mem_append,
    List.mem_map, List.mem_singleton] at h
  rcases h with ⟨c, -, rfl⟩ | rfl | rfl
  · exact ⟨copies k, k, c, Nat.le_refl k, named_copies k, rfl⟩
  · exact ⟨joined k, k + 1, 0, by omega, named_joined k, rfl⟩
  · exact ⟨faded k, k + 2, 0, by omega, named_faded k, rfl⟩

theorem isInput_of_mem {l : Label}
    (h : l ∈ (operations k input count fade).flatMap Operation.outputs) : l.isInput = false := by
  obtain ⟨labels, m, c, -, hnamed, rfl⟩ := exists_named_of_mem h
  exact hnamed.isInput_label c

theorem givenOnce_operations : GivenOnce (operations k input count fade) :=
  ⟨nodup_operations, fun _ => isInput_of_mem⟩

/-- What the graph has is no input or numbered, so that what is given is new. -/
theorem new_of_mem {g : Graph} {l l' : Label} (h : l.isInput = true ∨ g.Numbered l)
    (hl' : l' ∈ (operations g.stages input count fade).flatMap Operation.outputs) : l ≠ l' := by
  obtain ⟨labels, m, c, hm, hnamed, rfl⟩ := exists_named_of_mem hl'
  rcases h with h | ⟨labels', m', c', hm', hnamed', rfl⟩
  · rintro rfl
    rw [hnamed.isInput_label c] at h
    cases h
  · exact hnamed'.label_ne hnamed (by omega)

/-- A track can be fitted in any graph; its operations come last. -/
theorem exists_apply (native target : α) (hinput : input.isInput = true) {g : Graph}
    (hused : ∀ l, l ∈ g.produced ∨ l ∈ g.consumed → l.isInput = true ∨ g.Numbered l) :
    ∃ g', (apply input native target).run g =
        (.ok ((faded g.stages).label 0, compute native target), g') ∧
      g'.ops = g.ops ++ operations g.stages input (compute native target).repetitions
        (compute native target).ending := by
  have hcount := repetitions_pos native target
  have hcompile := compile_chain g.stages input _ hcount
  set ops := operations g.stages input (compute native target).repetitions
    (compute native target).ending with hdef
  have houts : ∀ op ∈ ops, op.outputs ≠ [] := by
    simpa [hdef, operations] using Nat.ne_of_gt hcount
  have hnew : ∀ l ∈ ops.flatMap Operation.outputs,
      l.isInput = false ∧ l ∉ g.produced ∧ l ∉ g.consumed :=
    fun l hl => ⟨isInput_of_mem hl, fun hmem => new_of_mem (hused l (.inl hmem)) hl rfl,
      fun hmem => new_of_mem (hused l (.inr hmem)) hl rfl⟩
  have hlinked : Linked [input] ops := ⟨rfl, rfl, rfl, trivial⟩
  obtain ⟨g', hpush, hops⟩ := exists_pushAll_of_linked hlinked
    (g := { g with stages := g.stages + 3 }) (by simp [hinput]) (by simp) (by simp) houts
    nodup_operations hnew
  have hends : Build.Ends (apply input native target) g False fun r g'' =>
      r = ((faded g.stages).label 0, compute native target) ∧ g'' = g' := by
    refine Build.ends_bind_of_run rfl (Build.ends_bind_of_run rfl (Build.ends_bind_of_run rfl ?_))
    exact Build.ends_bind_of_run (Filter.run_appendTo hcompile hpush) (Build.ends_pure ⟨rfl, rfl⟩)
  obtain ⟨_, _, hrun, rfl, rfl⟩ := hends.exists_run id
  exact ⟨_, hrun, hops⟩

end AudioFit

/-! ## Plans -/

namespace RenderPlan

/-- A video is given a track by the operations that fit it, and nothing else. -/
theorem remuxWithAudio_eq (video track : String) (native target : α) :
    ∃ graph fit fade, remuxWithAudio video track native target =
        .ok (⟨[.file video, .file track], graph, .video 0, some ((AudioFit.faded 0).label 0), true,
          some target⟩, fit) ∧
      graph.ops = AudioFit.operations 0 (.audio 1) (AudioFit.compute native target).repetitions
        fade := by
  obtain ⟨g, hrun, hops⟩ := AudioFit.exists_apply native target (Label.isInput_audio 1)
    (g := {}) (by simp)
  have happly : AudioFit.apply (Label.audio 1) native target {} =
      (.ok ((AudioFit.faded 0).label 0, .compute native target), g) := hrun
  rw [remuxWithAudio]
  simp only [ExceptT.run, happly]
  exact ⟨g, _, _, rfl, hops⟩

/-- A video can be given a track. -/
theorem exists_remuxWithAudio (video track : String) (native target : α) :
    ∃ plan fit, remuxWithAudio video track native target = .ok (plan, fit) ∧
      plan.audio.isSome = true := by
  obtain ⟨_, fit, _, hplan, -⟩ := remuxWithAudio_eq video track native target
  exact ⟨_, fit, hplan, rfl⟩

/-- A plan of known duration is given a track by further operations. -/
theorem withAudio_eq (plan : RenderPlan α) {target : α} (htarget : plan.duration = some target)
    (hused : ∀ l, l ∈ plan.graph.produced ∨ l ∈ plan.graph.consumed →
      l.isInput = true ∨ plan.graph.Numbered l) (track : String) (native : α) :
    ∃ graph fit fade, plan.withAudio track native =
        .ok ({ plan with
          inputs := plan.inputs ++ [.file track], graph
          audio := some ((AudioFit.faded plan.graph.stages).label 0) }, fit) ∧
      graph.ops = plan.graph.ops ++ AudioFit.operations plan.graph.stages
        (.audio plan.inputs.length) (AudioFit.compute native target).repetitions fade := by
  obtain ⟨g, hrun, hops⟩ := AudioFit.exists_apply native target
    (Label.isInput_audio plan.inputs.length) hused
  have happly : AudioFit.apply (Label.audio plan.inputs.length) native target plan.graph =
      (.ok ((AudioFit.faded plan.graph.stages).label 0, .compute native target), g) := hrun
  rw [withAudio]
  simp only [htarget, ExceptT.run, happly]
  exact ⟨g, _, _, rfl, hops⟩

theorem exists_joinParts {count : ℕ} (h : 0 < count) :
    ∃ video picture g, (joinParts (α := α) count).run {} = (.ok [video], g) ∧
      Holds (Scene.inputs count) [(video, picture)] g := by
  have hends : (joinParts (α := α) count).Ends {} False fun outs g =>
      ∃ video picture, outs = [video] ∧ Holds (Scene.inputs count) [(video, picture)] g := by
    refine ((Scene.holds_inputs count).labeler (by simp)).bind ?_
    rintro labels g ⟨hfresh, hg⟩
    have hins : ((Scene.inputs count).map fun l => (l, Picture.input l)).map Prod.fst =
        Scene.inputs count := by
      simp [Function.comp_def]
    have hlength : ((Scene.inputs count).map fun l => (l, Picture.input l)).length = count := by
      simp [Scene.inputs]
    rw [← List.append_nil (List.map _ _)] at hg
    have hne : ((Scene.inputs count).map fun l => (l, Picture.input l)) ≠ [] :=
      List.ne_nil_of_length_pos (by rwa [hlength])
    have hconcat : Build.Ends _ g False _ := hg.concat (α := α) hfresh hne
    rw [hins, hlength] at hconcat
    refine hconcat.mono ?_
    rintro outs g' ⟨video, houts, -, hg'⟩
    exact ⟨video, _, houts, hg'⟩
  obtain ⟨_, g, hrun, video, picture, rfl, hg⟩ := hends.exists_run id
  exact ⟨video, picture, g, hrun, hg⟩

/-- Parts are joined by one operation. -/
theorem concat_eq {segments : List String} (h : segments ≠ []) :
    ∃ video picture graph,
      concat (α := α) segments = .ok ⟨segments.map .file, graph, video, none, false, none⟩ ∧
      Holds (Scene.inputs segments.length) [(video, picture)] graph := by
  obtain ⟨video, picture, g, hrun, hg⟩ := exists_joinParts (α := α) (List.length_pos_iff.mpr h)
  have hjoin : joinParts (α := α) segments.length {} = (.ok [video], g) := hrun
  have hnil : segments.isEmpty = false := List.isEmpty_eq_false_iff.mpr h
  rw [concat]
  simp only [hnil, ExceptT.run, hjoin, Bool.false_eq_true, if_false]
  exact ⟨video, picture, g, rfl, hg⟩

/-- Any parts can be joined, in order. -/
theorem exists_concat {segments : List String} (h : segments ≠ []) :
    ∃ plan : RenderPlan α, concat segments = .ok plan ∧ plan.inputs = segments.map .file := by
  obtain ⟨_, _, _, hplan, -⟩ := concat_eq (α := α) h
  exact ⟨_, hplan, rfl⟩

/-- A slideshow binds the slides that it needs to the scene that they make. -/
theorem of_slideshow {slides : List Slide} {s : SceneSpec α} {plan : RenderPlan α}
    (h : slideshow slides s = .ok plan) :
    ∃ scene, Scene.assemble s (neededSlides slides s).length = .ok scene ∧
      plan = ⟨(neededSlides slides s).map fun slide => slide.input s.sceneDuration, scene.graph,
        scene.video, none, false, some scene.duration⟩ := by
  unfold slideshow at h
  dsimp only at h
  cases hscene : Scene.assemble s (neededSlides slides s).length with
  | error e =>
      rw [hscene] at h
      cases h
  | ok scene =>
      rw [hscene] at h
      cases h
      exact ⟨scene, rfl, rfl⟩

/-- A slideshow has what is needed to fit a track. -/
theorem withAudio_of_slideshow {slides : List Slide} {s : SceneSpec α} {plan : RenderPlan α}
    (h : slideshow slides s = .ok plan) (track : String) (native : α) :
    ∃ target graph fit fade, plan.withAudio track native =
        .ok ({ plan with
          inputs := plan.inputs ++ [.file track], graph
          audio := some ((AudioFit.faded plan.graph.stages).label 0) }, fit) ∧
      graph.ops = plan.graph.ops ++ AudioFit.operations plan.graph.stages
        (.audio plan.inputs.length) (AudioFit.compute native target).repetitions fade := by
  obtain ⟨scene, hscene, hplan⟩ := of_slideshow h
  have htarget : plan.duration = some scene.duration := by rw [hplan]
  have hused : ∀ l, l ∈ plan.graph.produced ∨ l ∈ plan.graph.consumed →
      l.isInput = true ∨ plan.graph.Numbered l := by
    rw [hplan]
    exact fun _ => (Scene.holds_of_assemble hscene).used
  exact ⟨scene.duration, withAudio_eq plan htarget hused track native⟩

/-- Any slides can be shown. -/
theorem exists_slideshow {o : SceneOptions α} (ho : o.Timed)
    (hdouble : ∀ x : α, Scalar.ofNat 2 * x = x * Scalar.ofNat 2) {slides : List Slide}
    (h : slides ≠ []) (size : ℕ × ℕ) (words : Words) :
    ∃ plan, slideshow slides (SceneSpec.ofOptions o size words) = .ok plan := by
  have hneeded : 0 < (neededSlides slides (SceneSpec.ofOptions o size words)).length := by
    have hlength := List.length_pos_iff.mpr h
    unfold neededSlides
    split
    · rename_i hdropped
      simp only [Bool.and_eq_true, decide_eq_true_eq] at hdropped
      simp only [List.length_drop]
      omega
    · exact hlength
  obtain ⟨scene, hscene, -⟩ := Scene.exists_assemble_ofOptions ho hdouble size words hneeded
  rw [slideshow, hscene]
  exact ⟨_, rfl⟩

end RenderPlan

namespace Worker

theorem exists_slideshowPlan {o : SceneOptions α} (ho : o.Timed)
    (hdouble : ∀ x : α, Scalar.ofNat 2 * x = x * Scalar.ofNat 2) {paths : List String}
    (h : paths ≠ []) (words : Words) : ∃ plan, slideshowPlan paths o words = .ok plan :=
  RenderPlan.exists_slideshow ho hdouble (by simpa using h) _ words

end Worker

end Slideshow
