import Slideshow.Proofs.Filter.Append
import Mathlib.Data.List.Pairwise

/-! # Filters exchange streams

Where all streams are named by labelers of the graph, a filter whose labelers have not been used can
always be appended once it compiles: no label is met twice. The streams that are open afterwards are
those that were open before, with the outputs of the filter in place of its inputs. -/

namespace Slideshow

instance : Std.Symm Labeler.Apart := ⟨fun _ _ h i j heq => h j i heq.symm⟩

namespace Graph

variable {g g' : Graph} {l : Label} {stage : Stage} {inputs : List Label}
  {labelers handed used : List Labeler}

/-! ## Graphs of labelers -/

/-- The graph came about by calls none of which failed. It has handed out these labelers, with stems
of letters as they have to be, and those of them that are in use name all streams that its operations
give. -/
inductive Labelled : List Labeler → List Labeler → Graph → Prop where
  | new : Labelled [] [] {}
  | labeler {handed used : List Labeler} {g : Graph} (stem : String) :
      Labelled handed used g → (∀ c ∈ stem.toList, c.isAlpha = true) →
      Labelled ((Graph.labeler stem g).1 :: handed) used (Graph.labeler stem g).2
  | push {handed used naming : List Labeler} {g g' : Graph} {op : Operation} :
      Labelled handed used g → naming ⊆ handed → (∀ l ∈ op.outputs, l.NamedBy naming) →
      (Graph.push op).run g = (.ok (), g') → Labelled handed (naming ++ used) g'
  | append {handed used naming : List Labeler} {g g' : Graph} {stage : Stage} {ls : List Label} :
      Labelled handed used g → naming ⊆ handed →
      (∀ l ∈ stage.ops.flatMap Operation.outputs, l.NamedBy naming) →
      (Graph.append stage).run g = (.ok ls, g') → Labelled handed (naming ++ used) g'

namespace Labelled

theorem built (h : Labelled handed used g) : g.Built := by
  induction h with
  | new => exact .new
  | labeler stem _ _ ih => exact .labeler stem ih
  | push _ _ _ hrun ih => exact .push ih hrun
  | append _ _ _ hrun ih => exact .append ih hrun

/-- Labelers have different numbers, so that no stream is named by two of them. -/
structure Tracked (handed used : List Labeler) (g : Graph) : Prop where
  numbered : ∀ labels ∈ handed, ∃ k < g.stages, labels.Named k
  apart : handed.Pairwise Labeler.Apart
  subset : used ⊆ handed
  named : ∀ l ∈ g.ops.flatMap Operation.outputs, l.NamedBy used

theorem Tracked.record {naming : List Labeler} {ops : List Operation}
    (h : Tracked handed used g) (hsubset : naming ⊆ handed)
    (hnamed : ∀ l ∈ ops.flatMap Operation.outputs, l.NamedBy naming) :
    Tracked handed (naming ++ used) (g.record ops) where
  numbered := h.numbered
  apart := h.apart
  subset := List.append_subset.mpr ⟨hsubset, h.subset⟩
  named l hl := by
    rw [Graph.record, List.flatMap_append, List.mem_append] at hl
    rcases hl with hl | hl
    · obtain ⟨labels, hlabels, hlabel⟩ := h.named l hl
      exact ⟨labels, List.mem_append_right _ hlabels, hlabel⟩
    · obtain ⟨labels, hlabels, hlabel⟩ := hnamed l hl
      exact ⟨labels, List.mem_append_left _ hlabels, hlabel⟩

theorem tracked (h : Labelled handed used g) : Tracked handed used g := by
  induction h with
  | new => exact ⟨by simp, .nil, List.Subset.refl _, by simp⟩
  | @labeler handed used g stem _ hstem ih =>
      have hnamed : (Graph.labeler stem g).1.Named g.stages := Labeler.named_of_isAlpha hstem _
      refine ⟨?_, List.pairwise_cons.mpr ⟨fun labels hlabels i j => ?_, ih.apart⟩,
        List.subset_cons_of_subset _ ih.subset, ih.named⟩
      · intro labels hlabels
        rcases List.mem_cons.mp hlabels with rfl | hlabels
        · exact ⟨g.stages, Nat.lt_succ_self _, hnamed⟩
        · obtain ⟨k, hk, hnamed'⟩ := ih.numbered labels hlabels
          exact ⟨k, Nat.lt_succ_of_lt hk, hnamed'⟩
      · obtain ⟨k, hk, hnamed'⟩ := ih.numbered labels hlabels
        exact hnamed.label_ne hnamed' (by omega)
  | push _ hsubset hnamed hrun ih =>
      rw [← run_pushAll_singleton] at hrun
      rw [eq_record_of_pushAll hrun]
      exact ih.record hsubset (by simpa using hnamed)
  | append _ hsubset hnamed hrun ih =>
      rw [eq_record_of_pushAll (pushAll_of_append hrun)]
      exact ih.record hsubset hnamed

/-- Two labelers that were handed out never give the same label. -/
theorem apart (h : Labelled handed used g) {labels labels' : Labeler} (hlabels : labels ∈ handed)
    (hlabels' : labels' ∈ handed) (hne : labels ≠ labels') : labels.Apart labels' :=
  h.tracked.apart.forall hlabels hlabels' hne

/-- No operation has met a stream of a labeler that is not in use. -/
theorem unused (h : Labelled handed used g) {labels : Labeler} (hlabels : labels ∈ handed)
    (hunused : labels ∉ used) (i : ℕ) :
    g.Free (labels.label i) ∧ labels.label i ∉ g.consumed := by
  obtain ⟨haccounted, hordered⟩ := h.built.accounted_and_ordered
  obtain ⟨k, -, hnamed⟩ := h.tracked.numbered labels hlabels
  have hgiven : labels.label i ∉ g.ops.flatMap Operation.outputs := by
    intro hl
    obtain ⟨labels', hlabels', j, heq⟩ := h.tracked.named _ hl
    have hne : labels ≠ labels' := fun heq => hunused (heq ▸ hlabels')
    exact h.apart hlabels (h.tracked.subset hlabels') hne i j heq
  refine ⟨⟨hnamed.isInput_label i, fun hl => hgiven ((haccounted.produced _).mp hl)⟩, fun hl => ?_⟩
  obtain ⟨hl, hinput⟩ := mem_inner.mp ((haccounted.consumed _).mp hl)
  obtain ⟨k, hk⟩ := exists_consumes_iff.mpr hl
  obtain ⟨j, -, hj⟩ := hordered.given_before k _ hk hinput
  exact hgiven (exists_produces_iff.mp ⟨j, hj⟩)

end Labelled

/-! ## Open streams -/

/-- An operation gives the stream and none takes it. -/
def Open (g : Graph) (l : Label) : Prop := (∃ k, g.Produces k l) ∧ ∀ k, ¬ g.Consumes k l

theorem Built.open_iff (h : g.Built) : g.Open l ↔ g.Available l := by
  obtain ⟨haccounted, -⟩ := h.accounted_and_ordered
  rw [Open, Available, exists_produces_iff, ← not_exists, exists_consumes_iff, haccounted.produced,
    haccounted.consumed, mem_inner]
  refine and_congr_right fun hmade => not_congr ?_
  rw [and_iff_left (h.givenOnce.isInput l hmade)]

/-- With the stage the graph has the outputs where it had the inputs. -/
structure Exchanges (g : Graph) (stage : Stage) (inputs : List Label) (g' : Graph) : Prop where
  nodup : stage.outputs.Nodup
  open_iff : ∀ l, g'.Open l ↔ l ∈ stage.outputs ∨ g.Open l ∧ l ∉ inputs
  /-- The places where operations take streams begin with one for each input, in order, and at no
  other place an input is taken. -/
  inputs_once : ∃ passed, stage.ops.flatMap Operation.inputs = inputs ++ passed ∧
    ∀ l ∈ passed, l ∉ inputs
  passed_once : ∀ l ∈ stage.ops.flatMap Operation.outputs, l ∉ stage.outputs →
    (stage.ops.flatMap Operation.inputs).count l = 1
  /-- All other streams that the stage knows of are new to the graph. -/
  others_new : ∀ op ∈ stage.ops, ∀ l, l ∈ op.inputs ∨ l ∈ op.outputs → l ∉ inputs →
    l.isInput = false ∧ ∀ k, ¬ g.Produces k l ∧ ¬ g.Consumes k l

/-! ## Appending a filter -/

/-- Labelers that are not in use and streams that are open are ready for a filter. -/
theorem Labelled.ready (h : Labelled handed used g) (hnodup : labelers.Nodup)
    (hhanded : labelers ⊆ handed) (hunused : labelers.Disjoint used)
    (hinputs : (inner inputs).Nodup) (hopen : ∀ l ∈ inner inputs, g.Open l) :
    g.Ready labelers inputs where
  nodup := hinputs
  available l hl := h.built.open_iff.mp (hopen l hl)
  unused _ hlabels := h.unused (hhanded hlabels) (hunused hlabels)
  apart := hnodup.pairwise_of_forall_ne fun _ hlabels _ hlabels' hne =>
    h.apart (hhanded hlabels) (hhanded hlabels') hne

section Ready

variable {passed : List Label} (h : g.Ready labelers inputs)
  (hstage : Stage.Assembled labelers inputs stage) (hrelays : stage.Relays inputs passed)
include h hstage hrelays

/-- The graph has met neither what the stage passes on nor its outputs. -/
theorem Ready.unused_of_relays (hl : l ∈ passed ++ stage.outputs) :
    g.Free l ∧ l ∉ g.consumed ∧ l ∉ inputs := by
  obtain ⟨hfree, hnew⟩ := h.unused_of_mem hstage (hrelays.given ▸ hl)
  exact ⟨hfree, hnew, h.not_mem_inputs hfree⟩

theorem Ready.nodup_of_relays : (passed ++ stage.outputs).Nodup :=
  hrelays.given ▸ (h.takes hstage).2

theorem Ready.available_record_iff (hinner : ∀ l ∈ g.produced, l.isInput = false) :
    (g.record stage.ops).Available l ↔ l ∈ stage.outputs ∨ g.Available l ∧ l ∉ inputs := by
  have hunused : ∀ {l}, l ∈ passed ++ stage.outputs → g.Free l ∧ l ∉ g.consumed ∧ l ∉ inputs :=
    h.unused_of_relays hstage hrelays
  rw [Graph.available_record_iff, hrelays.taken, hrelays.given]
  constructor
  · rintro ⟨hmade, htaken, hnew⟩
    rcases hmade with hmade | hmade
    · rcases List.mem_append.mp hmade with hpassed | hout
      · have hinput := (hunused hmade).1.1
        exact (htaken (mem_inner.mpr ⟨List.mem_append_right _ hpassed, hinput⟩)).elim
      · exact .inl hout
    · refine .inr ⟨⟨hmade, hnew⟩, fun hl => htaken ?_⟩
      exact mem_inner.mpr ⟨List.mem_append_left _ hl, hinner l hmade⟩
  · have hapart := (List.nodup_append.mp (h.nodup_of_relays hstage hrelays)).2.2
    rintro (hout | ⟨⟨hmade, hnew⟩, hother⟩)
    · obtain ⟨-, hnew, hother⟩ := hunused (List.mem_append_right _ hout)
      refine ⟨.inl (List.mem_append_right _ hout), fun hl => ?_, hnew⟩
      rcases List.mem_append.mp (mem_inner.mp hl).1 with hl | hl
      · exact hother hl
      · exact hapart l hl l hout rfl
    · refine ⟨.inr hmade, fun hl => ?_, hnew⟩
      rcases List.mem_append.mp (mem_inner.mp hl).1 with hl | hl
      · exact hother hl
      · exact (hunused (List.mem_append_left _ hl)).1.2 hmade

theorem Ready.exchanges (hbuilt : g.Built) (hbuilt' : (g.record stage.ops).Built) :
    g.Exchanges stage inputs (g.record stage.ops) := by
  obtain ⟨haccounted, -⟩ := hbuilt.accounted_and_ordered
  have hunused : ∀ {l}, l ∈ passed ++ stage.outputs → g.Free l ∧ l ∉ g.consumed ∧ l ∉ inputs :=
    h.unused_of_relays hstage hrelays
  obtain ⟨hpassed, houtputs, hapart⟩ := List.nodup_append.mp (h.nodup_of_relays hstage hrelays)
  refine ⟨houtputs, fun l => ?_, ⟨passed, hrelays.taken, fun l hl => ?_⟩, fun l hl hother => ?_,
    fun op hop l hl hother => ?_⟩
  · rw [hbuilt'.open_iff, hbuilt.open_iff]
    refine h.available_record_iff hstage hrelays fun l hl => ?_
    exact hbuilt.givenOnce.isInput l ((haccounted.produced l).mp hl)
  · exact (hunused (List.mem_append_left _ hl)).2.2
  · rw [hrelays.given] at hl
    have hl' : l ∈ passed := (List.mem_append.mp hl).resolve_right hother
    rw [hrelays.taken, List.count_append, List.count_eq_zero_of_not_mem (hunused hl).2.2,
      List.count_eq_one_of_mem hpassed hl']
  · have hnew : l ∈ passed ++ stage.outputs := by
      rcases hl with hl | hl
      · have htaken : l ∈ inputs ++ passed :=
          hrelays.taken ▸ List.mem_flatMap.mpr ⟨op, hop, hl⟩
        exact List.mem_append_left _ ((List.mem_append.mp htaken).resolve_left hother)
      · exact hrelays.given ▸ List.mem_flatMap.mpr ⟨op, hop, hl⟩
    obtain ⟨⟨hinput, hmade⟩, htaken, -⟩ := hunused hnew
    rw [haccounted.produced, ← exists_produces_iff] at hmade
    rw [haccounted.consumed, mem_inner, and_iff_left hinput, ← exists_consumes_iff] at htaken
    exact ⟨hinput, fun k => ⟨fun hk => hmade ⟨k, hk⟩, fun hk => htaken ⟨k, hk⟩⟩⟩

end Ready

/-- What a filter compiles to on open streams is appended and gives its outputs, where its labelers
are labelers of the graph and not in use. The outputs are open in place of the inputs, unless there
is no primitive in the filter and nothing is done. -/
theorem Labelled.append_of_compile {α : Type} [Scalar α] {filter : Filter α}
    (h : Labelled handed used g) (hnodup : filter.labelers.Nodup)
    (hhanded : filter.labelers ⊆ handed) (hunused : filter.labelers.Disjoint used)
    (hinputs : (inner inputs).Nodup) (hopen : ∀ l ∈ inner inputs, g.Open l)
    (hcompile : filter.compile inputs = .ok stage) :
    ∃ g', (Graph.append stage).run g = (.ok stage.outputs, g') ∧ g'.ops = g.ops ++ stage.ops ∧
      Labelled handed (filter.labelers ++ used) g' ∧
      (filter.labelers ≠ [] → g.Exchanges stage inputs g') := by
  have hready : g.Ready filter.labelers inputs :=
    h.ready hnodup hhanded hunused hinputs hopen
  have hstage := filter.assembled_of_compile hcompile
  have hrun : (Graph.append stage).run g = (.ok stage.outputs, g.record stage.ops) :=
    (hready.takes hstage).1.run_append
  refine ⟨g.record stage.ops, hrun, rfl,
    h.append hhanded (fun l hl => hstage.labelled hl) hrun, fun hne => ?_⟩
  obtain ⟨passed, hrelays⟩ := hstage.exists_relays hne
  exact hready.exchanges hstage hrelays h.built (h.built.append hrun)

/-- Two labelers are handed out after a picture was copied. -/
def handing : Graph := { copying with stages := 3 }

theorem labelled_handing : Labelled [⟨"c2"⟩, ⟨"b1"⟩, ⟨"a0"⟩] [⟨"a0"⟩] handing := by
  have hpush : (Graph.push ⟨[.video 0], "split=2", [⟨"a0"⟩, ⟨"a0_1"⟩]⟩).run
      (Graph.labeler "a" {}).2 = (.ok (), copying) :=
    push_eq_ok_iff.mpr ⟨by decide, by decide, by decide, by decide, by decide⟩
  have hnamed : ∀ l ∈ [(⟨"a0"⟩ : Label), ⟨"a0_1"⟩], l.NamedBy [⟨"a0"⟩] := by
    intro l hl
    rcases List.mem_pair.mp hl with rfl | rfl
    · exact ⟨_, List.mem_singleton_self _, 0, rfl⟩
    · exact ⟨_, List.mem_singleton_self _, 1, rfl⟩
  have hcopying : Labelled [⟨"a0"⟩] [⟨"a0"⟩] copying :=
    .push (.labeler "a" .new (by simp)) (List.Subset.refl _) hnamed hpush
  exact .labeler "c" (.labeler "b" hcopying (by simp)) (by simp)

/-- Copies every picture and joins all the copies of two. -/
def joiningCopies : Filter Rat :=
  .chain [.split ⟨"b1"⟩ .video 2, .chain [], .concat ⟨"c2"⟩ .video 4]

/-- What it compiles to for one of the copies and another picture. -/
def joinedCopies : Stage where
  ops := [⟨[⟨"a0"⟩], "split=2", [⟨"b1"⟩, ⟨"b1_1"⟩]⟩, ⟨[.video 1], "split=2", [⟨"b1_2"⟩, ⟨"b1_3"⟩]⟩,
    ⟨[⟨"b1"⟩, ⟨"b1_1"⟩, ⟨"b1_2"⟩, ⟨"b1_3"⟩], "concat=n=4:v=1:a=0", [⟨"c2"⟩]⟩]
  outputs := [⟨"c2"⟩]

/-- The other copy stays open. -/
theorem Labelled.append_of_compile_joiningCopies :
    joiningCopies.compile [⟨"a0"⟩, .video 1] = .ok joinedCopies ∧
      ∃ g', (Graph.append joinedCopies).run handing = (.ok [⟨"c2"⟩], g') ∧
        g'.Open ⟨"c2"⟩ ∧ g'.Open ⟨"a0_1"⟩ := by
  have hcompile : joiningCopies.compile [⟨"a0"⟩, .video 1] = .ok joinedCopies := rfl
  have hunused : joiningCopies.labelers.Disjoint [⟨"a0"⟩] := by
    rw [List.disjoint_singleton]
    decide
  have hopen : ∀ l ∈ [(⟨"a0"⟩ : Label), ⟨"a0_1"⟩], handing.Open l := by
    intro l hl
    rw [labelled_handing.built.open_iff]
    revert l
    decide
  have hinputs : ∀ l ∈ inner [⟨"a0"⟩, .video 1], handing.Open l := fun l hl =>
    hopen l (by revert l; decide)
  obtain ⟨g', hrun, -, -, hexchanges⟩ := labelled_handing.append_of_compile (by decide) (by decide)
    hunused (by decide) hinputs hcompile
  have hstreams := (hexchanges (by decide)).open_iff
  exact ⟨hcompile, g', hrun, (hstreams _).mpr (.inl (by decide)),
    (hstreams _).mpr (.inr ⟨hopen _ (by decide), by decide⟩)⟩

end Graph

end Slideshow
