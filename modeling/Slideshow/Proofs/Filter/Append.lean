import Slideshow.Proofs.Filter.Relay
import Slideshow.Proofs.Filter.Tracing

/-! # Appending what a filter compiles to

Operations are taken if each finds its streams available and gives streams that were not used. What
a filter compiles to on available streams is therefore taken when its labelers are new to the
graph. -/

namespace Slideshow

/-- No stream is named by both labelers. -/
def Labeler.Apart (labels labels' : Labeler) : Prop := ∀ i j, labels.label i ≠ labels'.label j

theorem inner_append (ls ls' : List Label) : inner (ls ++ ls') = inner ls ++ inner ls' :=
  List.filter_append ..

namespace Graph

variable {g g' : Graph} {l : Label} {op : Operation} {ops ops' : List Operation} {stage : Stage}
  {inputs : List Label} {labelers earlier later : List Labeler}

/-! ## Adding operations -/

/-- The graph with further operations. -/
def record (g : Graph) (ops : List Operation) : Graph :=
  { g with
    ops := g.ops ++ ops
    produced := (ops.flatMap Operation.outputs).reverse ++ g.produced
    consumed := (inner (ops.flatMap Operation.inputs)).reverse ++ g.consumed }

/-- The graph takes the operations one after another. -/
def Takes (g : Graph) (ops : List Operation) : Prop := (pushAll ops).run g = (.ok (), g.record ops)

theorem record_nil (g : Graph) : g.record [] = g := by
  simp [record, inner]

theorem record_append (g : Graph) (ops ops' : List Operation) :
    g.record (ops ++ ops') = (g.record ops).record ops' := by
  simp [record, inner_append]

theorem available_record_iff : (g.record ops).Available l ↔
    (l ∈ ops.flatMap Operation.outputs ∨ l ∈ g.produced) ∧
      l ∉ inner (ops.flatMap Operation.inputs) ∧ l ∉ g.consumed := by
  simp only [Available, record, List.mem_append, List.mem_reverse, not_or]

theorem free_record_iff :
    (g.record ops).Free l ↔ l ∉ ops.flatMap Operation.outputs ∧ g.Free l := by
  simp only [Free, record, List.mem_append, List.mem_reverse, not_or]
  exact and_left_comm

theorem takes_nil (g : Graph) : g.Takes [] := by
  rw [Takes, record_nil]
  rfl

theorem run_push_of_accepts (h : g.Accepts op) : (push op).run g = (.ok (), g.record [op]) := by
  obtain ⟨hins, houts, htakes, hgives⟩ := accepts_iff.mp h
  exact push_eq_ok_iff.mpr ⟨hins, houts, htakes, hgives, by simp [record]⟩

theorem Takes.append (h : g.Takes ops) (h' : (g.record ops).Takes ops') : g.Takes (ops ++ ops') := by
  rw [Takes, record_append, ← h']
  have hall : ∀ {g g' : Graph}, (pushAll ops).run g = (.ok (), g') →
      (pushAll (ops ++ ops')).run g = (pushAll ops').run g' := by
    clear h h'
    induction ops with
    | nil =>
        intro g g' hrun
        cases hrun
        rfl
    | cons op rest ih =>
        intro g g' hrun
        rw [List.cons_append, run_pushAll_cons]
        rw [run_pushAll_cons] at hrun
        rcases hop : (push op).run g with ⟨e | _, g₁⟩ <;> rw [hop] at hrun
        · cases hrun
        · exact ih hrun
  exact hall h

theorem takes_singleton (h : g.Accepts op) : g.Takes [op] := by
  rw [Takes, run_pushAll_singleton, run_push_of_accepts h]

theorem Takes.run_append (h : g.Takes stage.ops) :
    (Graph.append stage).run g = (.ok stage.outputs, g.record stage.ops) := by
  rw [Graph.run_append, show (pushAll stage.ops).run g = _ from h]

/-- Operations that take different available streams and give different free ones are taken. -/
theorem takes_of_available (hsided : ∀ op ∈ ops, op.inputs ≠ [] ∧ op.outputs ≠ [])
    (htaken : (inner (ops.flatMap Operation.inputs)).Nodup)
    (havailable : ∀ l ∈ inner (ops.flatMap Operation.inputs), g.Available l)
    (hgiven : (ops.flatMap Operation.outputs).Nodup)
    (hfree : ∀ l ∈ ops.flatMap Operation.outputs, g.Free l) : g.Takes ops := by
  induction ops generalizing g with
  | nil => exact takes_nil g
  | cons op rest ih =>
      rw [List.flatMap_cons, inner_append] at htaken havailable
      rw [List.flatMap_cons] at hgiven hfree
      obtain ⟨htakenOp, htakenRest, htakenApart⟩ := List.nodup_append.mp htaken
      obtain ⟨hgivenOp, hgivenRest, hgivenApart⟩ := List.nodup_append.mp hgiven
      obtain ⟨hins, houts⟩ := hsided op List.mem_cons_self
      have haccepts : g.Accepts op := accepts_iff.mpr ⟨hins, houts,
        ⟨htakenOp, fun l hl => havailable l (List.mem_append_left _ hl)⟩,
        hgivenOp, fun l hl => hfree l (List.mem_append_left _ hl)⟩
      refine (takes_singleton haccepts).append (ih (fun op' hop' => hsided op' ?_) htakenRest
        (fun l hl => ?_) hgivenRest fun l hl => ?_)
      · exact List.mem_cons_of_mem _ hop'
      · obtain ⟨hmade, hnew⟩ := havailable l (List.mem_append_right _ hl)
        rw [available_record_iff, List.flatMap_singleton, List.flatMap_singleton]
        exact ⟨.inr hmade, fun hl' => htakenApart l hl' l hl rfl, hnew⟩
      · rw [free_record_iff, List.flatMap_singleton]
        exact ⟨fun hl' => hgivenApart l hl' l hl rfl, hfree l (List.mem_append_right _ hl)⟩

/-- What was added is recorded, in order. -/
theorem eq_record_of_pushAll (hrun : (pushAll ops).run g = (.ok (), g')) : g' = g.record ops := by
  induction ops generalizing g with
  | nil =>
      rw [record_nil]
      exact (Prod.mk.inj hrun).2.symm
  | cons op rest ih =>
      rw [run_pushAll_cons] at hrun
      rcases hop : (push op).run g with ⟨e | _, g₁⟩ <;> rw [hop] at hrun
      · cases hrun
      · have hg₁ : g₁ = g.record [op] :=
          (Prod.mk.inj (hop.symm.trans (run_push_of_accepts (congrArg Prod.fst hop)))).2
        rw [ih hrun, hg₁, ← record_append, List.singleton_append]

/-! ## Streams and labelers for a filter -/

/-- The inputs are there to be taken, each of them once, and the labelers give streams that the graph
has not met, no two of them the same. -/
structure Ready (g : Graph) (labelers : List Labeler) (inputs : List Label) : Prop where
  nodup : (inner inputs).Nodup
  available : ∀ l ∈ inner inputs, g.Available l
  unused : ∀ labels ∈ labelers, ∀ i, g.Free (labels.label i) ∧ labels.label i ∉ g.consumed
  apart : labelers.Pairwise Labeler.Apart

namespace Ready

theorem left (h : g.Ready (earlier ++ later) inputs) : g.Ready earlier inputs where
  nodup := h.nodup
  available := h.available
  unused labels hlabels := h.unused labels (List.mem_append_left _ hlabels)
  apart := (List.pairwise_append.mp h.apart).1

/-- What a stage gives the graph has not met. -/
theorem unused_of_mem (h : g.Ready labelers inputs) (hstage : Stage.Assembled labelers inputs stage)
    (hl : l ∈ stage.ops.flatMap Operation.outputs) : g.Free l ∧ l ∉ g.consumed := by
  obtain ⟨labels, hlabels, i, rfl⟩ := hstage.labelled hl
  exact h.unused labels hlabels i

theorem not_mem_inputs (h : g.Ready labelers inputs) (hl : g.Free l) : l ∉ inputs := fun hmem =>
  hl.2 (h.available l (mem_inner.mpr ⟨hmem, hl.1⟩)).1

/-- Other labelers do not give what a stage gives. -/
theorem label_not_mem (h : g.Ready (earlier ++ later) inputs)
    (hstage : Stage.Assembled earlier inputs stage) {labels : Labeler} (hlabels : labels ∈ later)
    (i : ℕ) : labels.label i ∉ stage.ops.flatMap Operation.outputs := by
  intro hl
  obtain ⟨labels', hlabels', j, heq⟩ := hstage.labelled hl
  exact (List.pairwise_append.mp h.apart).2.2 labels' hlabels' labels hlabels j i heq.symm

/-- After a stage its outputs are there for the next one. -/
theorem record (h : g.Ready (earlier ++ later) inputs)
    (hstage : Stage.Assembled earlier inputs stage)
    (hnodup : (stage.ops.flatMap Operation.outputs).Nodup) :
    (g.record stage.ops).Ready later stage.outputs := by
  have hapart := (List.pairwise_append.mp h.apart).2.1
  by_cases hidle : earlier = []
  · rw [hstage.eq_of_idle hidle, record_nil]
    exact ⟨h.nodup, h.available,
      fun labels hlabels => h.unused labels (List.mem_append_right _ hlabels), hapart⟩
  obtain ⟨passed, htaken, hgiven⟩ := hstage.exists_relays hidle
  rw [hgiven] at hnodup
  obtain ⟨-, houtputs, hdisjoint⟩ := List.nodup_append.mp hnodup
  have htakenOnly : ∀ {l}, l ∈ inner (stage.ops.flatMap Operation.inputs) → g.Free l →
      l ∈ passed := by
    intro l hl hfree
    rw [htaken] at hl
    exact (List.mem_append.mp (mem_inner.mp hl).1).resolve_left (h.not_mem_inputs hfree)
  refine ⟨houtputs.filter _, fun l hl => ?_, fun labels hlabels i => ?_, hapart⟩
  · have hout := (mem_inner.mp hl).1
    have hmade : l ∈ stage.ops.flatMap Operation.outputs := hgiven ▸ List.mem_append_right _ hout
    obtain ⟨hfree, hnew⟩ := h.left.unused_of_mem hstage hmade
    exact available_record_iff.mpr
      ⟨.inl hmade, fun hl' => hdisjoint l (htakenOnly hl' hfree) l hout rfl, hnew⟩
  · obtain ⟨hfree, hnew⟩ := h.unused labels (List.mem_append_right _ hlabels) i
    have hother := h.label_not_mem hstage hlabels i
    refine ⟨free_record_iff.mpr ⟨hother, hfree⟩, ?_⟩
    simp only [Graph.record, List.mem_append, List.mem_reverse, not_or]
    refine ⟨fun hl => hother ?_, hnew⟩
    rw [hgiven]
    exact List.mem_append_left _ (htakenOnly hl hfree)

/-- A stage is taken, and gives no stream twice. -/
theorem takes (h : g.Ready labelers inputs) (hstage : Stage.Assembled labelers inputs stage) :
    g.Takes stage.ops ∧ (stage.ops.flatMap Operation.outputs).Nodup := by
  induction hstage generalizing g with
  | @primitive stage labels inputs hprimitive =>
      obtain ⟨n, hn⟩ := hprimitive.labelled
      have hnodup : (stage.ops.flatMap Operation.outputs).Nodup := by
        rw [hprimitive.given, hn]
        exact (List.nodup_range' ..).map fun _ _ => Labeler.label_inj
      refine ⟨takes_of_available hprimitive.sided ?_ ?_ hnodup fun l hl => ?_, hnodup⟩
      · rw [hprimitive.taken]
        exact h.nodup
      · rw [hprimitive.taken]
        exact h.available
      · exact (h.unused_of_mem (.primitive hprimitive) hl).1
  | idle => exact ⟨takes_nil g, .nil⟩
  | @append first last earlier later inputs hassembled hassembled' hfirst hlast =>
      obtain ⟨htakes, hnodup⟩ := hfirst h.left
      obtain ⟨htakes', hnodup'⟩ := hlast (h.record hassembled hnodup)
      refine ⟨htakes.append htakes', ?_⟩
      rw [List.flatMap_append]
      refine List.nodup_append.mpr ⟨hnodup, hnodup', ?_⟩
      rintro l hl _ hl' rfl
      obtain ⟨labels, hlabels, i, rfl⟩ := hassembled'.labelled hl'
      exact h.label_not_mem hassembled hlabels i hl

end Ready

end Graph

end Slideshow
