import Slideshow.Proofs.Filter.Flow

/-! # Which operations a graph accepts

A graph decides by two lists of labels that count as used. In a graph none of whose calls failed
these are the labels that its operations give and take, so that an operation is accepted exactly if
it may follow the recorded ones. -/

namespace Slideshow

/-- The streams among these that do not belong to an input. -/
def inner (ls : List Label) : List Label := ls.filter fun l => !l.isInput

theorem mem_inner {ls : List Label} {l : Label} : l ∈ inner ls ↔ l ∈ ls ∧ l.isInput = false := by
  simp [inner]

namespace Graph

variable {g g' : Graph} {op : Operation} {l : Label} {ls : List Label}

/-! ## When a call succeeds -/

/-- Streams can be taken if they are there, were not taken, and are not taken twice. -/
theorem consume_eq_ok_iff :
    consume ls g = (.ok (), g') ↔
      (inner ls).Nodup ∧ (∀ l ∈ inner ls, l ∈ g.produced ∧ l ∉ g.consumed) ∧
        g' = { g with consumed := (inner ls).reverse ++ g.consumed } := by
  induction ls generalizing g with
  | nil => simp [consume, inner, eq_comm]
  | cons l ls ih =>
      by_cases hinput : l.isInput = true
      · have hskip : inner (l :: ls) = inner ls := by simp [inner, hinput]
        rw [consume, if_pos hinput, hskip, ih]
      · have htake : inner (l :: ls) = l :: inner ls := by simp [inner, hinput]
        rw [htake, List.nodup_cons, List.forall_mem_cons, List.reverse_cons, List.append_assoc]
        by_cases havailable : l ∈ g.produced ∧ l ∉ g.consumed
        · have hstep : consume (l :: ls) g = consume ls { g with consumed := l :: g.consumed } := by
            simp [consume, hinput, havailable]
          rw [hstep, ih]
          simp only [List.mem_cons, not_or, forall_and]
          constructor
          · rintro ⟨hnodup, ⟨hmade, hne, hnew⟩, rfl⟩
            exact ⟨⟨fun hl => hne l hl rfl, hnodup⟩, ⟨havailable, hmade, hnew⟩, rfl⟩
          · rintro ⟨⟨hl, hnodup⟩, ⟨-, hmade, hnew⟩, rfl⟩
            exact ⟨hnodup, ⟨hmade, fun l' hl' heq => hl (heq ▸ hl'), hnew⟩, rfl⟩
        · have hstop : ∀ g', consume (l :: ls) g ≠ (.ok (), g') := by
            intro g' h
            rw [consume, if_neg hinput] at h
            split at h
            · cases h
            · split at h
              · cases h
              · rename_i hmade hnew
                exact havailable ⟨by simpa using hmade, by simpa using hnew⟩
          simp [hstop, havailable]

/-- Streams can be given if they are new, do not belong to an input, and are not given twice. -/
theorem produce_eq_ok_iff :
    produce ls g = (.ok (), g') ↔
      ls.Nodup ∧ (∀ l ∈ ls, l.isInput = false ∧ l ∉ g.produced) ∧
        g' = { g with produced := ls.reverse ++ g.produced } := by
  induction ls generalizing g with
  | nil =>
      refine ⟨fun h => ⟨.nil, by simp, (Prod.mk.inj h).2.symm⟩, ?_⟩
      rintro ⟨-, -, rfl⟩
      rfl
  | cons l ls ih =>
      rw [List.nodup_cons, List.forall_mem_cons, List.reverse_cons, List.append_assoc]
      by_cases hfree : l.isInput = false ∧ l ∉ g.produced
      · have hstep : produce (l :: ls) g = produce ls { g with produced := l :: g.produced } := by
          rw [produce, if_neg (by simpa using hfree)]
        rw [hstep, ih]
        simp only [List.mem_cons, not_or, forall_and]
        constructor
        · rintro ⟨hnodup, ⟨hinner, hne, hnew⟩, rfl⟩
          exact ⟨⟨fun hl => hne l hl rfl, hnodup⟩, ⟨hfree, hinner, hnew⟩, rfl⟩
        · rintro ⟨⟨hl, hnodup⟩, ⟨-, hinner, hnew⟩, rfl⟩
          exact ⟨hnodup, ⟨hinner, fun l' hl' heq => hl (heq ▸ hl'), hnew⟩, rfl⟩
      · have hstop : ∀ g', produce (l :: ls) g ≠ (.ok (), g') := by
          intro g' h
          rw [produce] at h
          split at h
          · cases h
          · rename_i hneither
            exact hfree (by simpa using hneither)
        simp [hstop, hfree]

/-- An operation is recorded once its streams are taken and given. -/
theorem push_eq_ok_iff_exists :
    (push op).run g = (.ok (), g') ↔
      op.inputs ≠ [] ∧ op.outputs ≠ [] ∧
        ∃ g₁ g₂, consume op.inputs g = (.ok (), g₁) ∧ produce op.outputs g₁ = (.ok (), g₂) ∧
          g' = { g₂ with ops := g₂.ops ++ [op] } := by
  change Graph.push op g = _ ↔ _
  rw [push]
  by_cases hins : op.inputs = []
  · simp only [hins, List.isEmpty_nil, if_true, ne_eq, not_true_eq_false, false_and, iff_false]
    exact fun h => nomatch h
  by_cases houts : op.outputs = []
  · simp only [List.isEmpty_iff, hins, houts, if_true, if_false, ne_eq, not_true_eq_false,
      false_and, and_false, iff_false]
    exact fun h => nomatch h
  simp only [List.isEmpty_iff, hins, houts, if_false, ne_eq, not_false_eq_true, true_and]
  constructor
  · intro h
    split at h
    · cases h
    · rename_i g₁ hconsume
      split at h
      · cases h
      · rename_i g₂ hproduce
        exact ⟨g₁, g₂, hconsume, hproduce, (Prod.mk.inj h).2.symm⟩
  · rintro ⟨g₁, g₂, hconsume, hproduce, rfl⟩
    simp only [hconsume, hproduce]

/-- All that is asked of an operation, and all that recording it changes. -/
theorem push_eq_ok_iff :
    (push op).run g = (.ok (), g') ↔
      op.inputs ≠ [] ∧ op.outputs ≠ [] ∧
        ((inner op.inputs).Nodup ∧ ∀ l ∈ inner op.inputs, l ∈ g.produced ∧ l ∉ g.consumed) ∧
        (op.outputs.Nodup ∧ ∀ l ∈ op.outputs, l.isInput = false ∧ l ∉ g.produced) ∧
        g' = { g with
          ops := g.ops ++ [op]
          produced := op.outputs.reverse ++ g.produced
          consumed := (inner op.inputs).reverse ++ g.consumed } := by
  simp only [push_eq_ok_iff_exists, consume_eq_ok_iff, produce_eq_ok_iff]
  constructor
  · rintro ⟨hins, houts, _, _, ⟨hdistinct, htakes, rfl⟩, ⟨hnodup, hgives, rfl⟩, rfl⟩
    exact ⟨hins, houts, ⟨hdistinct, htakes⟩, ⟨hnodup, hgives⟩, rfl⟩
  · rintro ⟨hins, houts, ⟨hdistinct, htakes⟩, ⟨hnodup, hgives⟩, rfl⟩
    exact ⟨hins, houts, _, _, ⟨hdistinct, htakes, rfl⟩, ⟨hnodup, hgives, rfl⟩, rfl⟩

/-- The stream counts as given and not as taken. -/
def Available (g : Graph) (l : Label) : Prop := l ∈ g.produced ∧ l ∉ g.consumed

/-- The stream belongs to no input and does not count as given. -/
def Free (g : Graph) (l : Label) : Prop := l.isInput = false ∧ l ∉ g.produced

/-- The graph takes the operation. -/
def Accepts (g : Graph) (op : Operation) : Prop := ((push op).run g).1 = .ok ()

instance : Decidable (g.Available l) := inferInstanceAs (Decidable (_ ∧ _))

instance : Decidable (g.Free l) := inferInstanceAs (Decidable (_ ∧ _))

theorem accepts_iff : g.Accepts op ↔ op.inputs ≠ [] ∧ op.outputs ≠ [] ∧
    ((inner op.inputs).Nodup ∧ ∀ l ∈ inner op.inputs, g.Available l) ∧
      op.outputs.Nodup ∧ ∀ l ∈ op.outputs, g.Free l := by
  have hok : g.Accepts op ↔ ∃ g', (push op).run g = (.ok (), g') :=
    ⟨fun h => ⟨_, Prod.ext h rfl⟩, fun ⟨_, h⟩ => congrArg Prod.fst h⟩
  simp only [hok, push_eq_ok_iff]
  exact ⟨fun ⟨_, hins, houts, htakes, hgives, _⟩ => ⟨hins, houts, htakes, hgives⟩,
    fun ⟨hins, houts, htakes, hgives⟩ => ⟨_, hins, houts, htakes, hgives, rfl⟩⟩

/-! ## Adding several operations -/

theorem run_pushAll_cons (op : Operation) (rest : List Operation) (g : Graph) :
    (pushAll (op :: rest)).run g =
      match (push op).run g with
      | (.ok (), g') => (pushAll rest).run g'
      | (.error e, g') => (.error e, g') := by
  have hbind : (pushAll (op :: rest)).run g =
      ExceptT.bindCont (fun _ => pushAll rest) ((push op).run g).1 ((push op).run g).2 := rfl
  rw [hbind]
  rcases (push op).run g with ⟨e | _, g'⟩ <;> rfl

theorem run_pushAll_singleton (op : Operation) (g : Graph) :
    (pushAll [op]).run g = (push op).run g := by
  rw [run_pushAll_cons]
  rcases (push op).run g with ⟨e | _, g'⟩ <;> rfl

theorem run_append (stage : Stage) (g : Graph) :
    (append stage).run g =
      match (pushAll stage.ops).run g with
      | (.ok (), g') => (.ok stage.outputs, g')
      | (.error e, g') => (.error e, g') := by
  have hbind : (append stage).run g = ExceptT.bindCont (m := StateM Graph)
      (fun _ => pure stage.outputs) ((pushAll stage.ops).run g).1 ((pushAll stage.ops).run g).2 := rfl
  rw [hbind]
  rcases (pushAll stage.ops).run g with ⟨e | _, g'⟩ <;> rfl

/-! ## Graphs none of whose calls failed -/

/-- The graph came about by calls none of which failed. -/
inductive Built : Graph → Prop where
  | new : Built {}
  | labeler {g : Graph} (stem : String) : Built g → Built (labeler stem g).2
  | push {g g' : Graph} {op : Operation} :
      Built g → (Graph.push op).run g = (.ok (), g') → Built g'
  | append {g g' : Graph} {stage : Stage} {ls : List Label} :
      Built g → (Graph.append stage).run g = (.ok ls, g') → Built g'

/-- What recording one operation keeps, recording several keeps. -/
theorem pushAll_induction {motive : Graph → Prop}
    (hpush : ∀ {g g' op}, (push op).run g = (.ok (), g') → motive g → motive g')
    {ops : List Operation} (hrun : (pushAll ops).run g = (.ok (), g')) (h : motive g) :
    motive g' := by
  induction ops generalizing g with
  | nil =>
      cases hrun
      exact h
  | cons op rest ih =>
      rw [run_pushAll_cons] at hrun
      rcases hop : (push op).run g with ⟨e | _, g₁⟩ <;> rw [hop] at hrun
      · cases hrun
      · exact ih hrun (hpush hop h)

theorem pushAll_of_append {stage : Stage} (hrun : (append stage).run g = (.ok ls, g')) :
    (pushAll stage.ops).run g = (.ok (), g') := by
  rw [run_append] at hrun
  rcases hops : (pushAll stage.ops).run g with ⟨e | _, g₁⟩ <;> rw [hops] at hrun
  · cases hrun
  · cases hrun
    rfl

/-- What a new graph has and one operation keeps, every graph has none of whose calls failed. -/
theorem Built.induct {motive : Graph → Prop} (hnew : motive {})
    (hlabeler : ∀ g stem, motive g → motive (Graph.labeler stem g).2)
    (hpush : ∀ {g g' op}, (Graph.push op).run g = (.ok (), g') → motive g → motive g')
    (h : g.Built) : motive g := by
  induction h with
  | new => exact hnew
  | labeler stem _ ih => exact hlabeler _ stem ih
  | push _ hrun ih => exact hpush hrun ih
  | append _ hrun ih => exact pushAll_induction hpush (pushAll_of_append hrun) ih

end Graph

/-! ## Operations that may come next -/

/-- The operation may follow these: it takes what they gave and did not take, and gives what they
did not give. -/
structure Operation.Follows (op : Operation) (ops : List Operation) : Prop where
  inputs_ne_nil : op.inputs ≠ []
  outputs_ne_nil : op.outputs ≠ []
  given : ∀ l ∈ op.inputs, l.isInput = false → ∃ earlier ∈ ops, l ∈ earlier.outputs
  untaken : ∀ l ∈ op.inputs, l.isInput = false → ∀ earlier ∈ ops, l ∉ earlier.inputs
  once : ∀ l ∈ op.inputs, l.isInput = false → op.inputs.count l = 1
  nodup : op.outputs.Nodup
  noColon : ∀ l ∈ op.outputs, ':' ∉ l.name.toList
  new : ∀ l ∈ op.outputs, ∀ earlier ∈ ops, l ∉ earlier.outputs

theorem nodup_inner_iff {ls : List Label} :
    (inner ls).Nodup ↔ ∀ l ∈ ls, l.isInput = false → ls.count l = 1 := by
  rw [List.nodup_iff_count_eq_one]
  constructor
  · intro h l hl hinput
    rw [← h l (mem_inner.mpr ⟨hl, hinput⟩), inner, List.count_filter (by simp [hinput])]
  · intro h l hl
    obtain ⟨hl, hinput⟩ := mem_inner.mp hl
    rw [inner, List.count_filter (by simp [hinput]), h l hl hinput]

namespace Graph

variable {g g' : Graph} {op : Operation} {l : Label}

theorem ops_of_push (hrun : (push op).run g = (.ok (), g')) : g'.ops = g.ops ++ [op] := by
  obtain ⟨-, -, -, -, rfl⟩ := push_eq_ok_iff.mp hrun
  rfl

/-- The labels that count as used are those of the recorded operations. -/
structure Accounted (g : Graph) : Prop where
  produced : ∀ l, l ∈ g.produced ↔ l ∈ g.ops.flatMap Operation.outputs
  consumed : ∀ l, l ∈ g.consumed ↔ l ∈ inner (g.ops.flatMap Operation.inputs)

theorem Accounted.push (h : g.Accounted) (hrun : (Graph.push op).run g = (.ok (), g')) :
    g'.Accounted := by
  obtain ⟨-, -, -, -, rfl⟩ := push_eq_ok_iff.mp hrun
  refine ⟨fun l => ?_, fun l => ?_⟩
  · simp [h.produced l, or_comm]
  · simp [h.consumed l, mem_inner, or_and_right, or_comm]

/-- What is asked of an operation can be told from the recorded ones. -/
theorem Accounted.push_eq_ok_iff_follows (h : g.Accounted) :
    ((Graph.push op).run g).1 = .ok () ↔ op.Follows g.ops := by
  change g.Accepts op ↔ _
  simp only [accepts_iff, Available, Free, h.produced, h.consumed, mem_inner, nodup_inner_iff,
    List.mem_flatMap]
  constructor
  · rintro ⟨hins, houts, ⟨honce, htakes⟩, hnodup, hgives⟩
    refine ⟨hins, houts, fun l hl hinput => (htakes l ⟨hl, hinput⟩).1, ?_, honce, hnodup, ?_, ?_⟩
    · exact fun l hl hinput op' hop' hl' => (htakes l ⟨hl, hinput⟩).2 ⟨⟨op', hop', hl'⟩, hinput⟩
    · intro l hl
      simpa [Label.isInput] using (hgives l hl).1
    · exact fun l hl op' hop' hl' => (hgives l hl).2 ⟨op', hop', hl'⟩
  · intro h
    refine ⟨h.inputs_ne_nil, h.outputs_ne_nil, ⟨h.once, ?_⟩, h.nodup, ?_⟩
    · rintro l ⟨hl, hinput⟩
      refine ⟨h.given l hl hinput, ?_⟩
      rintro ⟨⟨op', hop', hl'⟩, -⟩
      exact h.untaken l hl hinput op' hop' hl'
    · intro l hl
      refine ⟨by simpa [Label.isInput] using h.noColon l hl, ?_⟩
      rintro ⟨op', hop', hl'⟩
      exact h.new l hl op' hop' hl'

/-! ## The order of operations -/

/-- What an operation takes from no input was given by an earlier one. -/
def TakesGiven (g : Graph) : Prop :=
  ∀ k l, g.Consumes k l → l.isInput = false → ∃ j < k, g.Produces j l

theorem TakesGiven.record (h : g.TakesGiven) (hops : g'.ops = g.ops ++ [op])
    (hgiven : ∀ l ∈ op.inputs, l.isInput = false → l ∈ g.ops.flatMap Operation.outputs) :
    g'.TakesGiven := by
  rintro k l ⟨op', hk, hl⟩ hinput
  rw [hops] at hk
  have hlater : ∀ j, g.Produces j l → g'.Produces j l := by
    rintro j ⟨op', hj, hl'⟩
    exact ⟨op', by rw [hops, List.getElem?_append_left (List.getElem?_eq_some_iff.mp hj).1, hj], hl'⟩
  by_cases hlast : k < g.ops.length
  · rw [List.getElem?_append_left hlast] at hk
    obtain ⟨j, hj, hmade⟩ := h k l ⟨op', hk, hl⟩ hinput
    exact ⟨j, hj, hlater j hmade⟩
  · rw [List.getElem?_append_right (by omega)] at hk
    cases List.mem_singleton.mp (List.mem_of_getElem? hk)
    obtain ⟨j, hj⟩ := exists_produces_iff.mpr (hgiven l hl hinput)
    have hlt := hj
    obtain ⟨_, hget, -⟩ := hlt
    exact ⟨j, by have := (List.getElem?_eq_some_iff.mp hget).1; omega, hlater j hj⟩

/-- Every stream is given once, and taken at most once and later, if it does not belong to an
input. -/
structure Ordered (g : Graph) : Prop where
  given_once : (g.ops.flatMap Operation.outputs).Nodup
  taken_once : (inner (g.ops.flatMap Operation.inputs)).Nodup
  given_before : ∀ k l, g.Consumes k l → l.isInput = false → ∃ j < k, g.Produces j l

theorem Ordered.of_follows (h : g.Ordered) (hop : op.Follows g.ops)
    (hops : g'.ops = g.ops ++ [op]) : g'.Ordered := by
  refine ⟨?_, ?_, TakesGiven.record h.given_before hops
    fun l hl hinput => List.mem_flatMap.mpr (hop.given l hl hinput)⟩
  · rw [hops, List.flatMap_append, List.flatMap_singleton]
    refine List.nodup_append.mpr ⟨h.given_once, hop.nodup, ?_⟩
    rintro l hl _ hl' rfl
    obtain ⟨op', hop', hl⟩ := List.mem_flatMap.mp hl
    exact hop.new l hl' op' hop' hl
  · rw [hops, List.flatMap_append, List.flatMap_singleton, inner, List.filter_append]
    refine List.nodup_append.mpr ⟨h.taken_once, nodup_inner_iff.mpr hop.once, ?_⟩
    rintro l hl _ hl' rfl
    obtain ⟨op', hop', hl⟩ := List.mem_flatMap.mp (mem_inner.mp hl).1
    obtain ⟨hl', hinput⟩ := mem_inner.mp hl'
    exact hop.untaken l hl' hinput op' hop' hl

theorem Built.accounted_and_ordered (h : g.Built) : g.Accounted ∧ g.Ordered := by
  refine h.induct (motive := fun g => g.Accounted ∧ g.Ordered) ?_
    (fun _ _ h => ⟨⟨h.1.produced, h.1.consumed⟩, ⟨h.2.1, h.2.2, h.2.3⟩⟩) ?_
  · refine ⟨⟨by simp, by simp [inner]⟩, ⟨.nil, .nil, ?_⟩⟩
    rintro k l ⟨op, hk, -⟩
    simp at hk
  · rintro g g' op hrun ⟨haccounted, hordered⟩
    have hfollows := haccounted.push_eq_ok_iff_follows.mp (congrArg Prod.fst hrun)
    exact ⟨haccounted.push hrun, hordered.of_follows hfollows (ops_of_push hrun)⟩

/-- A graph none of whose calls failed accepts exactly the operations that may follow the recorded
ones, and then records them last. In such a graph every stream that does not belong to an input is
given once and taken at most once, later on. -/
theorem Built.accepts_iff_follows (h : g.Built) (op : Operation) :
    (((Graph.push op).run g).1 = .ok () ↔ op.Follows g.ops) ∧
      (((Graph.push op).run g).1 = .ok () →
        ((Graph.push op).run g).2.ops = g.ops ++ [op]) ∧
      g.Ordered := by
  obtain ⟨haccounted, hordered⟩ := h.accounted_and_ordered
  exact ⟨haccounted.push_eq_ok_iff_follows, fun hok => ops_of_push (Prod.ext hok rfl), hordered⟩

/-- The graph that makes two copies of a picture. -/
def copying : Graph where
  ops := [⟨[.video 0], "split=2", [⟨"a0"⟩, ⟨"a0_1"⟩]⟩]
  produced := [⟨"a0_1"⟩, ⟨"a0"⟩]
  stages := 1

theorem built_copying : copying.Built := by
  have hpush : (Graph.push ⟨[.video 0], "split=2", [⟨"a0"⟩, ⟨"a0_1"⟩]⟩).run
      (Graph.labeler "a" {}).2 = (.ok (), copying) :=
    push_eq_ok_iff.mpr ⟨by decide, by decide, by decide, by decide, by decide⟩
  exact .push (.labeler "a" .new) hpush

/-- Both copies can be joined, as nothing has taken them; one of them cannot be joined with
itself. -/
theorem accepts_iff_follows_copying : copying.Built ∧
    Operation.Follows ⟨[⟨"a0"⟩, ⟨"a0_1"⟩], "concat=n=2", [⟨"b1"⟩]⟩ copying.ops ∧
    ¬ Operation.Follows ⟨[⟨"a0"⟩, ⟨"a0"⟩], "concat=n=2", [⟨"b1"⟩]⟩ copying.ops :=
  ⟨built_copying, (built_copying.accepts_iff_follows _).1.mp rfl,
    fun h => nomatch (built_copying.accepts_iff_follows _).1.mpr h⟩

end Graph

end Slideshow
