import Slideshow.Proofs.Filter.Acceptance
import Mathlib.Data.Finset.Preimage
import Mathlib.Data.Fintype.EquivFin

/-! # Refused operations

A graph marks the streams of an operation one after another and keeps the marks when one of the
streams is refused. A stream that was marked as given can be taken afterwards although no operation
gives it, and one that was marked as taken cannot be taken any more. Only an operation that is
refused at its first mark leaves the graph as it was. -/

namespace Slideshow.Graph

variable {g g' : Graph} {l : Label} {ls rest : List Label} {op : Operation}

/-! ## Marks -/

/-- Of an operation with one stream on either side no more is asked than of its streams. -/
theorem accepts_single_iff {expression : String} {o : Label} :
    g.Accepts ⟨[l], expression, [o]⟩ ↔ (l.isInput = false → g.Available l) ∧ g.Free o := by
  cases hinput : l.isInput <;> simp [accepts_iff, inner, hinput]

theorem exists_free (g : Graph) : ∃ o, g.Free o := by
  let labels : Labeler := ⟨"x" ++ Decimal.natText 0⟩
  have hnamed : labels.Named 0 := ⟨"x", rfl, by simp⟩
  have hinjective : Function.Injective labels.label := fun _ _ => Labeler.label_inj
  obtain ⟨i, hi⟩ := Infinite.exists_notMem_finset
    (g.produced.toFinset.preimage labels.label hinjective.injOn)
  exact ⟨labels.label i, hnamed.isInput_label i, by simpa using hi⟩

/-- Taking streams only adds to those that count as taken. -/
theorem exists_consume_eq (ls : List Label) (g : Graph) :
    ∃ taken, (consume ls g).2 = { g with consumed := taken ++ g.consumed } := by
  induction ls generalizing g with
  | nil => exact ⟨[], rfl⟩
  | cons l rest ih =>
      rw [consume]
      split
      · exact ih g
      · split
        · exact ⟨[], rfl⟩
        · split
          · exact ⟨[], rfl⟩
          · obtain ⟨taken, htaken⟩ := ih { g with consumed := l :: g.consumed }
            exact ⟨taken ++ [l], by simp [htaken]⟩

/-- Giving streams only adds to those that count as given. -/
theorem exists_produce_eq (ls : List Label) (g : Graph) :
    ∃ given, (produce ls g).2 = { g with produced := given ++ g.produced } := by
  induction ls generalizing g with
  | nil => exact ⟨[], rfl⟩
  | cons l rest ih =>
      rw [produce]
      split
      · exact ⟨[], rfl⟩
      · obtain ⟨given, hgiven⟩ := ih { g with produced := l :: g.produced }
        exact ⟨given ++ [l], by simp [hgiven]⟩

/-- Inputs are passed over. -/
theorem exists_consume_eq_cons (hfirst : inner ls = l :: rest) (g : Graph) :
    ∃ later, consume ls g = consume (l :: later) g := by
  induction ls with
  | nil => cases hfirst
  | cons l' ls ih =>
      by_cases hinput : l'.isInput = true
      · rw [inner, List.filter_cons_of_neg (by simpa using hinput)] at hfirst
        obtain ⟨later, hlater⟩ := ih hfirst
        exact ⟨later, by rw [consume, if_pos hinput, hlater]⟩
      · rw [inner, List.filter_cons_of_pos (by simpa using hinput)] at hfirst
        obtain ⟨rfl, -⟩ := List.cons.inj hfirst
        exact ⟨ls, rfl⟩

theorem isInput_of_first (hfirst : inner ls = l :: rest) : ¬ l.isInput = true := by
  have hl : l ∈ inner ls := hfirst ▸ List.mem_cons_self
  simp [(mem_inner.mp hl).2]

/-- Nothing is marked when the first stream cannot be taken. -/
theorem exists_consume_eq_error (hfirst : inner ls = l :: rest) (hl : ¬ g.Available l) :
    ∃ e, consume ls g = (.error e, g) := by
  obtain ⟨later, hlater⟩ := exists_consume_eq_cons hfirst g
  rw [hlater, consume, if_neg (isInput_of_first hfirst)]
  split
  · exact ⟨_, rfl⟩
  · rename_i hmade
    have htaken : g.consumed.contains l = true := by
      by_contra htaken
      exact hl ⟨by simpa using hmade, by simpa using htaken⟩
    exact ⟨_, if_pos htaken⟩

/-- The first stream is marked when it can be taken. -/
theorem mem_consumed_of_available (hfirst : inner ls = l :: rest) (hl : g.Available l) :
    l ∈ (consume ls g).2.consumed := by
  obtain ⟨later, hlater⟩ := exists_consume_eq_cons hfirst g
  rw [hlater, consume, if_neg (isInput_of_first hfirst), if_neg (by simpa using hl.1),
    if_neg (by simpa using hl.2)]
  obtain ⟨taken, htaken⟩ := exists_consume_eq later { g with consumed := l :: g.consumed }
  rw [htaken]
  exact List.mem_append_right _ List.mem_cons_self

/-- Nothing is marked when the first stream cannot be given. -/
theorem exists_produce_eq_error (rest : List Label) (hl : ¬ g.Free l) :
    ∃ e, produce (l :: rest) g = (.error e, g) := by
  rw [produce]
  split
  · exact ⟨_, rfl⟩
  · rename_i hneither
    exact (hl (by simpa [Free] using hneither)).elim

/-- The first stream is marked when it can be given. -/
theorem mem_produced_of_free (rest : List Label) (hl : g.Free l) :
    l ∈ (produce (l :: rest) g).2.produced := by
  rw [produce, if_neg (by simpa [Free] using hl)]
  obtain ⟨given, hgiven⟩ := exists_produce_eq rest { g with produced := l :: g.produced }
  rw [hgiven]
  exact List.mem_append_right _ List.mem_cons_self

theorem consume_of_inner_eq_nil (h : inner ls = []) : consume ls g = (.ok (), g) :=
  consume_eq_ok_iff.mpr (by simp [h])

/-- The first stream that cannot be taken ends an operation. -/
theorem run_push_of_not_consumed {e : GraphError} (hins : op.inputs ≠ []) (houts : op.outputs ≠ [])
    (h : consume op.inputs g = (.error e, g')) : (push op).run g = (.error e, g') := by
  change push op g = _
  rw [push, if_neg (by simpa using hins), if_neg (by simpa using houts), h]

/-- If all can be taken, the first stream that cannot be given does. -/
theorem run_push_of_not_produced {e : GraphError} {g₁ : Graph} (hins : op.inputs ≠ [])
    (houts : op.outputs ≠ []) (h : consume op.inputs g = (.ok (), g₁))
    (h' : produce op.outputs g₁ = (.error e, g')) : (push op).run g = (.error e, g') := by
  change push op g = _
  simp only [push, List.isEmpty_iff, hins, houts, if_false, h, h']

/-! ## One refused operation -/

/-- An operation that a graph does not take. -/
structure Refusal where
  before : Graph
  op : Operation

namespace Refusal

variable {r : Refusal}

/-- The graph that was left. -/
def after (r : Refusal) : Graph := ((push r.op).run r.before).2

/-- What the graph would have taken before, it still takes. -/
def Harmless (r : Refusal) : Prop := ∀ op, r.before.Accepts op → r.after.Accepts op

/-- The operation is refused at its first mark: a side of it is empty, or the first stream that it
takes from no input is not available, or it takes from inputs only and the first stream that it
gives is not free. -/
def Unmarked (r : Refusal) : Prop :=
  r.op.inputs = [] ∨ r.op.outputs = [] ∨
    (∃ l rest, inner r.op.inputs = l :: rest ∧ ¬ r.before.Available l) ∨
      inner r.op.inputs = [] ∧ ∃ o rest, r.op.outputs = o :: rest ∧ ¬ r.before.Free o

/-- The operation takes streams that are available and gives a free one first. -/
def Late (r : Refusal) : Prop :=
  r.op.inputs ≠ [] ∧ ((inner r.op.inputs).Nodup ∧ ∀ l ∈ inner r.op.inputs, r.before.Available l) ∧
    ∃ o rest, r.op.outputs = o :: rest ∧ r.before.Free o

/-- It is refused for the first stream that cannot be taken, or that cannot be given if all can be
taken. -/
theorem after_cases (hins : r.op.inputs ≠ []) (houts : r.op.outputs ≠ [])
    (hrefused : ¬ r.before.Accepts r.op) :
    (∃ e, consume r.op.inputs r.before = (.error e, r.after)) ∨
      ∃ g e, consume r.op.inputs r.before = (.ok (), g) ∧
        produce r.op.outputs g = (.error e, r.after) := by
  rcases hconsume : consume r.op.inputs r.before with ⟨e | _, g⟩
  · exact .inl ⟨e, by rw [after, run_push_of_not_consumed hins houts hconsume]⟩
  · rcases hproduce : produce r.op.outputs g with ⟨e | _, g'⟩
    · refine .inr ⟨g, e, rfl, ?_⟩
      rw [after, run_push_of_not_produced hins houts hconsume hproduce, hproduce]
    · exact (hrefused (congrArg Prod.fst (push_eq_ok_iff_exists.mpr
        ⟨hins, houts, g, g', hconsume, hproduce, rfl⟩))).elim

theorem Unmarked.after_eq (h : r.Unmarked) (hrefused : ¬ r.before.Accepts r.op) :
    r.after = r.before := by
  by_cases hins : r.op.inputs = []
  · simp [after, push, ExceptT.run, hins]
  by_cases houts : r.op.outputs = []
  · simp [after, push, ExceptT.run, hins, houts]
  have hcases := after_cases hins houts hrefused
  rcases h with h | h | ⟨l, rest, hfirst, hl⟩ | ⟨hinputs, o, rest, hfirst, ho⟩
  · exact (hins h).elim
  · exact (houts h).elim
  · obtain ⟨e, he⟩ := exists_consume_eq_error hfirst hl
    rcases hcases with ⟨e', he'⟩ | ⟨g, e', hg, -⟩
    · exact (Prod.mk.inj (he'.symm.trans he)).2
    · exact absurd (hg.symm.trans he) (by simp)
  · have hg := consume_of_inner_eq_nil (g := r.before) hinputs
    obtain ⟨e, he⟩ := exists_produce_eq_error rest ho
    rcases hcases with ⟨e', he'⟩ | ⟨g, e', hg', he'⟩
    · exact absurd (he'.symm.trans hg) (by simp)
    · obtain rfl := (Prod.mk.inj (hg'.symm.trans hg)).2
      rw [hfirst] at he'
      exact (Prod.mk.inj (he'.symm.trans he)).2

/-- The first stream that would have been given is marked where nothing had to be taken. -/
theorem mem_produced_after {o : Label} {rest : List Label} (hins : r.op.inputs ≠ [])
    (hrefused : ¬ r.before.Accepts r.op) (hinputs : inner r.op.inputs = [])
    (hfirst : r.op.outputs = o :: rest) (ho : r.before.Free o) : o ∈ r.after.produced := by
  have houts : r.op.outputs ≠ [] := hfirst ▸ List.cons_ne_nil o rest
  have hg := consume_of_inner_eq_nil (g := r.before) hinputs
  rcases after_cases hins houts hrefused with ⟨e, he⟩ | ⟨g, e, hg', he⟩
  · exact absurd (he.symm.trans hg) (by simp)
  · obtain rfl := (Prod.mk.inj (hg'.symm.trans hg)).2
    have hmarked := mem_produced_of_free rest ho
    rwa [← hfirst, he] at hmarked

/-- The first stream that would have been taken is marked, whatever was refused then. -/
theorem mem_consumed_after {l : Label} {rest : List Label} (hins : r.op.inputs ≠ [])
    (houts : r.op.outputs ≠ []) (hrefused : ¬ r.before.Accepts r.op)
    (hinputs : inner r.op.inputs = l :: rest) (hl : r.before.Available l) :
    l ∈ r.after.consumed := by
  have hmarked : l ∈ (consume r.op.inputs r.before).2.consumed :=
    mem_consumed_of_available hinputs hl
  rcases after_cases hins houts hrefused with ⟨e, he⟩ | ⟨g, e, hg, he⟩
  · rwa [he] at hmarked
  · obtain ⟨given, hgiven⟩ := exists_produce_eq r.op.outputs g
    rw [he] at hgiven
    rw [hg] at hmarked
    rwa [show r.after = _ from hgiven]

/-- After a mark there is an operation that the graph would have taken and does not take any more. -/
theorem exists_lost (hrefused : ¬ r.before.Accepts r.op) (h : ¬ r.Unmarked) :
    ∃ op, r.before.Accepts op ∧ ¬ r.after.Accepts op := by
  simp only [Unmarked, not_or] at h
  obtain ⟨hins, houts, htaken, hgiven⟩ := h
  cases hinputs : inner r.op.inputs with
  | nil =>
      obtain ⟨o, rest, hfirst⟩ := List.exists_cons_of_ne_nil houts
      have ho : r.before.Free o := by
        by_contra ho
        exact hgiven ⟨hinputs, o, rest, hfirst, ho⟩
      have hmarked := mem_produced_after hins hrefused hinputs hfirst ho
      refine ⟨⟨[.video 0], "null", [o]⟩, accepts_single_iff.mpr ⟨?_, ho⟩, fun hlost => ?_⟩
      · simp [Label.isInput_video]
      · exact (accepts_single_iff.mp hlost).2.2 hmarked
  | cons l rest =>
      have hl : r.before.Available l := by
        by_contra hl
        exact htaken ⟨l, rest, hinputs, hl⟩
      have hinner : l.isInput = false := (mem_inner.mp (hinputs ▸ List.mem_cons_self)).2
      have hmarked := mem_consumed_after hins houts hrefused hinputs hl
      obtain ⟨o, ho⟩ := r.before.exists_free
      refine ⟨⟨[l], "null", [o]⟩, accepts_single_iff.mpr ⟨fun _ => hl, ho⟩, fun hlost => ?_⟩
      exact ((accepts_single_iff.mp hlost).1 hinner).2 hmarked

theorem harmless_iff (hrefused : ¬ r.before.Accepts r.op) : r.Harmless ↔ r.Unmarked := by
  constructor
  · intro h
    by_contra hmarked
    obtain ⟨op, hbefore, hafter⟩ := exists_lost hrefused hmarked
    exact hafter (h op hbefore)
  · intro h op hop
    rwa [h.after_eq hrefused]

/-- A refused operation changes nothing but the marks. -/
theorem exists_after_eq (hrefused : ¬ r.before.Accepts r.op) : ∃ given taken, r.after =
    { r.before with
      produced := given ++ r.before.produced, consumed := taken ++ r.before.consumed } := by
  by_cases hunmarked : r.Unmarked
  · exact ⟨[], [], hunmarked.after_eq hrefused⟩
  simp only [Unmarked, not_or] at hunmarked
  obtain ⟨taken, htaken⟩ := exists_consume_eq r.op.inputs r.before
  rcases after_cases hunmarked.1 hunmarked.2.1 hrefused with ⟨e, he⟩ | ⟨g, e, hg, he⟩
  · rw [he] at htaken
    exact ⟨[], taken, htaken⟩
  · obtain ⟨given, hgiven⟩ := exists_produce_eq r.op.outputs g
    rw [he] at hgiven
    rw [hg] at htaken
    exact ⟨given, taken, by rw [show r.after = _ from hgiven, show g = _ from htaken]⟩

/-- A refused operation is not recorded. -/
theorem ops_after (hrefused : ¬ r.before.Accepts r.op) : r.after.ops = r.before.ops := by
  obtain ⟨given, taken, hafter⟩ := exists_after_eq hrefused
  rw [hafter]

/-- Only an operation that is refused late leaves streams that count as given. -/
theorem produced_after (hrefused : ¬ r.before.Accepts r.op) (hlate : ¬ r.Late) :
    r.after.produced = r.before.produced := by
  by_cases hunmarked : r.Unmarked
  · rw [hunmarked.after_eq hrefused]
  simp only [Unmarked, not_or] at hunmarked
  obtain ⟨hins, houts, -⟩ := hunmarked
  obtain ⟨taken, htaken⟩ := exists_consume_eq r.op.inputs r.before
  rcases after_cases hins houts hrefused with ⟨e, he⟩ | ⟨g, e, hg, he⟩
  · rw [he] at htaken
    rw [show r.after = _ from htaken]
  · obtain ⟨o, rest, hfirst⟩ := List.exists_cons_of_ne_nil houts
    obtain ⟨hnodup, havailable, -⟩ := consume_eq_ok_iff.mp hg
    rw [hg] at htaken
    have hproduced : g.produced = r.before.produced := by rw [show g = _ from htaken]
    have ho : ¬ g.Free o := by
      rw [Free, hproduced]
      exact fun ho => hlate ⟨hins, ⟨hnodup, havailable⟩, o, rest, hfirst, ho⟩
    obtain ⟨e', he'⟩ := exists_produce_eq_error rest ho
    rw [hfirst, he'] at he
    rw [← (Prod.mk.inj he).2, hproduced]

theorem not_late_of_unmarked (h : r.Unmarked) : ¬ r.Late := by
  rintro ⟨hins, ⟨-, havailable⟩, o, rest, hfirst, ho⟩
  rcases h with h | h | ⟨l, rest', hl, hnot⟩ | ⟨-, o', rest', hfirst', ho'⟩
  · exact hins h
  · rw [hfirst] at h
    cases h
  · exact hnot (havailable l (hl ▸ List.mem_cons_self))
  · rw [hfirst] at hfirst'
    cases hfirst'
    exact ho' ho

end Refusal

/-! ## Calls that may be refused -/

/-- A call that adds to a graph. -/
inductive Call where
  | push (op : Operation)
  | append (stage : Stage)

namespace Call

/-- The operations that a call asks for. -/
def operations : Call → List Operation
  | .push op => [op]
  | .append stage => stage.ops

/-- The graph that a call leaves, whether it succeeds or not. -/
def leaves : Call → Graph → Graph
  | .push op, g => ((Graph.push op).run g).2
  | .append stage, g => ((Graph.append stage).run g).2

theorem leaves_eq (call : Call) (g : Graph) :
    call.leaves g = ((pushAll call.operations).run g).2 := by
  cases call with
  | push op =>
      change ((Graph.push op).run g).2 = ((pushAll [op]).run g).2
      rw [run_pushAll_singleton]
  | append stage =>
      change ((Graph.append stage).run g).2 = ((pushAll stage.ops).run g).2
      rw [run_append]
      rcases (pushAll stage.ops).run g with ⟨e | _, g'⟩ <;> rfl

end Call

/-- The graph after some calls. -/
def leftBy : List Call → Graph → Graph
  | [], g => g
  | call :: rest, g => leftBy rest (call.leaves g)

/-- The operation at which adding these is given up, if there is one. -/
def refusalOf : List Operation → Graph → List Refusal
  | [], _ => []
  | op :: rest, g =>
    match (push op).run g with
    | (.ok (), g') => refusalOf rest g'
    | (.error _, _) => [⟨g, op⟩]

/-- The operations that are refused in the course of some calls. -/
def refusals : List Call → Graph → List Refusal
  | [], _ => []
  | call :: rest, g => refusalOf call.operations g ++ refusals rest (call.leaves g)

theorem refused_of_mem_refusalOf {ops : List Operation} {r : Refusal} (hr : r ∈ refusalOf ops g) :
    ¬ r.before.Accepts r.op := by
  induction ops generalizing g with
  | nil => cases hr
  | cons op rest ih =>
      rw [refusalOf] at hr
      split at hr
      · exact ih hr
      · rename_i e g' hpush
        obtain rfl := List.mem_singleton.mp hr
        simp [Accepts, hpush]

theorem refused_of_mem {calls : List Call} {r : Refusal} (hr : r ∈ refusals calls g) :
    ¬ r.before.Accepts r.op := by
  induction calls generalizing g with
  | nil => cases hr
  | cons call rest ih => exact (List.mem_append.mp hr).elim refused_of_mem_refusalOf ih

section Keeps

variable {motive : Graph → Prop}

/-- What an accepted and a refused operation keep, adding operations keeps. -/
theorem keeps_pushAll
    (haccepted : ∀ {g g' op}, (push op).run g = (.ok (), g') → motive g → motive g')
    {ops : List Operation} (hrefused : ∀ r ∈ refusalOf ops g, motive r.before → motive r.after)
    (h : motive g) : motive ((pushAll ops).run g).2 := by
  induction ops generalizing g with
  | nil => exact h
  | cons op rest ih =>
      rw [refusalOf] at hrefused
      rw [run_pushAll_cons]
      rcases hop : (push op).run g with ⟨e | _, g'⟩ <;> rw [hop] at hrefused
      · have hleft := hrefused ⟨g, op⟩ (List.mem_singleton_self _) h
        rwa [Refusal.after, hop] at hleft
      · exact ih hrefused (haccepted hop h)

/-- What an accepted and a refused operation keep, calls keep. -/
theorem keeps_leftBy
    (haccepted : ∀ {g g' op}, (push op).run g = (.ok (), g') → motive g → motive g')
    {calls : List Call} (hrefused : ∀ r ∈ refusals calls g, motive r.before → motive r.after)
    (h : motive g) : motive (leftBy calls g) := by
  induction calls generalizing g with
  | nil => exact h
  | cons call rest ih =>
      refine ih (fun r hr => hrefused r (List.mem_append_right _ hr)) ?_
      rw [call.leaves_eq]
      exact keeps_pushAll haccepted (fun r hr => hrefused r (List.mem_append_left _ hr)) h

end Keeps

/-- Every stream that counts as given is given by an operation. -/
def Truthful (g : Graph) : Prop := ∀ l ∈ g.produced, l ∈ g.ops.flatMap Operation.outputs

theorem truthful_and_takesGiven_of_push (hrun : (push op).run g = (.ok (), g'))
    (h : g.Truthful ∧ g.TakesGiven) : g'.Truthful ∧ g'.TakesGiven := by
  obtain ⟨htruthful, htakes⟩ := h
  have hops := ops_of_push hrun
  obtain ⟨-, -, ⟨-, hgiven⟩, -, hg'⟩ := push_eq_ok_iff.mp hrun
  refine ⟨fun l hl => ?_, htakes.record hops fun l hl hinput => ?_⟩
  · rw [hops, List.flatMap_append, List.flatMap_singleton, List.mem_append]
    rw [hg'] at hl
    exact (List.mem_append.mp hl).symm.imp (htruthful l) List.mem_reverse.mp
  · exact htruthful l (hgiven l (mem_inner.mpr ⟨hl, hinput⟩)).1

theorem truthful_and_takesGiven_of_refusal {r : Refusal} (hrefused : ¬ r.before.Accepts r.op)
    (hlate : ¬ r.Late) (h : r.before.Truthful ∧ r.before.TakesGiven) :
    r.after.Truthful ∧ r.after.TakesGiven := by
  obtain ⟨htruthful, htakes⟩ := h
  have hops := r.ops_after hrefused
  refine ⟨fun l hl => ?_, fun k l => ?_⟩
  · rw [hops]
    exact htruthful l (r.produced_after hrefused hlate ▸ hl)
  · rw [Consumes, hops]
    simp only [Produces, hops]
    exact htakes k l

/-- Operations only take what earlier ones gave, as long as none is refused late. -/
theorem takesGiven_leftBy {calls : List Call} (h : ∀ r ∈ refusals calls {}, ¬ r.Late) :
    (leftBy calls {}).TakesGiven := by
  refine (keeps_leftBy (motive := fun g => g.Truthful ∧ g.TakesGiven)
    truthful_and_takesGiven_of_push (fun r hr =>
      truthful_and_takesGiven_of_refusal (refused_of_mem hr) (h r hr)) ⟨?_, ?_⟩).2
  · simp [Truthful]
  · rintro k l ⟨op, hk, -⟩
    simp at hk

/-- Refused operations do no harm, neither to the order of operations nor to the ones that may still
come, exactly if each of them is refused at its first mark. The order of operations is only harmed by
operations that are refused late. -/
theorem refusals_harmless_iff (calls : List Call) :
    (((leftBy calls {}).TakesGiven ∧ ∀ r ∈ refusals calls {}, r.Harmless) ↔
      ∀ r ∈ refusals calls {}, r.Unmarked) ∧
    ((∀ r ∈ refusals calls {}, ¬ r.Late) → (leftBy calls {}).TakesGiven) := by
  refine ⟨⟨fun h r hr => ?_, fun h => ⟨?_, fun r hr => ?_⟩⟩, takesGiven_leftBy⟩
  · exact (Refusal.harmless_iff (refused_of_mem hr)).mp (h.2 r hr)
  · exact takesGiven_leftBy fun r hr => Refusal.not_late_of_unmarked (h r hr)
  · exact (Refusal.harmless_iff (refused_of_mem hr)).mpr (h r hr)

/-- A stream that no operation gives is asked for, and given only afterwards. -/
def askedTooEarly : List Call :=
  [.push ⟨[⟨"a"⟩], "null", [⟨"b"⟩]⟩, .push ⟨[.video 0], "null", [⟨"a"⟩]⟩]

theorem refusals_askedTooEarly :
    refusals askedTooEarly {} = [⟨{}, ⟨[⟨"a"⟩], "null", [⟨"b"⟩]⟩⟩] := rfl

theorem refusals_harmless_iff_askedTooEarly :
    (∀ r ∈ refusals askedTooEarly {}, r.Unmarked) ∧ (∀ r ∈ refusals askedTooEarly {}, ¬ r.Late) ∧
      (leftBy askedTooEarly {}).TakesGiven ∧ ∀ r ∈ refusals askedTooEarly {}, r.Harmless := by
  have hunmarked : ∀ r ∈ refusals askedTooEarly {}, r.Unmarked := by
    intro r hr
    rw [refusals_askedTooEarly, List.mem_singleton] at hr
    subst hr
    exact .inr (.inr (.inl ⟨⟨"a"⟩, [], rfl, by decide⟩))
  exact ⟨hunmarked, fun r hr => Refusal.not_late_of_unmarked (hunmarked r hr),
    (refusals_harmless_iff askedTooEarly).1.mpr hunmarked⟩

/-- An operation that gives a stream twice is refused, and the stream is taken by the next one. -/
def givenTwice : List Call :=
  [.push ⟨[.video 0], "null", [⟨"x"⟩, ⟨"x"⟩]⟩, .push ⟨[⟨"x"⟩], "null", [⟨"y"⟩]⟩]

/-- The operation that is recorded takes a stream that none gives. The stream could have been given
before, and cannot any more. -/
theorem not_harmless : ¬ (leftBy givenTwice {}).TakesGiven ∧
    ¬ ∀ r ∈ refusals givenTwice {}, r.Harmless := by
  constructor
  · intro h
    obtain ⟨j, hj, -⟩ := h 0 ⟨"x"⟩ ⟨_, rfl, List.mem_singleton_self _⟩ (by decide)
    exact Nat.not_lt_zero j hj
  · intro h
    have hrefused : (⟨{}, ⟨[.video 0], "null", [⟨"x"⟩, ⟨"x"⟩]⟩⟩ : Refusal) ∈
        refusals givenTwice {} := List.mem_singleton_self _
    have hafter := h _ hrefused ⟨[.video 0], "null", [⟨"x"⟩]⟩ rfl
    exact absurd (accepts_single_iff.mp hafter).2.2 (by decide)

end Slideshow.Graph
