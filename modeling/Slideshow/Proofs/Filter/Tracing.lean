import Slideshow.Proofs.Filter.Acceptance
import Mathlib.Algebra.BigOperators.Group.List.Basic
import Mathlib.Algebra.GroupWithZero.Nat
import Mathlib.Data.List.Sort
import Mathlib.Data.String.Basic

/-! # Tracing streams back

The search for the inputs of a stream follows streams from the operation that gives them to what it
takes, each of them once. It ends, and what it has found then are the inputs that the stream is made
of. -/

namespace Slideshow

/-- Every stream is given once at most, and no input is given. -/
structure GivenOnce (ops : List Operation) : Prop where
  nodup : (ops.flatMap Operation.outputs).Nodup
  isInput : ∀ l ∈ ops.flatMap Operation.outputs, l.isInput = false

namespace GivenOnce

variable {ops ops' : List Operation} {l : Label}

theorem not_made (h : GivenOnce ops) (hl : l.isInput = true) :
    l ∉ ops.flatMap Operation.outputs := by
  intro hmade
  rw [h.isInput l hmade] at hl
  cases hl

/-- Operations that give what was not given before may be added. -/
theorem append (h : GivenOnce ops) (h' : GivenOnce ops')
    (hnew : ∀ l ∈ ops'.flatMap Operation.outputs, l ∉ ops.flatMap Operation.outputs) :
    GivenOnce (ops ++ ops') where
  nodup := by
    rw [List.flatMap_append]
    refine List.nodup_append.mpr ⟨h.nodup, h'.nodup, ?_⟩
    rintro l hl _ hl' rfl
    exact hnew l hl' hl
  isInput l hl := by
    rw [List.flatMap_append, List.mem_append] at hl
    exact hl.elim (h.isInput l) (h'.isInput l)

end GivenOnce

namespace Search

variable {ops : List Operation} {op : Operation} {s : Search} {l v : Label}
  {pending feeding : List Label}

/-! ## One step -/

theorem gives_of_producer? (h : producer? ops l = some op) : op ∈ ops ∧ l ∈ op.outputs :=
  ⟨List.mem_reverse.mp (List.mem_of_find?_eq_some h), by simpa using List.find?_some h⟩

theorem producer?_eq_none (h : producer? ops l = none) : l ∉ ops.flatMap Operation.outputs := by
  intro hmade
  obtain ⟨op, hop, hl⟩ := List.mem_flatMap.mp hmade
  have hnone := List.find?_eq_none.mp h op (List.mem_reverse.mpr hop)
  simp [hl] at hnone

/-- The operation that is looked up feeds the stream, and no other one does. -/
theorem mem_inputs_iff_feeds (h : GivenOnce ops) (hop : producer? ops l = some op) {l' : Label} :
    l' ∈ op.inputs ↔ Feeds ops l' l := by
  obtain ⟨hmem, hl⟩ := gives_of_producer? hop
  constructor
  · exact fun hl' => ⟨op, hmem, hl', hl⟩
  · rintro ⟨op', hop', hl', hgiven⟩
    obtain ⟨i, hi⟩ := List.mem_iff_getElem?.mp hmem
    obtain ⟨j, hj⟩ := List.mem_iff_getElem?.mp hop'
    obtain rfl := Flow.position_unique h.nodup hi hj hl hgiven
    rwa [Option.some.inj (hi.symm.trans hj)]

theorem not_feeds_of_isInput (h : GivenOnce ops) (hl : l.isInput = true) (l' : Label) :
    ¬ Feeds ops l' l := by
  rintro ⟨op, hop, -, hmade⟩
  exact h.not_made hl (List.mem_flatMap.mpr ⟨op, hop, hmade⟩)

/-- A stream is passed over if it was seen. Otherwise all that feeds it becomes pending. -/
theorem step_cases (h : GivenOnce ops) (hpending : s.pending = l :: pending) :
    (l ∈ s.seen ∧ s.step ops = { s with pending }) ∨
      (l ∉ s.seen ∧ ∃ feeding, (∀ l', l' ∈ feeding ↔ Feeds ops l' l) ∧
        s.step ops = ⟨feeding ++ pending, l :: s.seen,
          if l.isInput then l :: s.found else s.found⟩) := by
  unfold step
  rw [hpending]
  by_cases hseen : l ∈ s.seen
  · exact .inl ⟨hseen, if_pos (by simpa using hseen)⟩
  · refine .inr ⟨hseen, ?_⟩
    have hnew : ¬ s.seen.contains l = true := by simpa using hseen
    dsimp only
    rw [if_neg hnew]
    by_cases hinput : l.isInput = true
    · refine ⟨[], fun l' => by simpa using not_feeds_of_isInput h hinput l', ?_⟩
      rw [if_pos hinput, if_pos hinput]
      rfl
    · rw [if_neg hinput, if_neg hinput]
      cases hop : producer? ops l with
      | some op =>
          exact ⟨op.inputs.reverse, fun l' => List.mem_reverse.trans (mem_inputs_iff_feeds h hop),
            rfl⟩
      | none =>
          refine ⟨[], fun l' => ?_, rfl⟩
          simp only [List.not_mem_nil, false_iff]
          rintro ⟨op, hmem, -, hl⟩
          exact producer?_eq_none hop (List.mem_flatMap.mpr ⟨op, hmem, hl⟩)

/-! ## What a search keeps -/

/-- The streams that a search for `v` has met flow into `v`, and what feeds a stream that was seen
has been met as well. -/
structure Explores (ops : List Operation) (v : Label) (s : Search) : Prop where
  flows : ∀ l, l ∈ s.pending ∨ l ∈ s.seen → FlowsInto ops l v
  start : v ∈ s.pending ∨ v ∈ s.seen
  closed : ∀ l ∈ s.seen, ∀ l', Feeds ops l' l → l' ∈ s.pending ∨ l' ∈ s.seen
  found : ∀ l, l ∈ s.found ↔ l ∈ s.seen ∧ l.isInput = true
  nodup : s.found.Nodup

theorem explores_start (v : Label) : Explores ops v { pending := [v] } where
  flows l hl := by
    obtain rfl : l = v := by simpa using hl
    exact .refl
  start := by simp
  closed := by simp
  found := by simp
  nodup := .nil

/-- A stream that was seen may be passed over. -/
theorem Explores.pass (hs : Explores ops v s) (hpending : s.pending = l :: pending)
    (hseen : l ∈ s.seen) : Explores ops v { s with pending } := by
  have hstill : ∀ l', l' ∈ s.pending ∨ l' ∈ s.seen → l' ∈ pending ∨ l' ∈ s.seen := by
    intro l' hl'
    rw [hpending, List.mem_cons, or_assoc] at hl'
    rcases hl' with rfl | hl'
    · exact .inr hseen
    · exact hl'
  have hbefore : ∀ l', l' ∈ pending ∨ l' ∈ s.seen → l' ∈ s.pending ∨ l' ∈ s.seen := by
    intro l' hl'
    rw [hpending]
    exact hl'.imp_left (List.mem_cons_of_mem l)
  exact ⟨fun l' hl' => hs.flows l' (hbefore l' hl'), hstill v hs.start,
    fun l' hl' l'' hl'' => hstill l'' (hs.closed l' hl' l'' hl''), hs.found, hs.nodup⟩

/-- A stream that was not seen may be, when all that feeds it becomes pending. -/
theorem Explores.look (hs : Explores ops v s) (hpending : s.pending = l :: pending)
    (hnew : l ∉ s.seen) (hfeeding : ∀ l', l' ∈ feeding ↔ Feeds ops l' l) :
    Explores ops v ⟨feeding ++ pending, l :: s.seen,
      if l.isInput then l :: s.found else s.found⟩ := by
  have hl : FlowsInto ops l v := hs.flows l (.inl (hpending ▸ List.mem_cons_self))
  have hstill : ∀ l', l' ∈ s.pending ∨ l' ∈ s.seen →
      l' ∈ feeding ++ pending ∨ l' ∈ l :: s.seen := by
    intro l' hl'
    rw [hpending, List.mem_cons, or_assoc] at hl'
    rcases hl' with rfl | hl' | hl'
    · exact .inr List.mem_cons_self
    · exact .inl (List.mem_append_right feeding hl')
    · exact .inr (List.mem_cons_of_mem l hl')
  refine ⟨fun l' hl' => ?_, hstill v hs.start, fun l' hl' l'' hl'' => ?_, fun l' => ?_, ?_⟩
  · simp only [List.mem_append, List.mem_cons] at hl'
    rcases hl' with (hl' | hl') | rfl | hl'
    · exact hl.head ((hfeeding l').mp hl')
    · exact hs.flows l' (.inl (hpending ▸ List.mem_cons_of_mem l hl'))
    · exact hl
    · exact hs.flows l' (.inr hl')
  · rcases List.mem_cons.mp hl' with rfl | hl'
    · exact .inl (List.mem_append_left pending ((hfeeding l'').mpr hl''))
    · exact hstill l'' (hs.closed l' hl' l'' hl'')
  · by_cases hinput : l.isInput = true
    · simp only [hinput, if_true, List.mem_cons, hs.found, or_and_right]
      exact or_congr_left ⟨fun h => ⟨h, h ▸ hinput⟩, And.left⟩
    · simp only [hinput, if_false, Bool.false_eq_true, List.mem_cons, hs.found, or_and_right]
      have hother : ¬ (l' = l ∧ l'.isInput = true) := by
        rintro ⟨rfl, hl'⟩
        exact hinput hl'
      exact (or_iff_right hother).symm
  · dsimp only
    split
    · exact List.nodup_cons.mpr ⟨fun hl => hnew ((hs.found l).mp hl).1, hs.nodup⟩
    · exact hs.nodup

theorem Explores.step (h : GivenOnce ops) (hs : Explores ops v s) :
    Explores ops v (s.step ops) := by
  cases hpending : s.pending with
  | nil =>
      have hstep : s.step ops = s := by
        unfold Search.step
        rw [hpending]
      rwa [hstep]
  | cons l pending =>
      rcases step_cases h hpending with ⟨hseen, hstep⟩ | ⟨hnew, feeding, hfeeding, hstep⟩
      · rw [hstep]
        exact hs.pass hpending hseen
      · rw [hstep]
        exact hs.look hpending hnew hfeeding

/-! ## A whole search -/

theorem Explores.run (h : GivenOnce ops) (hs : Explores ops v s) : Explores ops v (s.run ops) := by
  induction s using Search.run.induct ops with
  | case1 s hdone =>
      rwa [Search.run, if_pos hdone]
  | case2 s hmore ih =>
      rw [Search.run, if_neg hmore]
      exact ih (hs.step h)

/-- A search is over after no more steps than its budget. -/
theorem exists_rounds (ops : List Operation) (s : Search) :
    ∃ n ≤ s.budget ops, (step ops)^[n] s = s.run ops ∧ (s.run ops).pending = [] := by
  induction s using Search.run.induct ops with
  | case1 s hdone =>
      rw [Search.run, if_pos hdone]
      exact ⟨0, Nat.zero_le _, rfl, List.isEmpty_iff.mp hdone⟩
  | case2 s hmore ih =>
      obtain ⟨n, hn, hrounds, hend⟩ := ih
      rw [Search.run, if_neg hmore]
      have hless : (s.step ops).budget ops < s.budget ops := budget_step_lt (by simpa using hmore)
      exact ⟨n + 1, by omega, hrounds, hend⟩

/-- All that flows into a stream was seen when nothing is pending. -/
theorem Explores.mem_seen_iff (hs : Explores ops v s) (hend : s.pending = []) :
    l ∈ s.seen ↔ FlowsInto ops l v := by
  refine ⟨fun hl => hs.flows l (.inr hl), fun hflows => ?_⟩
  have hmet : ∀ {l}, l ∈ s.pending ∨ l ∈ s.seen → l ∈ s.seen := by
    simp [hend]
  induction hflows using Relation.ReflTransGen.head_induction_on with
  | refl => exact hmet hs.start
  | head hfeeds _ ih => exact hmet (hs.closed _ ih _ hfeeds)

theorem owed_nil (ops : List Operation) :
    owed [] ops = (ops.map fun op => op.outputs.length * op.inputs.length).sum := by
  induction ops with
  | nil => rfl
  | cons op rest ih => simp [owed, ih]

end Search

/-! ## The inputs of a stream -/

namespace Graph

variable {g : Graph} {l v : Label}

theorem mem_traceInputs_iff_found :
    l ∈ g.traceInputs v ↔ l ∈ (Search.run g.ops { pending := [v] }).found := by
  simp only [traceInputs, List.mem_map, List.mem_mergeSort]
  constructor
  · rintro ⟨_, ⟨l', hl', rfl⟩, rfl⟩
    exact hl'
  · exact fun hl => ⟨l.name, ⟨l, hl, rfl⟩, rfl⟩

theorem mem_traceInputs (h : GivenOnce g.ops) :
    l ∈ g.traceInputs v ↔ l.isInput = true ∧ FlowsInto g.ops l v := by
  have hsearch := (Search.explores_start v).run h
  obtain ⟨-, -, -, hend⟩ := Search.exists_rounds g.ops { pending := [v] }
  rw [mem_traceInputs_iff_found, hsearch.found, hsearch.mem_seen_iff hend, and_comm]

/-- The inputs are listed by name, each of them once. -/
theorem pairwise_traceInputs (h : GivenOnce g.ops) :
    ((g.traceInputs v).map Label.name).Pairwise (· < ·) := by
  let names := (Search.run g.ops { pending := [v] }).found.map Label.name
  have hnames : (g.traceInputs v).map Label.name = names.mergeSort := by
    simp [traceInputs, names, Function.comp_def]
  have hnodup : names.Nodup :=
    ((Search.explores_start v).run h).nodup.map fun l l' hname => congrArg Label.mk hname
  rw [hnames]
  have hsorted := List.pairwise_mergeSort' (· ≤ ·) names
  exact hsorted.imp₂ (fun _ _ hle hne => lt_of_le_of_ne hle hne)
    ((List.mergeSort_perm names _).nodup_iff.mpr hnodup)

/-- What is found is one input where that is the only one that flows into the stream. -/
theorem traceInputs_eq_singleton (h : GivenOnce g.ops) {input : Label}
    (honly : ∀ l, l.isInput = true ∧ FlowsInto g.ops l v ↔ l = input) :
    g.traceInputs v = [input] := by
  have hnodup : (g.traceInputs v).Nodup := (pairwise_traceInputs h).nodup.of_map Label.name
  refine List.perm_singleton.mp ((List.perm_ext_iff_of_nodup hnodup
    (List.nodup_singleton input)).mpr fun l => ?_)
  rw [mem_traceInputs h, List.mem_singleton, honly]

/-- No call that succeeds gives an input or gives a stream again. -/
theorem Built.givenOnce (h : g.Built) : GivenOnce g.ops where
  nodup := h.accounted_and_ordered.2.given_once
  isInput := by
    refine h.induct (motive := fun g => ∀ l ∈ g.ops.flatMap Operation.outputs, l.isInput = false)
      (by simp) (fun _ _ h => h) ?_
    intro g g' op hrun h l hl
    obtain ⟨-, -, -, ⟨-, hgives⟩, rfl⟩ := push_eq_ok_iff.mp hrun
    rw [List.flatMap_append, List.flatMap_singleton, List.mem_append] at hl
    exact hl.elim (h l) fun hl => (hgives l hl).1

/-- These are the inputs that a stream is made of, by name. An input is made of itself, and a stream
that no operation gives of nothing. -/
structure Traced (g : Graph) (v : Label) (found : List Label) : Prop where
  mem_iff : ∀ l, l ∈ found ↔ l.isInput = true ∧ FlowsInto g.ops l v
  sorted : (found.map Label.name).Pairwise (· < ·)
  input : v.isInput = true → found = [v]
  unknown : v.isInput = false → (∀ k, ¬ g.Produces k v) → found = []

theorem traced_traceInputs (h : GivenOnce g.ops) (v : Label) : g.Traced v (g.traceInputs v) := by
  refine ⟨fun _ => mem_traceInputs h, pairwise_traceInputs h, fun hinput => ?_,
    fun hinner hunknown => ?_⟩
  · refine traceInputs_eq_singleton h fun l => ?_
    constructor
    · rintro ⟨-, hflows⟩
      exact hflows.eq_of_not_made (h.not_made hinput)
    · rintro rfl
      exact ⟨hinput, .refl⟩
  · refine List.eq_nil_iff_forall_not_mem.mpr fun l hl => ?_
    obtain ⟨hinput, hflows⟩ := (mem_traceInputs h).mp hl
    have hmade : v ∉ g.ops.flatMap Operation.outputs := fun hmade =>
      (exists_produces_iff.mpr hmade).elim hunknown
    rw [hflows.eq_of_not_made hmade, hinner] at hinput
    cases hinput

/-- In a graph none of whose calls failed, the search for the inputs of a stream is over after one
step for the stream and at most one for each pair of an output and an input of an operation. It finds
the inputs that the stream is made of. -/
theorem Built.search_finds_inputs (h : g.Built) (v : Label) :
    (∃ n ≤ 1 + (g.ops.map fun op => op.outputs.length * op.inputs.length).sum,
      let search := (Search.step g.ops)^[n] { pending := [v] }
      search.pending = [] ∧ ∀ l, l ∈ g.traceInputs v ↔ l ∈ search.found) ∧
    g.Traced v (g.traceInputs v) := by
  refine ⟨?_, traced_traceInputs h.givenOnce v⟩
  obtain ⟨n, hn, hrounds, hend⟩ := Search.exists_rounds g.ops { pending := [v] }
  rw [Search.budget, Search.owed_nil, List.length_singleton] at hn
  refine ⟨n, hn, ?_⟩
  rw [hrounds]
  exact ⟨hend, fun l => mem_traceInputs_iff_found⟩

/-- The graph that copies a picture and joins the copies. -/
def rejoining : Graph where
  ops := copying.ops ++ [⟨[⟨"a0"⟩, ⟨"a0_1"⟩], "concat=n=2:v=1:a=0", [⟨"b1"⟩]⟩]
  produced := ⟨"b1"⟩ :: copying.produced
  consumed := [⟨"a0_1"⟩, ⟨"a0"⟩]
  stages := 1

theorem built_rejoining : rejoining.Built := by
  have hpush : (Graph.push ⟨[⟨"a0"⟩, ⟨"a0_1"⟩], "concat=n=2:v=1:a=0", [⟨"b1"⟩]⟩).run copying =
      (.ok (), rejoining) :=
    push_eq_ok_iff.mpr ⟨by decide, by decide, by decide, by decide, by decide⟩
  exact .push built_copying hpush

/-- What is joined is made of the picture, which is found although both copies lead to it, and not
of any sound. -/
theorem Built.search_finds_inputs_rejoining : rejoining.Built ∧
    Label.video 0 ∈ rejoining.traceInputs ⟨"b1"⟩ ∧ Label.audio 0 ∉ rejoining.traceInputs ⟨"b1"⟩ := by
  have htraced := (built_rejoining.search_finds_inputs ⟨"b1"⟩).2
  have hcopied : Feeds rejoining.ops (.video 0) ⟨"a0"⟩ :=
    ⟨_, List.mem_cons_self, by decide, by decide⟩
  have hjoined : Feeds rejoining.ops ⟨"a0"⟩ ⟨"b1"⟩ :=
    ⟨_, List.mem_cons_of_mem _ List.mem_cons_self, by decide, by decide⟩
  refine ⟨built_rejoining, (htraced.mem_iff _).mpr ⟨by decide, .tail (.single hcopied) hjoined⟩, ?_⟩
  intro hsound
  have hflows : FlowsInto rejoining.ops (.audio 0) ⟨"b1"⟩ := ((htraced.mem_iff _).mp hsound).2
  exact absurd hflows.taken (by decide)

end Graph

end Slideshow
