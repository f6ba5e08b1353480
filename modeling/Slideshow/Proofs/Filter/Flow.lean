import Slideshow.Proofs.Filter.Label
import Mathlib.Data.List.Nodup
import Mathlib.Logic.Relation

/-! # The flow of streams

A list of operations is a flow from some sources if every operation takes streams that are held when
its turn comes, each of them once, and gives streams that never were there before. What is held in
the end is what no operation took. -/

namespace Slideshow

/-! ## What a stream is made of -/

/-- One of the operations takes the first stream and gives the second. -/
def Feeds (ops : List Operation) (l v : Label) : Prop :=
  ∃ op ∈ ops, l ∈ op.inputs ∧ v ∈ op.outputs

/-- The second stream is made of the first by any number of operations. -/
abbrev FlowsInto (ops : List Operation) : Label → Label → Prop := Relation.ReflTransGen (Feeds ops)

namespace FlowsInto

variable {ops later : List Operation} {l v : Label}

theorem append (h : FlowsInto ops l v) : FlowsInto (ops ++ later) l v := by
  have hfeeds : Feeds ops ≤ Feeds (ops ++ later) :=
    fun _ _ ⟨op, hop, htakes⟩ => ⟨op, List.mem_append_left _ hop, htakes⟩
  exact Relation.ReflTransGen.mono hfeeds _ _ h

/-- A stream is made of itself and of what operations take. -/
theorem taken (h : FlowsInto ops l v) : l = v ∨ l ∈ ops.flatMap Operation.inputs := by
  rcases h.cases_head with heq | ⟨_, ⟨op, hop, hl, -⟩, -⟩
  · exact .inl heq
  · exact .inr (List.mem_flatMap.mpr ⟨op, hop, hl⟩)

/-- Nothing flows into a stream that no operation gives. -/
theorem eq_of_not_made (h : FlowsInto ops l v) (hv : v ∉ ops.flatMap Operation.outputs) :
    l = v := by
  rcases h.cases_tail with heq | ⟨_, -, op, hop, -, hmade⟩
  · exact heq.symm
  · exact (hv (List.mem_flatMap.mpr ⟨op, hop, hmade⟩)).elim

/-- Operations that give nothing which is used can be left out. -/
theorem of_append (h : FlowsInto (ops ++ later) l v)
    (hnew : ∀ l ∈ later.flatMap Operation.outputs, l ≠ v ∧ l ∉ ops.flatMap Operation.inputs) :
    FlowsInto ops l v := by
  induction h using Relation.ReflTransGen.head_induction_on with
  | refl => exact .refl
  | head hfeeds _ ih =>
      obtain ⟨op, hop, htaken, hgiven⟩ := hfeeds
      rcases List.mem_append.mp hop with hop | hop
      · exact ih.head ⟨op, hop, htaken, hgiven⟩
      · obtain ⟨hne, hunused⟩ := hnew _ (List.mem_flatMap.mpr ⟨op, hop, hgiven⟩)
        exact (ih.taken.elim hne hunused).elim

end FlowsInto

/-! ## Flows -/

/-- The operations, one after another, and the streams that are held after them. -/
inductive Flow (sources : List Label) : List Operation → List Label → Prop where
  | start {held : List Label} : held.Perm sources → Flow sources [] held
  | push {ops : List Operation} {op : Operation} {before held rest : List Label} :
      Flow sources ops before → before.Perm (op.inputs ++ rest) →
      held.Perm (op.outputs ++ rest) → op.outputs ≠ [] → op.outputs.Nodup →
      (∀ l ∈ op.outputs, l ∉ sources ∧ l ∉ ops.flatMap Operation.outputs) →
      Flow sources (ops ++ [op]) held

namespace Flow

variable {sources held held' : List Label} {ops : List Operation} {l : Label}

theorem perm (h : Flow sources ops held) (hp : held'.Perm held) : Flow sources ops held' := by
  cases h with
  | start hs => exact .start (hp.trans hs)
  | push h hin hout hne hnodup hnew => exact .push h hin (hp.trans hout) hne hnodup hnew

/-- What comes in goes out. -/
theorem balance (h : Flow sources ops held) (l : Label) :
    (ops.flatMap Operation.outputs).count l + sources.count l =
      (ops.flatMap Operation.inputs).count l + held.count l := by
  induction h with
  | start hs => simp [hs.count_eq l]
  | push h hin hout _ _ _ ih =>
      have hbefore := hin.count_eq l
      have hafter := hout.count_eq l
      simp only [List.flatMap_append, List.flatMap_singleton, List.count_append] at *
      omega

theorem once (h : Flow sources ops held) (hs : sources.Nodup) (l : Label) :
    (ops.flatMap Operation.outputs).count l + sources.count l ≤ 1 := by
  induction h with
  | start _ => simpa using List.nodup_iff_count_le_one.mp hs l
  | @push ops op _ _ _ h _ _ _ hnodup hnew ih =>
      simp only [List.flatMap_append, List.flatMap_singleton, List.count_append]
      by_cases hl : l ∈ op.outputs
      · obtain ⟨hsource, hmade⟩ := hnew l hl
        have hcount := List.nodup_iff_count_le_one.mp hnodup l
        rw [List.count_eq_zero.mpr hsource, List.count_eq_zero.mpr hmade]
        omega
      · rw [List.count_eq_zero.mpr hl]
        omega

theorem nodup_outputs (h : Flow sources ops held) (hs : sources.Nodup) :
    (ops.flatMap Operation.outputs).Nodup := by
  refine List.nodup_iff_count_le_one.mpr fun l => ?_
  have := h.once hs l
  omega

theorem nodup_inputs (h : Flow sources ops held) (hs : sources.Nodup) :
    (ops.flatMap Operation.inputs).Nodup := by
  refine List.nodup_iff_count_le_one.mpr fun l => ?_
  have := h.once hs l
  have := h.balance l
  omega

theorem nodup_held (h : Flow sources ops held) (hs : sources.Nodup) : held.Nodup := by
  refine List.nodup_iff_count_le_one.mpr fun l => ?_
  have := h.once hs l
  have := h.balance l
  omega

/-- What is held was not taken. -/
theorem not_taken (h : Flow sources ops held) (hs : sources.Nodup) (hl : l ∈ held) :
    l ∉ ops.flatMap Operation.inputs := by
  intro htaken
  have hin := List.count_pos_iff.mpr htaken
  have hheld := List.count_pos_iff.mpr hl
  have := h.once hs l
  have := h.balance l
  omega

theorem not_made_of_source (h : Flow sources ops held) (hs : sources.Nodup) (hl : l ∈ sources) :
    l ∉ ops.flatMap Operation.outputs := by
  intro hmade
  have hout := List.count_pos_iff.mpr hmade
  have hsource := List.count_pos_iff.mpr hl
  have := h.once hs l
  omega

theorem made_of_held (h : Flow sources ops held) (hl : l ∈ held) (hsource : l ∉ sources) :
    l ∈ ops.flatMap Operation.outputs := by
  have hheld := List.count_pos_iff.mpr hl
  have := h.balance l
  rw [List.count_eq_zero.mpr hsource] at this
  exact List.count_pos_iff.mp (by omega)

theorem taken_of_not_held (h : Flow sources ops held)
    (hl : l ∈ sources ∨ l ∈ ops.flatMap Operation.outputs) (hheld : l ∉ held) :
    l ∈ ops.flatMap Operation.inputs := by
  have := h.balance l
  rw [List.count_eq_zero.mpr hheld] at this
  rcases hl with hl | hl <;>
  · have hcount := List.count_pos_iff.mpr hl
    exact List.count_pos_iff.mp (by omega)

/-! ## The order of operations -/

/-- Only sources, and what was given before, are taken. -/
theorem taken_cases (h : Flow sources ops held) {k : ℕ} {op : Operation}
    (hk : ops[k]? = some op) (hl : l ∈ op.inputs) :
    l ∈ sources ∨ ∃ j op', j < k ∧ ops[j]? = some op' ∧ l ∈ op'.outputs := by
  induction h with
  | start _ => cases hk
  | @push ops op₁ before _ _ h hin _ _ _ _ ih =>
      by_cases hlast : k < ops.length
      · rw [List.getElem?_append_left hlast] at hk
        rcases ih hk with hsource | ⟨j, op', hj, hop', hl'⟩
        · exact .inl hsource
        · refine .inr ⟨j, op', hj, ?_, hl'⟩
          rw [List.getElem?_append_left (Nat.lt_trans hj hlast), hop']
      · rw [List.getElem?_append_right (by omega)] at hk
        cases List.mem_singleton.mp (List.mem_of_getElem? hk)
        have hbefore : l ∈ before := hin.mem_iff.mpr (List.mem_append_left _ hl)
        by_cases hsource : l ∈ sources
        · exact .inl hsource
        · obtain ⟨op', hop', hl'⟩ := List.mem_flatMap.mp (h.made_of_held hbefore hsource)
          obtain ⟨j, hj⟩ := List.mem_iff_getElem?.mp hop'
          have hlen : j < ops.length := (List.getElem?_eq_some_iff.mp hj).1
          exact .inr ⟨j, op', by omega, by rw [List.getElem?_append_left hlen, hj], hl'⟩

/-- Where no entry of a list of lists is repeated, it stands in one of the lists. -/
theorem position_unique {f : Operation → List Label} (h : (ops.flatMap f).Nodup) {i j : ℕ}
    {op op' : Operation} (hi : ops[i]? = some op) (hj : ops[j]? = some op') (hl : l ∈ f op)
    (hl' : l ∈ f op') : i = j := by
  have hdisjoint := List.pairwise_iff_getElem.mp (List.nodup_flatMap.mp h).2
  obtain ⟨hilen, rfl⟩ := List.getElem?_eq_some_iff.mp hi
  obtain ⟨hjlen, rfl⟩ := List.getElem?_eq_some_iff.mp hj
  rcases Nat.lt_trichotomy i j with hlt | heq | hgt
  · exact (hdisjoint i j hilen hjlen hlt hl hl').elim
  · exact heq
  · exact (hdisjoint j i hjlen hilen hgt hl' hl).elim

/-! ## From the sources to what is held -/

/-- Every source flows into something that is held. -/
theorem exists_flowsInto (h : Flow sources ops held) (hl : l ∈ sources) :
    ∃ v ∈ held, FlowsInto ops l v := by
  induction h with
  | start hs => exact ⟨l, hs.mem_iff.mpr hl, .refl⟩
  | @push ops op before held rest _ hin hout hne _ _ ih =>
      obtain ⟨v, hv, hflows⟩ := ih
      have hflows : FlowsInto (ops ++ [op]) l v := hflows.append
      rcases List.mem_append.mp (hin.mem_iff.mp hv) with htaken | hrest
      · obtain ⟨o, ho⟩ := List.exists_mem_of_ne_nil _ hne
        exact ⟨o, hout.mem_iff.mpr (List.mem_append_left _ ho),
          hflows.tail ⟨op, by simp, htaken, ho⟩⟩
      · exact ⟨v, hout.mem_iff.mpr (List.mem_append_right _ hrest), hflows⟩

end Flow

/-! ## Who makes a stream and who uses it -/

namespace Graph

/-- The operation at a position takes the stream. -/
def Consumes (g : Graph) (k : ℕ) (l : Label) : Prop := ∃ op, g.ops[k]? = some op ∧ l ∈ op.inputs

/-- The operation at a position gives the stream. -/
def Produces (g : Graph) (k : ℕ) (l : Label) : Prop := ∃ op, g.ops[k]? = some op ∧ l ∈ op.outputs

variable {g : Graph} {l : Label}

theorem exists_position_iff {f : Operation → List Label} :
    (∃ (k : ℕ) (op : Operation), g.ops[k]? = some op ∧ l ∈ f op) ↔ l ∈ g.ops.flatMap f := by
  constructor
  · rintro ⟨k, op, hk, hl⟩
    exact List.mem_flatMap.mpr ⟨op, List.mem_of_getElem? hk, hl⟩
  · intro hl
    obtain ⟨op, hop, hl⟩ := List.mem_flatMap.mp hl
    obtain ⟨k, hk⟩ := List.mem_iff_getElem?.mp hop
    exact ⟨k, op, hk, hl⟩

theorem exists_consumes_iff : (∃ k, g.Consumes k l) ↔ l ∈ g.ops.flatMap Operation.inputs :=
  exists_position_iff

theorem exists_produces_iff : (∃ k, g.Produces k l) ↔ l ∈ g.ops.flatMap Operation.outputs :=
  exists_position_iff

end Graph

end Slideshow
