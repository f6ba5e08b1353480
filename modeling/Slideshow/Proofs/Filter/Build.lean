import Slideshow.Proofs.Filter.Acceptance
import Slideshow.Proofs.Filter.Picture

/-! # Building a flow

`Holds` says of a graph that is being built which streams are held and what they show. An operation
that takes streams which are held, and gives streams that no operation has given, is never refused:
it exchanges the ones for the others and leaves the rest alone. -/

namespace Slideshow

namespace Operation

/-- The operation takes these streams, and it may stand in a graph. -/
structure Fits (op : Operation) (ins : List (Label × Picture)) : Prop where
  inputs : ins.map Prod.fst = op.inputs
  inputs_ne_nil : op.inputs ≠ []
  outputs_ne_nil : op.outputs ≠ []
  nodup : op.outputs.Nodup
  shaped : op.Shaped

/-- The streams that an operation gives, with what they show. -/
def gives (op : Operation) (ins : List (Label × Picture)) : List (Label × Picture) :=
  op.outputs.map fun l => (l, op.picture (ins.map Prod.snd))

@[simp]
theorem map_fst_gives (op : Operation) (ins : List (Label × Picture)) :
    (op.gives ins).map Prod.fst = op.outputs := by
  simp [gives, Function.comp_def]

end Operation

namespace Graph

/-! ## Runs of a builder -/

section Build

variable {β γ : Type} {g : Graph} {lacks : Prop} {ends ends' : β → Graph → Prop}

/-- The builder ends as `ends` says, or else it fails because something is lacking. -/
def Build.Ends (b : Build β) (g : Graph) (lacks : Prop) (ends : β → Graph → Prop) : Prop :=
  match b.run g with
  | (.ok x, g') => ends x g'
  | (.error _, _) => lacks

theorem Build.ends_pure {x : β} (h : ends x g) : Build.Ends (pure x) g lacks ends := h

theorem Build.ends_of_run {b : Build β} {x : β} {g' : Graph} (hrun : b.run g = (.ok x, g'))
    (h : ends x g') : b.Ends g lacks ends := by
  unfold Build.Ends
  rw [hrun]
  exact h

theorem Build.Ends.of_run {b : Build β} {x : β} {g' : Graph} (h : b.Ends g lacks ends)
    (hrun : b.run g = (.ok x, g')) : ends x g' := by
  unfold Build.Ends at h
  rwa [hrun] at h

theorem Build.Ends.exists_run {b : Build β} (h : b.Ends g lacks ends) (hlacks : ¬ lacks) :
    ∃ x g', b.run g = (.ok x, g') ∧ ends x g' := by
  unfold Build.Ends at h
  rcases hb : b.run g with ⟨e | x, g'⟩ <;> rw [hb] at h
  · exact (hlacks h).elim
  · exact ⟨x, g', rfl, h⟩

theorem Build.ends_bind_of_run {b : Build β} {f : β → Build γ} {x : β} {g' : Graph}
    {ends : γ → Graph → Prop} (hrun : b.run g = (.ok x, g')) (h : (f x).Ends g' lacks ends) :
    (b >>= f).Ends g lacks ends := by
  have hbind : (b >>= f).run g = ExceptT.bindCont f (b.run g).1 (b.run g).2 := rfl
  unfold Build.Ends at h ⊢
  rw [hbind, hrun]
  exact h

theorem Build.Ends.mono {b : Build β} (h : b.Ends g lacks ends)
    (hends : ∀ x g', ends x g' → ends' x g') : b.Ends g lacks ends' := by
  unfold Build.Ends at *
  split <;> rename_i hrun <;> rw [hrun] at h
  · exact hends _ _ h
  · exact h

theorem Build.Ends.bind {b : Build β} {f : β → Build γ} {ends' : γ → Graph → Prop}
    (h : b.Ends g lacks ends) (hf : ∀ x g', ends x g' → (f x).Ends g' lacks ends') :
    (b >>= f).Ends g lacks ends' := by
  have hrun : (b >>= f).run g = ExceptT.bindCont f (b.run g).1 (b.run g).2 := rfl
  unfold Build.Ends at h ⊢
  rw [hrun]
  rcases hb : b.run g with ⟨e | x, g'⟩ <;> rw [hb] at h
  · exact h
  · exact hf x g' h

end Build

/-! ## What a graph holds -/

/-- The stream of a labeler of the graph. -/
def Numbered (g : Graph) (l : Label) : Prop :=
  ∃ (labels : Labeler) (k i : ℕ), k < g.stages ∧ labels.Named k ∧ l = labels.label i

/-- A labeler of the graph that has not given any stream. -/
def Fresh (g : Graph) (labels : Labeler) : Prop :=
  (∃ k < g.stages, labels.Named k) ∧ ∀ i, labels.label i ∉ g.ops.flatMap Operation.outputs

/-- The graph is a flow from the sources. These streams are held, and each shows its picture. -/
structure Holds (sources : List Label) (held : List (Label × Picture)) (g : Graph) : Prop where
  nodup : sources.Nodup
  isInput : ∀ l ∈ sources, l.isInput = true
  flow : Flow sources g.ops (held.map Prod.fst)
  shows : ∀ s ∈ held, g.picture s.1 = s.2
  produced : ∀ l, l ∈ g.produced ↔ l ∈ g.ops.flatMap Operation.outputs
  consumed : ∀ l ∈ g.consumed, l ∈ g.ops.flatMap Operation.inputs
  numbered : ∀ l ∈ g.ops.flatMap Operation.outputs, g.Numbered l
  shaped : ∀ op ∈ g.ops, op.Shaped

variable {sources : List Label} {held held' ins rest : List (Label × Picture)} {g : Graph}
  {l : Label} {labels : Labeler}

theorem Numbered.isInput (h : g.Numbered l) : l.isInput = false := by
  obtain ⟨labels, k, i, -, hnamed, rfl⟩ := h
  exact hnamed.isInput_label i

theorem Fresh.numbered (h : g.Fresh labels) (i : ℕ) : g.Numbered (labels.label i) := by
  obtain ⟨⟨k, hk, hnamed⟩, -⟩ := h
  exact ⟨labels, k, i, hk, hnamed, rfl⟩

theorem Holds.perm (h : Holds sources held g) (hp : held'.Perm held) :
    Holds sources held' g where
  nodup := h.nodup
  isInput := h.isInput
  flow := h.flow.perm (hp.map _)
  shows s hs := h.shows s (hp.mem_iff.mp hs)
  produced := h.produced
  consumed := h.consumed
  numbered := h.numbered
  shaped := h.shaped

/-- A stream that belongs to no input is not a source. -/
theorem Holds.not_source (h : Holds sources held g) (hl : l.isInput = false) : l ∉ sources := by
  intro hsource
  rw [h.isInput l hsource] at hl
  cases hl

theorem Holds.ne_label (h : Holds sources held g) (hfresh : g.Fresh labels)
    {s : Label × Picture} (hs : s ∈ held) (i : ℕ) : s.1 ≠ labels.label i := by
  intro heq
  have hsource := h.not_source (hfresh.numbered i).isInput
  rw [← heq] at hsource
  exact hfresh.2 i (heq ▸ h.flow.made_of_held (List.mem_map_of_mem hs) hsource)

/-- A stream that is held and belongs to no input was given, and has not been taken. -/
theorem Holds.available (h : Holds sources held g) (hl : l ∈ held.map Prod.fst)
    (hinput : l.isInput = false) : l ∈ g.produced ∧ l ∉ g.consumed :=
  ⟨(h.produced l).mpr (h.flow.made_of_held hl (h.not_source hinput)),
    fun hc => h.flow.not_taken h.nodup hl (h.consumed l hc)⟩

/-- Streams that operations take are inputs or numbered. -/
theorem Holds.taken (h : Holds sources held g) (hl : l ∈ g.ops.flatMap Operation.inputs) :
    l.isInput = true ∨ g.Numbered l := by
  obtain ⟨op, hop, hl⟩ := List.mem_flatMap.mp hl
  obtain ⟨k, hk⟩ := List.mem_iff_getElem?.mp hop
  rcases h.flow.taken_cases hk hl with hsource | ⟨j, op', -, hj, hmade⟩
  · exact .inl (h.isInput l hsource)
  · exact .inr (h.numbered l (List.mem_flatMap.mpr ⟨op', List.mem_of_getElem? hj, hmade⟩))

/-- Streams that the graph has used are inputs or numbered. -/
theorem Holds.used (h : Holds sources held g) (hl : l ∈ g.produced ∨ l ∈ g.consumed) :
    l.isInput = true ∨ g.Numbered l :=
  hl.elim (fun hl => .inr (h.numbered l ((h.produced l).mp hl))) fun hl => h.taken (h.consumed l hl)

theorem holds_nil (hnodup : sources.Nodup) (hinput : ∀ l ∈ sources, l.isInput = true) :
    Holds sources (sources.map fun l => (l, .input l)) {} where
  nodup := hnodup
  isInput := hinput
  flow := .start (by simp [Function.comp_def])
  shows := by simp
  produced := by simp
  consumed := by simp
  numbered := by simp
  shaped := by simp

/-! ## One operation -/

/-- An operation is added where it may take what it takes, and gives what is new. -/
theorem push_eq_ok {op : Operation} (hins : op.inputs ≠ []) (houts : op.outputs ≠ [])
    (htakes : ∀ l ∈ op.inputs, l.isInput = false → l ∈ g.produced ∧ l ∉ g.consumed)
    (hgives : ∀ l ∈ op.outputs, l.isInput = false ∧ l ∉ g.produced)
    (htaken : op.inputs.Nodup) (hgiven : op.outputs.Nodup) :
    ∃ consumed, (push op).run g = (.ok (), { g with
        ops := g.ops ++ [op], produced := op.outputs.reverse ++ g.produced, consumed }) ∧
      ∀ l ∈ consumed, l ∈ g.consumed ∨ l ∈ op.inputs := by
  have htakes' : ∀ l ∈ inner op.inputs, l ∈ g.produced ∧ l ∉ g.consumed := by
    intro l hl
    obtain ⟨hl, hinput⟩ := mem_inner.mp hl
    exact htakes l hl hinput
  refine ⟨(inner op.inputs).reverse ++ g.consumed, push_eq_ok_iff.mpr
    ⟨hins, houts, ⟨htaken.filter _, htakes'⟩, ⟨hgiven, hgives⟩, rfl⟩, fun l hl => ?_⟩
  rcases List.mem_append.mp hl with hl | hl
  · exact .inr (mem_inner.mp (List.mem_reverse.mp hl)).1
  · exact .inl hl

/-- Every operation takes what the one before it gives. -/
def Linked : List Label → List Operation → Prop
  | _, [] => True
  | ls, op :: rest => op.inputs = ls ∧ Linked op.outputs rest

/-- Operations that take what the one before gives can be added one after another. -/
theorem exists_pushAll_of_linked {ops : List Operation} {ls : List Label} (hlinked : Linked ls ops)
    (hls : ∀ l ∈ ls, l.isInput = true ∨ l ∈ g.produced ∧ l ∉ g.consumed) (hne : ls ≠ [])
    (hdistinct : ls.Nodup) (houts : ∀ op ∈ ops, op.outputs ≠ [])
    (hnodup : (ops.flatMap Operation.outputs).Nodup)
    (hnew : ∀ l ∈ ops.flatMap Operation.outputs,
      l.isInput = false ∧ l ∉ g.produced ∧ l ∉ g.consumed) :
    ∃ g', (pushAll ops).run g = (.ok (), g') ∧ g'.ops = g.ops ++ ops := by
  induction ops generalizing ls g with
  | nil => exact ⟨g, rfl, (List.append_nil _).symm⟩
  | cons op rest ih =>
      obtain ⟨rfl, hlinked⟩ := hlinked
      have hout := houts op List.mem_cons_self
      rw [List.flatMap_cons] at hnodup hnew
      obtain ⟨hgiven, hrest, hdisjoint⟩ := List.nodup_append.mp hnodup
      have htakes : ∀ l ∈ op.inputs, l.isInput = false → l ∈ g.produced ∧ l ∉ g.consumed := by
        intro l hl hinput
        exact (hls l hl).resolve_left (by simp [hinput])
      have hgives : ∀ l ∈ op.outputs, l.isInput = false ∧ l ∉ g.produced := fun l hl =>
        ⟨(hnew l (List.mem_append_left _ hl)).1, (hnew l (List.mem_append_left _ hl)).2.1⟩
      obtain ⟨consumed, hrun, hconsumed⟩ := push_eq_ok hne hout htakes hgives hdistinct hgiven
      -- what is still to be given was neither given nor taken before
      have hnot : ∀ l ∈ op.outputs ++ rest.flatMap Operation.outputs, l ∉ consumed := by
        intro l hl hmem
        obtain ⟨hinput, hproduced, hnot⟩ := hnew l hl
        rcases hconsumed l hmem with hmem | hmem
        · exact hnot hmem
        · exact hproduced (htakes l hmem hinput).1
      obtain ⟨g', hrun', hops⟩ := ih hlinked
        (g := { g with
          ops := g.ops ++ [op], produced := op.outputs.reverse ++ g.produced, consumed })
        (fun l hl => .inr ⟨List.mem_append_left _ (List.mem_reverse.mpr hl),
          hnot l (List.mem_append_left _ hl)⟩) hout hgiven
        (fun op' hop' => houts op' (List.mem_cons_of_mem _ hop')) hrest fun l hl => by
          obtain ⟨hinput, hproduced, -⟩ := hnew l (List.mem_append_right _ hl)
          refine ⟨hinput, fun hmem => ?_, hnot l (List.mem_append_right _ hl)⟩
          rcases List.mem_append.mp hmem with hmem | hmem
          · exact hdisjoint l (List.mem_reverse.mp hmem) l hl rfl
          · exact hproduced hmem
      refine ⟨g', ?_, by rw [hops, List.append_assoc, List.singleton_append]⟩
      rw [run_pushAll_cons, hrun]
      exact hrun'

/-- What is left of these streams. -/
def leftover (ls : List Label) : List Operation → List Label
  | [] => ls
  | op :: ops => leftover op.outputs ops

/-- Operations that take what the one before gives carry a flow on. -/
theorem Linked.flow {ops before : List Operation} {ls held : List Label} (hlinked : Linked ls ops)
    (h : Flow sources before (ls ++ held)) (houts : ∀ op ∈ ops, op.outputs ≠ [])
    (hnodup : (ops.flatMap Operation.outputs).Nodup)
    (hnew : ∀ l ∈ ops.flatMap Operation.outputs,
      l ∉ sources ∧ l ∉ before.flatMap Operation.outputs) :
    Flow sources (before ++ ops) (leftover ls ops ++ held) := by
  induction ops generalizing ls before with
  | nil => rwa [List.append_nil]
  | cons op ops ih =>
      obtain ⟨rfl, hlinked⟩ := hlinked
      rw [List.flatMap_cons] at hnodup hnew
      obtain ⟨hgiven, hrest, hdisjoint⟩ := List.nodup_append.mp hnodup
      have hpush : Flow sources (before ++ [op]) (op.outputs ++ held) :=
        .push h (.refl _) (.refl _) (houts op List.mem_cons_self) hgiven
          fun l hl => hnew l (List.mem_append_left _ hl)
      rw [← List.singleton_append, ← List.append_assoc]
      refine ih hlinked hpush (fun op' hop' => houts op' (List.mem_cons_of_mem _ hop')) hrest ?_
      intro l hl
      obtain ⟨hsource, hmade⟩ := hnew l (List.mem_append_right _ hl)
      refine ⟨hsource, ?_⟩
      rw [List.flatMap_append, List.flatMap_singleton, List.mem_append, not_or]
      exact ⟨hmade, fun hmem => hdisjoint l hmem l hl rfl⟩

/-- One operation further, the streams that it gives show what it makes of the pictures that it
takes, and the others show what they did. -/
theorem Holds.shows_pushed {op : Operation} {g' : Graph} (h : Holds sources (ins ++ rest) g)
    (hins : ins.map Prod.fst = op.inputs) (hops : g'.ops = g.ops ++ [op])
    (hnew : ∀ l ∈ op.outputs, l.isInput = false ∧ l ∉ g.ops.flatMap Operation.outputs) :
    ∀ s ∈ op.gives ins ++ rest, g'.picture s.1 = s.2 := by
  intro s hs
  rcases List.mem_append.mp hs with hs | hs
  · obtain ⟨l, hl, rfl⟩ := List.mem_map.mp hs
    have hpictures : op.inputs.map g.picture = ins.map Prod.snd := by
      rw [← hins, List.map_map]
      exact List.map_congr_left fun s hs => h.shows s (List.mem_append_left _ hs)
    rw [picture_of_mem_outputs hops hl, hpictures]
  · have hmem : s ∈ ins ++ rest := List.mem_append_right _ hs
    have hbefore : s.1 ∉ op.outputs := by
      intro hout
      obtain ⟨hinput, hmade⟩ := hnew s.1 hout
      exact hmade (h.flow.made_of_held (List.mem_map_of_mem hmem) (h.not_source hinput))
    rw [picture_of_not_mem_outputs hops hbefore, h.shows s hmem]

/-- What is true of a graph stays true when an operation is recorded that may follow. -/
theorem Holds.pushed {op : Operation} {consumed : List Label} (h : Holds sources (ins ++ rest) g)
    (hop : op.Fits ins)
    (hnew : ∀ l ∈ op.outputs, g.Numbered l ∧ l ∉ g.ops.flatMap Operation.outputs)
    (hconsumed : ∀ l ∈ consumed, l ∈ g.consumed ∨ l ∈ op.inputs) :
    Holds sources (op.gives ins ++ rest) { g with
      ops := g.ops ++ [op], produced := op.outputs.reverse ++ g.produced, consumed } where
  nodup := h.nodup
  isInput := h.isInput
  flow := by
    have hin : ((ins ++ rest).map Prod.fst).Perm (op.inputs ++ rest.map Prod.fst) := by
      simp [hop.inputs]
    have hout : ((op.gives ins ++ rest).map Prod.fst).Perm (op.outputs ++ rest.map Prod.fst) := by
      simp
    exact .push h.flow hin hout hop.outputs_ne_nil hop.nodup
      fun l hl => ⟨h.not_source (hnew l hl).1.isInput, (hnew l hl).2⟩
  shows := h.shows_pushed hop.inputs rfl fun l hl => ⟨(hnew l hl).1.isInput, (hnew l hl).2⟩
  produced l := by
    simp [h.produced l, or_comm]
  consumed l hl := by
    rw [List.flatMap_append, List.flatMap_singleton]
    exact List.mem_append.mpr ((hconsumed l hl).imp_left (h.consumed l))
  numbered l hl := by
    rw [List.flatMap_append, List.flatMap_singleton] at hl
    rcases List.mem_append.mp hl with hl | hl
    · exact h.numbered l hl
    · exact (hnew l hl).1
  shaped op' hop' := by
    rcases List.mem_append.mp hop' with hop' | hop'
    · exact h.shaped op' hop'
    · cases List.mem_singleton.mp hop'
      exact hop.shaped

/-- An operation exchanges the streams that it takes for those that it gives. -/
theorem Holds.push {op : Operation} (h : Holds sources (ins ++ rest) g) (hop : op.Fits ins)
    (hnew : ∀ l ∈ op.outputs, g.Numbered l ∧ l ∉ g.ops.flatMap Operation.outputs) :
    ∃ g', (push op).run g = (.ok (), g') ∧ g'.stages = g.stages ∧ g'.ops = g.ops ++ [op] ∧
      Holds sources (op.gives ins ++ rest) g' := by
  have hheld : ∀ l ∈ op.inputs, l ∈ (ins ++ rest).map Prod.fst := by
    intro l hl
    rw [List.map_append, hop.inputs]
    exact List.mem_append_left _ hl
  have hinputs : op.inputs.Nodup := by
    have hnodup := h.flow.nodup_held h.nodup
    rw [List.map_append, hop.inputs] at hnodup
    exact hnodup.of_append_left
  have hgives : ∀ l ∈ op.outputs, l.isInput = false ∧ l ∉ g.produced := fun l hl =>
    ⟨(hnew l hl).1.isInput, fun hmade => (hnew l hl).2 ((h.produced l).mp hmade)⟩
  obtain ⟨consumed, hrun, hconsumed⟩ := push_eq_ok hop.inputs_ne_nil hop.outputs_ne_nil
    (fun l hl => h.available (hheld l hl)) hgives hinputs hop.nodup
  exact ⟨_, hrun, rfl, rfl, h.pushed hop hnew hconsumed⟩

/-! ## Labelers and stages -/

section Stage

variable {lacks : Prop}

/-- A labeler is handed out. -/
theorem Holds.labeler (h : Holds sources held g) {stem : String}
    (hstem : ∀ c ∈ stem.toList, c.isDigit = false ∧ c ≠ ':') :
    Build.Ends (labeler stem) g lacks fun labels g' => g'.Fresh labels ∧ Holds sources held g' := by
  have hnamed : (⟨stem ++ Decimal.natText g.stages⟩ : Labeler).Named g.stages := ⟨stem, rfl, hstem⟩
  have hrun : (liftM (Graph.labeler stem) : Build Labeler).run g =
      (.ok ⟨stem ++ Decimal.natText g.stages⟩, { g with stages := g.stages + 1 }) := rfl
  refine Build.ends_of_run hrun ⟨⟨⟨g.stages, by simp, hnamed⟩, ?_⟩, ?_⟩
  · intro i hi
    obtain ⟨labels, k, j, hk, hnamed', heq⟩ := h.numbered _ hi
    exact hnamed.label_ne hnamed' (by omega) heq
  · refine { h with numbered := fun l hl => ?_ }
    obtain ⟨labels, k, i, hk, hrest⟩ := h.numbered l hl
    exact ⟨labels, k, i, Nat.lt_succ_of_lt hk, hrest⟩

/-- Operations that do not depend on one another are added one after another. -/
theorem Holds.pushAll {steps : List (Operation × List (Label × Picture))}
    (h : Holds sources (steps.flatMap Prod.snd ++ rest) g)
    (hfits : ∀ s ∈ steps, s.1.Fits s.2)
    (hnodup : ((steps.map Prod.fst).flatMap Operation.outputs).Nodup)
    (hnew : ∀ l ∈ (steps.map Prod.fst).flatMap Operation.outputs,
      g.Numbered l ∧ l ∉ g.ops.flatMap Operation.outputs) :
    (pushAll (steps.map Prod.fst)).Ends g lacks fun _ g' =>
      g'.ops = g.ops ++ steps.map Prod.fst ∧
        Holds sources ((steps.flatMap fun s => s.1.gives s.2) ++ rest) g' := by
  induction steps generalizing g rest with
  | nil => exact Build.ends_pure ⟨(List.append_nil _).symm, h⟩
  | cons s steps ih =>
      obtain ⟨op, ins⟩ := s
      simp only [List.map_cons, List.flatMap_cons, List.append_assoc] at h hnodup hnew ⊢
      obtain ⟨-, hnodup', hdisjoint⟩ := List.nodup_append.mp hnodup
      obtain ⟨g₁, hrun, hstages, hops, h₁⟩ := h.push (hfits _ List.mem_cons_self)
        fun l hl => hnew l (List.mem_append_left _ hl)
      -- what the operation gives is put aside while the others are added
      have haside : Holds sources (steps.flatMap Prod.snd ++ (op.gives ins ++ rest)) g₁ := by
        refine h₁.perm ?_
        simpa only [List.append_assoc] using List.perm_append_comm.append_right rest
      have hnew' : ∀ l ∈ (steps.map Prod.fst).flatMap Operation.outputs,
          g₁.Numbered l ∧ l ∉ g₁.ops.flatMap Operation.outputs := by
        intro l hl
        obtain ⟨⟨labels, k, i, hk, hlabel⟩, hnot⟩ := hnew l (List.mem_append_right _ hl)
        refine ⟨⟨labels, k, i, hstages ▸ hk, hlabel⟩, ?_⟩
        rw [hops, List.flatMap_append, List.flatMap_singleton]
        intro hmade
        rcases List.mem_append.mp hmade with hmade | hmade
        · exact hnot hmade
        · exact hdisjoint l hmade l hl rfl
      have hrest := ih haside (fun s hs => hfits s (List.mem_cons_of_mem _ hs)) hnodup' hnew'
      refine Build.ends_bind_of_run hrun (hrest.mono fun _ g' ⟨hops', h'⟩ => ⟨?_, h'.perm ?_⟩)
      · rw [hops', hops, List.append_assoc, List.singleton_append]
      · simpa only [List.append_assoc] using List.perm_append_comm.append_right rest

/-- A filter that compiles to such operations gives what they give. -/
theorem Holds.appendTo {α : Type} [Scalar α] {filter : Filter α}
    {steps : List (Operation × List (Label × Picture))} (hfresh : g.Fresh labels)
    (hcompile : filter.compile (ins.map Prod.fst) = .ok ⟨steps.map Prod.fst,
      (steps.map Prod.fst).flatMap Operation.outputs⟩)
    (hins : steps.flatMap Prod.snd = ins) (h : Holds sources (ins ++ rest) g)
    (hfits : ∀ s ∈ steps, s.1.Fits s.2)
    (hnodup : ((steps.map Prod.fst).flatMap Operation.outputs).Nodup)
    (hlabels : ∀ l ∈ (steps.map Prod.fst).flatMap Operation.outputs, ∃ i, l = labels.label i) :
    (filter.appendTo (ins.map Prod.fst)).Ends g lacks fun outs g' =>
      outs = (steps.flatMap fun s => s.1.gives s.2).map Prod.fst ∧
        g'.ops = g.ops ++ steps.map Prod.fst ∧
        Holds sources ((steps.flatMap fun s => s.1.gives s.2) ++ rest) g' := by
  rw [← hins] at h
  have hnew : ∀ l ∈ (steps.map Prod.fst).flatMap Operation.outputs,
      g.Numbered l ∧ l ∉ g.ops.flatMap Operation.outputs := by
    intro l hl
    obtain ⟨i, rfl⟩ := hlabels l hl
    exact ⟨hfresh.numbered i, hfresh.2 i⟩
  rw [Filter.appendTo, hcompile]
  refine Build.ends_bind_of_run rfl ?_
  refine (h.pushAll hfits hnodup hnew).bind fun _ g' h' => Build.ends_pure ⟨?_, h'⟩
  simp [List.map_flatMap, List.flatMap_map]

end Stage

end Graph

end Slideshow
