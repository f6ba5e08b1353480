import Slideshow.Proofs.Job.Outputs
import Mathlib.Tactic.IntervalCases

/-! # In what order outputs arrive

The first output of every batch decides. Outputs that a batch reports again change nothing, and where
no batch reports two different outputs, neither does the order of all reports. -/

namespace Slideshow.JobRecord

variable {r r' : JobRecord} {x output : BatchOutput} {b : ℕ} {filed filed' outputs : List BatchOutput}

/-! ## Filed outputs -/

/-- The output that a batch has filed, or reported first. -/
def firstOf (b : ℕ) (outputs : List BatchOutput) : Option BatchOutput :=
  outputs.find? fun x => x.batch == b

theorem firstOf_cons (b : ℕ) (x : BatchOutput) (rest : List BatchOutput) :
    firstOf b (x :: rest) = if x.batch = b then some x else firstOf b rest := by
  by_cases h : x.batch = b
  · rw [firstOf, List.find?_cons_of_pos (by simpa using h), if_pos h]
  · rw [firstOf, List.find?_cons_of_neg (by simpa using h), if_neg h, firstOf]

theorem firstOf_eq_none_iff : firstOf b outputs = none ↔ b ∉ outputs.map BatchOutput.batch := by
  simp [firstOf]

theorem mem_of_firstOf (h : firstOf b outputs = some x) : x ∈ outputs ∧ x.batch = b :=
  ⟨List.mem_of_find?_eq_some h, by simpa using List.find?_some h⟩

/-- Where every batch has one output at most, it is the first one. -/
theorem firstOf_eq_some_of_mem
    (hunique : ∀ x ∈ outputs, ∀ y ∈ outputs, x.batch = y.batch → x = y) (hx : x ∈ outputs) :
    firstOf x.batch outputs = some x := by
  cases h : firstOf x.batch outputs with
  | none => exact (firstOf_eq_none_iff.mp h (List.mem_map_of_mem hx)).elim
  | some y =>
      obtain ⟨hy, hbatch⟩ := mem_of_firstOf h
      rw [hunique y hy x hx hbatch]

theorem eq_of_batch_eq (h : (filed.map BatchOutput.batch).Pairwise (· < ·)) :
    ∀ x ∈ filed, ∀ y ∈ filed, x.batch = y.batch → x = y :=
  fun _ hx _ hy heq => List.inj_on_of_nodup_map h.nodup hx hy heq

/-- What is filed is determined by what each batch has filed. -/
theorem eq_of_firstOf_eq (h : (filed.map BatchOutput.batch).Pairwise (· < ·))
    (h' : (filed'.map BatchOutput.batch).Pairwise (· < ·))
    (hfirst : ∀ b, firstOf b filed = firstOf b filed') : filed = filed' := by
  have hmem : ∀ {filed : List BatchOutput}, (filed.map BatchOutput.batch).Pairwise (· < ·) →
      ∀ x, x ∈ filed ↔ firstOf x.batch filed = some x := fun h x =>
    ⟨fun hx => firstOf_eq_some_of_mem (eq_of_batch_eq h) hx, fun hx => (mem_of_firstOf hx).1⟩
  have hperm : filed.Perm filed' := by
    refine (List.perm_ext_iff_of_nodup h.nodup.of_map h'.nodup.of_map).mpr fun x => ?_
    rw [hmem h, hmem h', hfirst]
  rw [List.pairwise_map] at h h'
  exact hperm.eq_of_pairwise (fun x y _ _ hlt hlt' => absurd hlt (Nat.lt_asymm hlt')) h h'

/-- An output is filed unless its batch has one. -/
theorem firstOf_file (h : (filed.map BatchOutput.batch).Pairwise (· < ·)) :
    firstOf b (file output filed) = (firstOf b filed).or (firstOf b [output]) := by
  induction filed with
  | nil => rfl
  | cons first rest ih =>
      obtain ⟨hfirst, hrest⟩ := List.pairwise_cons.mp h
      rw [file]
      split
      · rename_i hlt
        -- nothing was filed for a batch that comes before all of them
        have hnone : output.batch = b → firstOf b (first :: rest) = none := by
          rintro rfl
          refine firstOf_eq_none_iff.mpr fun hmem => ?_
          rcases List.mem_cons.mp hmem with heq | hmem
          · omega
          · exact absurd (hfirst _ hmem) (by omega)
        rw [firstOf_cons, firstOf_cons b output []]
        split
        · rename_i hb
          rw [hnone hb]
          rfl
        · rw [show firstOf b [] = none from rfl, Option.or_none]
      · split
        · rename_i heq
          rw [firstOf_cons b first, firstOf_cons b output, heq]
          split
          · rfl
          · exact (Option.or_none).symm
        · rw [firstOf_cons b first, firstOf_cons b first, ih hrest]
          split <;> rfl

theorem firstOf_foldl_file (outputs filed : List BatchOutput)
    (h : (filed.map BatchOutput.batch).Pairwise (· < ·)) :
    firstOf b (outputs.foldl (fun filed output => file output filed) filed) =
      (firstOf b filed).or (firstOf b outputs) := by
  induction outputs generalizing filed with
  | nil => exact (Option.or_none).symm
  | cons output rest ih =>
      rw [List.foldl_cons, ih _ (pairwise_file h), firstOf_file h, Option.or_assoc]
      congr 1
      rw [firstOf_cons, firstOf_cons b output rest]
      split <;> rfl

theorem firstOf_orderedOutputs (r : JobRecord) (b : ℕ) :
    firstOf b r.orderedOutputs = firstOf b r.outputs :=
  firstOf_foldl_file r.outputs [] .nil

theorem orderedOutputs_congr (h : ∀ b, firstOf b r.outputs = firstOf b r'.outputs) :
    r.orderedOutputs = r'.orderedOutputs := by
  refine eq_of_firstOf_eq r.pairwise_orderedOutputs r'.pairwise_orderedOutputs fun b => ?_
  rw [firstOf_orderedOutputs, firstOf_orderedOutputs, h b]

/-! ## The same job with other outputs -/

/-- The record with other outputs, if the job is split. -/
def withOutputs (r : JobRecord) (outputs : List BatchOutput) : JobRecord :=
  { r with batches := r.batches.map fun summary => { summary with outputs } }

/-- The records differ in nothing but their outputs. -/
def Alike (r r' : JobRecord) : Prop := r.withOutputs [] = r'.withOutputs []

theorem status_withOutputs (r : JobRecord) (outputs : List BatchOutput) :
    (r.withOutputs outputs).status = r.status := rfl

theorem expectedBatches_withOutputs (r : JobRecord) (outputs : List BatchOutput) :
    (r.withOutputs outputs).expectedBatches = r.expectedBatches := by
  simp [expectedBatches, withOutputs, Function.comp_def]

theorem alike_withOutputs (r : JobRecord) (outputs : List BatchOutput) :
    r.Alike (r.withOutputs outputs) := by
  simp [Alike, withOutputs, Function.comp_def]

theorem outputs_withOutputs (h : r.batches ≠ none) (outputs : List BatchOutput) :
    (r.withOutputs outputs).outputs = outputs := by
  obtain ⟨summary, hsummary⟩ := Option.ne_none_iff_exists'.mp h
  simp [JobRecord.outputs, withOutputs, hsummary]

/-- Whether the batches of a job can be joined depends on no more of the outputs than the first one
of each batch. -/
theorem Alike.readyToJoin_eq (h : r.Alike r') (hordered : r.orderedOutputs = r'.orderedOutputs) :
    r.readyToJoin = r'.readyToJoin := by
  have hrecord : r.withOutputs [] = r'.withOutputs [] := h
  have hstatus : r.status = r'.status := by
    rw [← status_withOutputs r [], hrecord, status_withOutputs]
  have hexpected : r.expectedBatches = r'.expectedBatches := by
    rw [← expectedBatches_withOutputs r [], hrecord, expectedBatches_withOutputs]
  rw [readyToJoin, readyToJoin, hstatus, hexpected, hordered]

/-! ## Repeated and reordered outputs -/

/-- A batch that has reported is heard no more. -/
theorem firstOf_append_of_mem (hx : x.batch ∈ outputs.map BatchOutput.batch) (b : ℕ) :
    firstOf b (outputs ++ [x]) = firstOf b outputs := by
  rw [firstOf, List.find?_append]
  change (firstOf b outputs).or (firstOf b [x]) = firstOf b outputs
  rw [firstOf_cons]
  split
  · rename_i hb
    cases hfirst : firstOf b outputs with
    | none => exact (firstOf_eq_none_iff.mp hfirst (hb ▸ hx)).elim
    | some y => rfl
  · exact Option.or_none

/-- Where no batch reports two different outputs, the first ones are the same in every order. -/
theorem firstOf_perm {outputs outputs' : List BatchOutput} (hperm : outputs.Perm outputs')
    (hunique : ∀ x ∈ outputs, ∀ y ∈ outputs, x.batch = y.batch → x = y) (b : ℕ) :
    firstOf b outputs = firstOf b outputs' := by
  cases h : firstOf b outputs with
  | none =>
      refine (firstOf_eq_none_iff.mpr ?_).symm
      rw [← (hperm.map _).mem_iff]
      exact firstOf_eq_none_iff.mp h
  | some x =>
      obtain ⟨hx, rfl⟩ := mem_of_firstOf h
      refine (firstOf_eq_some_of_mem (fun y hy z hz => ?_) (hperm.mem_iff.mp hx)).symm
      exact hunique y (hperm.mem_iff.mpr hy) z (hperm.mem_iff.mpr hz)

/-- The list has the first output of every batch that has reported, by batch number. -/
structure Firsts (outputs filed : List BatchOutput) : Prop where
  ascending : (filed.map BatchOutput.batch).Pairwise (· < ·)
  mem_iff : ∀ b, b ∈ filed.map BatchOutput.batch ↔ b ∈ outputs.map BatchOutput.batch
  first : ∀ x ∈ filed, ∃ earlier later, outputs = earlier ++ x :: later ∧
    x.batch ∉ earlier.map BatchOutput.batch

theorem firsts_orderedOutputs (r : JobRecord) : Firsts r.outputs r.orderedOutputs where
  ascending := r.pairwise_orderedOutputs
  mem_iff b := by rw [mem_batches_orderedOutputs, hasReceived_iff]
  first x hx := by
    have hfirst : firstOf x.batch r.outputs = some x := by
      rw [← firstOf_orderedOutputs]
      exact firstOf_eq_some_of_mem (eq_of_batch_eq r.pairwise_orderedOutputs) hx
    obtain ⟨-, earlier, later, houtputs, hearlier⟩ := List.find?_eq_some_iff_append.mp hfirst
    exact ⟨earlier, later, houtputs, by simpa using hearlier⟩

/-- The first output of every batch counts. That a batch reports again changes neither the ordered
outputs nor whether they can be joined, and nor does the order of the reports unless a batch reports
two different outputs. They can be joined when every batch has reported, if there are no others. -/
theorem order_and_repetition_irrelevant (r : JobRecord) :
    Firsts r.outputs r.orderedOutputs ∧
    (∀ x : BatchOutput, x.batch ∈ r.outputs.map BatchOutput.batch →
      (r.withOutputs (r.outputs ++ [x])).orderedOutputs = r.orderedOutputs ∧
        (r.withOutputs (r.outputs ++ [x])).readyToJoin = r.readyToJoin) ∧
    (∀ r' : JobRecord, r.Alike r' → r.outputs.Perm r'.outputs →
      (∀ x ∈ r.outputs, ∀ y ∈ r.outputs, x.batch = y.batch → x.output = y.output) →
      r'.orderedOutputs = r.orderedOutputs ∧ r'.readyToJoin = r.readyToJoin) ∧
    ((∀ x ∈ r.outputs, 1 ≤ x.batch ∧ x.batch ≤ r.expectedBatches) → r.status = .processing →
      0 < r.expectedBatches →
      (r.readyToJoin = true ↔
        ∀ b, 1 ≤ b → b ≤ r.expectedBatches → b ∈ r.outputs.map BatchOutput.batch)) := by
  refine ⟨r.firsts_orderedOutputs, fun x hx => ?_, fun r' halike hperm hunique => ?_,
    fun hnumbered hstatus hpos => ?_⟩
  · have hsplit : r.batches ≠ none := by
      intro hnone
      simp [JobRecord.outputs, hnone] at hx
    have hordered : r.orderedOutputs = (r.withOutputs (r.outputs ++ [x])).orderedOutputs := by
      refine orderedOutputs_congr fun b => ?_
      rw [outputs_withOutputs hsplit, firstOf_append_of_mem hx]
    exact ⟨hordered.symm, ((r.alike_withOutputs _).readyToJoin_eq hordered).symm⟩
  · have hsame : ∀ x ∈ r.outputs, ∀ y ∈ r.outputs, x.batch = y.batch → x = y := by
      rintro ⟨b, url⟩ hx ⟨b', url'⟩ hy hbatch
      obtain rfl : b = b' := hbatch
      rw [show url = url' from hunique _ hx _ hy rfl]
    have hordered : r.orderedOutputs = r'.orderedOutputs :=
      orderedOutputs_congr (firstOf_perm hperm hsame)
    exact ⟨hordered.symm, (halike.readyToJoin_eq hordered).symm⟩
  · rw [Numbered.readyToJoin_iff (n := r.expectedBatches) hnumbered rfl hpos]
    simp only [hstatus, true_and, Complete, hasReceived_iff]

/-- Three batches have reported, the third one first and twice. -/
def outOfOrder : JobRecord :=
  { JobRecord.fresh "j" ⟨0, 0⟩ with
    batches := some ⟨3, [⟨3, "c"⟩, ⟨1, "a"⟩, ⟨3, "c"⟩, ⟨2, "b"⟩]⟩ }

/-- They can be joined, and would be joined alike in another order, or if the first one reported
something else later on. -/
theorem order_and_repetition_irrelevant_outOfOrder :
    outOfOrder.readyToJoin = true ∧
      (outOfOrder.withOutputs (outOfOrder.outputs ++ [⟨1, "d"⟩])).orderedOutputs =
        outOfOrder.orderedOutputs ∧
      (outOfOrder.withOutputs outOfOrder.outputs.reverse).orderedOutputs =
        outOfOrder.orderedOutputs := by
  obtain ⟨-, hagain, horder, hready⟩ := outOfOrder.order_and_repetition_irrelevant
  have hall : ∀ b, 1 ≤ b → b ≤ 3 → b ∈ outOfOrder.outputs.map BatchOutput.batch := by
    intro b hb hb'
    interval_cases b <;> decide
  refine ⟨(hready (by decide) rfl (by decide)).mpr hall, (hagain ⟨1, "d"⟩ (by decide)).1, ?_⟩
  have hsplit : outOfOrder.batches ≠ none := by decide
  refine (horder _ (outOfOrder.alike_withOutputs _) ?_ (by decide)).1
  rw [outputs_withOutputs hsplit]
  exact (List.reverse_perm _).symm

end Slideshow.JobRecord
