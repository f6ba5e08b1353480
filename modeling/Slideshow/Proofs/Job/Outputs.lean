import Slideshow.Job.Record
import Mathlib.Data.List.Sort

/-! # The outputs of a job, by batch

`orderedOutputs` keeps the first output of every batch, by strictly increasing batch number. Where
the batches of a job are numbered from one to `n`, it has `n` entries exactly when every batch has
reported. -/

namespace Slideshow.JobRecord

/-! ## Filing one output -/

theorem mem_of_mem_file {x output : BatchOutput} {filed : List BatchOutput}
    (h : x ∈ file output filed) : x = output ∨ x ∈ filed := by
  induction filed with
  | nil => exact .inl (List.mem_singleton.mp h)
  | cons first rest ih =>
      simp only [file] at h
      split at h
      · exact List.mem_cons.mp h
      · split at h
        · exact .inr h
        · rcases List.mem_cons.mp h with h | h
          · exact .inr (h ▸ List.mem_cons_self)
          · exact (ih h).imp_right (List.mem_cons_of_mem first)

theorem mem_batches_file {b : ℕ} {output : BatchOutput} {filed : List BatchOutput} :
    b ∈ (file output filed).map BatchOutput.batch ↔
      b = output.batch ∨ b ∈ filed.map BatchOutput.batch := by
  induction filed with
  | nil => simp [file]
  | cons first rest ih =>
      simp only [file]
      split
      · simp
      · split
        · simp_all
        · simp only [List.map_cons, List.mem_cons, ih]
          exact or_left_comm

theorem pairwise_file {output : BatchOutput} {filed : List BatchOutput}
    (h : (filed.map BatchOutput.batch).Pairwise (· < ·)) :
    ((file output filed).map BatchOutput.batch).Pairwise (· < ·) := by
  induction filed with
  | nil => simp [file]
  | cons first rest ih =>
      obtain ⟨hfirst, hrest⟩ := List.pairwise_cons.mp h
      simp only [file]
      split
      · rename_i hlt
        refine List.pairwise_cons.mpr ⟨?_, h⟩
        intro b hb
        rcases List.mem_cons.mp hb with rfl | hb
        · exact hlt
        · exact hlt.trans (hfirst b hb)
      · split
        · exact h
        · refine List.pairwise_cons.mpr ⟨?_, ih hrest⟩
          intro b hb
          rcases mem_batches_file.mp hb with rfl | hb
          · omega
          · exact hfirst b hb

/-! ## Filing all outputs -/

/-- Filing output after output keeps what was filed and adds the batches of the others. -/
theorem foldl_file (outputs filed : List BatchOutput)
    (h : (filed.map BatchOutput.batch).Pairwise (· < ·)) :
    let all := outputs.foldl (fun filed output => file output filed) filed
    (all.map BatchOutput.batch).Pairwise (· < ·) ∧
      (∀ b, b ∈ all.map BatchOutput.batch ↔
        b ∈ filed.map BatchOutput.batch ∨ b ∈ outputs.map BatchOutput.batch) ∧
      ∀ x ∈ all, x ∈ filed ∨ x ∈ outputs := by
  induction outputs generalizing filed with
  | nil => simpa using h
  | cons output rest ih =>
      obtain ⟨hsorted, hbatches, hmem⟩ := ih (file output filed) (pairwise_file h)
      refine ⟨hsorted, ?_, ?_⟩
      · intro b
        rw [List.foldl_cons, hbatches, mem_batches_file, List.map_cons, List.mem_cons]
        exact or_assoc.trans or_left_comm
      · intro x hx
        rcases hmem x hx with hx | hx
        · rcases mem_of_mem_file hx with rfl | hx
          · exact .inr List.mem_cons_self
          · exact .inl hx
        · exact .inr (List.mem_cons_of_mem output hx)

theorem hasReceived_iff {r : JobRecord} {b : ℕ} :
    r.hasReceived b = true ↔ b ∈ r.outputs.map BatchOutput.batch := by
  simp [hasReceived]

theorem hasReceived_of_mem {r : JobRecord} {x : BatchOutput} (h : x ∈ r.outputs) :
    r.hasReceived x.batch = true :=
  hasReceived_iff.mpr (List.mem_map_of_mem h)

theorem pairwise_orderedOutputs (r : JobRecord) :
    (r.orderedOutputs.map BatchOutput.batch).Pairwise (· < ·) :=
  (foldl_file r.outputs [] List.Pairwise.nil).1

theorem mem_batches_orderedOutputs {r : JobRecord} {b : ℕ} :
    b ∈ r.orderedOutputs.map BatchOutput.batch ↔ r.hasReceived b = true := by
  rw [hasReceived_iff, orderedOutputs, (foldl_file r.outputs [] List.Pairwise.nil).2.1 b]
  simp

theorem mem_outputs_of_mem_orderedOutputs {r : JobRecord} {x : BatchOutput}
    (h : x ∈ r.orderedOutputs) : x ∈ r.outputs := by
  simpa using (foldl_file r.outputs [] List.Pairwise.nil).2.2 x h

/-! ## Batches numbered from one on -/

variable {r : JobRecord} {n : ℕ}

/-- Every batch from one to `n` has reported. -/
def Complete (n : ℕ) (r : JobRecord) : Prop := ∀ b, 1 ≤ b → b ≤ n → r.hasReceived b = true

/-- Every output belongs to a batch from one to `n`. -/
def Numbered (n : ℕ) (r : JobRecord) : Prop := ∀ x ∈ r.outputs, 1 ≤ x.batch ∧ x.batch ≤ n

theorem Numbered.batches_subset (h : r.Numbered n) :
    r.orderedOutputs.map BatchOutput.batch ⊆ List.range' 1 n := by
  intro b hb
  rw [mem_batches_orderedOutputs, hasReceived_iff] at hb
  obtain ⟨x, hx, rfl⟩ := List.mem_map.mp hb
  have := h x hx
  rw [List.mem_range'_1]
  omega

theorem Complete.batches_eq (h : r.Complete n) (hn : r.Numbered n) :
    r.orderedOutputs.map BatchOutput.batch = List.range' 1 n := by
  have hrange : (List.range' 1 n).Pairwise (· < ·) := List.pairwise_lt_range'
  refine List.Perm.eq_of_pairwise' (r.pairwise_orderedOutputs) hrange ?_
  refine (List.perm_ext_iff_of_nodup r.pairwise_orderedOutputs.nodup hrange.nodup).mpr ?_
  intro b
  refine ⟨fun hb => hn.batches_subset hb, fun hb => ?_⟩
  rw [List.mem_range'_1] at hb
  exact mem_batches_orderedOutputs.mpr (h b (by omega) (by omega))

theorem Complete.orderedOutputs_ne_nil (h : r.Complete n) (hpos : 0 < n) :
    r.orderedOutputs ≠ [] := by
  intro hnil
  have hfirst := mem_batches_orderedOutputs.mpr (h 1 le_rfl hpos)
  simp [hnil] at hfirst

/-- There are as many ordered outputs as batches exactly when every batch has reported. -/
theorem Numbered.length_orderedOutputs_eq_iff (hn : r.Numbered n) :
    r.orderedOutputs.length = n ↔ r.Complete n := by
  constructor
  · intro hlen b hb hbn
    -- distinct numbers up to `n`, and as many of them as there are, are all of them
    have hsub : (r.orderedOutputs.map BatchOutput.batch).Subperm (List.range' 1 n) :=
      List.subperm_of_subset r.pairwise_orderedOutputs.nodup hn.batches_subset
    have hperm := hsub.perm_of_length_le (by simp [hlen])
    refine mem_batches_orderedOutputs.mp (hperm.mem_iff.mpr ?_)
    rw [List.mem_range'_1]
    omega
  · intro h
    simpa using congrArg List.length (h.batches_eq hn)

/-- A job whose batches are numbered from one to `n` is ready to be joined exactly when it is open
and every batch has reported. -/
theorem Numbered.readyToJoin_iff (hn : r.Numbered n) (he : r.expectedBatches = n) (hpos : 0 < n) :
    r.readyToJoin = true ↔ r.status = .processing ∧ r.Complete n := by
  rw [← hn.length_orderedOutputs_eq_iff]
  simp [readyToJoin, he, hpos]

/-! ## Jobs that have ended -/

theorem not_joinOwnedBy_of_isTerminal (h : r.status.isTerminal = true) (b : ℕ) :
    r.joinOwnedBy b = false := by
  cases hr : r.status <;> simp [hr, joinOwnedBy, JobStatus.isTerminal] at h ⊢

theorem not_readyToJoin_of_isTerminal (h : r.status.isTerminal = true) : r.readyToJoin = false := by
  cases hr : r.status <;> simp [hr, readyToJoin, JobStatus.isTerminal] at h ⊢

end Slideshow.JobRecord
