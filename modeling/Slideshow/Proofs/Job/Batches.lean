import Slideshow.Job.Batching
import Mathlib.Data.List.Basic

/-! # The batches of a job

How many batches a number of slides makes, and how they are numbered. -/

namespace Slideshow

variable {α : Type} {id : JobId} {urls : List String} {options : SceneOptions α} {size : ℕ}

@[simp] theorem length_planBatches (id : JobId) (urls : List String) (options : SceneOptions α)
    (size : ℕ) : (planBatches id urls options size).length = batchCount urls.length size := by
  simp [planBatches, batchRanges]

theorem mem_planBatches {b : BatchJob α} (h : b ∈ planBatches id urls options size) :
    b.jobId = id ∧ ∃ i < batchCount urls.length size, b.batch = (i + 1) % UInt32.size := by
  obtain ⟨⟨⟨start, stop⟩, i⟩, hi, rfl⟩ := List.mem_map.mp h
  obtain ⟨-, hlt, -⟩ := List.mem_zipIdx hi
  refine ⟨rfl, i, ?_, rfl⟩
  simpa [batchRanges] using hlt

/-- Batches are numbered from one on as long as the numbers fit into a word. -/
theorem batch_of_mem_planBatches {b : BatchJob α} (h : b ∈ planBatches id urls options size)
    (hfew : batchCount urls.length size < UInt32.size) :
    1 ≤ b.batch ∧ b.batch ≤ batchCount urls.length size := by
  obtain ⟨-, i, hi, hb⟩ := mem_planBatches h
  have hword : (i + 1) % UInt32.size = i + 1 := Nat.mod_eq_of_lt (by omega)
  omega

/-- The batches are numbered one after another. -/
theorem map_batch_planBatches (hfew : batchCount urls.length size < UInt32.size) :
    (planBatches id urls options size).map BatchJob.batch =
      List.range' 1 (batchCount urls.length size) := by
  refine List.ext_getElem (by simp) fun i hi hi' => ?_
  have hlt : i < batchCount urls.length size := by simpa using hi
  have hword : (i + 1) % UInt32.size = i + 1 := Nat.mod_eq_of_lt (by omega)
  simp [planBatches, BatchJob.ofRequest, hword, Nat.add_comm]

theorem lt_of_lt_batchCount {slides i : ℕ} (h : i < batchCount slides size) :
    0 < size ∧ i * size < slides := by
  unfold batchCount at h
  split at h
  · omega
  · rename_i hsize
    have hle := (Nat.le_div_iff_mul_le (Nat.pos_of_ne_zero hsize)).mp (Nat.succ_le_of_lt h)
    rw [Nat.succ_mul] at hle
    omega

/-- No batch is empty, and its options are those of the request but for the sound and the first
slide. -/
theorem ofRequest_of_mem_planBatches {b : BatchJob α} (h : b ∈ planBatches id urls options size) :
    b.urls ≠ [] ∧
      ∃ c, b.options = { options with audio := false, batchContinuation := c } := by
  obtain ⟨⟨range, i⟩, hi, rfl⟩ := List.mem_map.mp h
  obtain ⟨hlt, hrange⟩ := List.getElem?_eq_some_iff.mp (List.mem_zipIdx_iff_getElem?.mp hi)
  refine ⟨List.ne_nil_of_length_pos ?_, _, rfl⟩
  obtain rfl : batchRange urls.length size i = range := by simpa [batchRanges] using hrange
  obtain ⟨hsize, hslides⟩ := lt_of_lt_batchCount
    (show i < batchCount urls.length size by simpa [batchRanges] using hlt)
  have hsucc : (i + 1) * size = i * size + size := Nat.succ_mul i size
  simp only [BatchJob.ofRequest, batchRange, List.length_drop, List.length_take]
  omega

end Slideshow
