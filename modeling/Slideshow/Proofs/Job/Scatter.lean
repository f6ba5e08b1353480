import Slideshow.Proofs.Job.Batches
import Mathlib.Data.Rat.Floor

/-! # The scatter of a job

The ranges of the batches overlap in one slide each and cover all slides, and every index on the
way to them fits into a machine word. -/

namespace Slideshow

variable {α : Type} {slides size i : ℕ}

theorem batchCount_eq (hsize : 0 < size) :
    batchCount slides size = slides / size + if slides % size = 0 then 0 else 1 := by
  have hdiv := Nat.div_add_mod slides size
  have hmod := Nat.mod_lt slides hsize
  rw [batchCount, if_neg (by omega)]
  split
  · rename_i hzero
    apply Nat.div_eq_of_lt_le
    · rw [Nat.add_zero, Nat.mul_comm]
      omega
    · rw [Nat.add_zero, Nat.succ_mul, Nat.mul_comm (slides / size)]
      omega
  · apply Nat.div_eq_of_lt_le
    · rw [Nat.succ_mul, Nat.mul_comm]
      omega
    · rw [Nat.succ_mul, Nat.succ_mul, Nat.mul_comm (slides / size)]
      omega

/-- The batches reach the last slide. -/
theorem le_batchCount_mul (hsize : 0 < size) : slides ≤ batchCount slides size * size := by
  have hdiv := Nat.div_add_mod slides size
  have hmod := Nat.mod_lt slides hsize
  rw [batchCount_eq hsize]
  split
  · rw [Nat.add_zero, Nat.mul_comm]
    omega
  · rw [Nat.succ_mul, Nat.mul_comm]
    omega

theorem batchCount_eq_ceil (hsize : 0 < size) :
    batchCount slides size = ⌈(slides : ℚ) / size⌉₊ := by
  have hpos : (0 : ℚ) < size := by exact_mod_cast hsize
  apply eq_of_forall_ge_iff
  intro k
  rw [Nat.ceil_le, div_le_iff₀ hpos]
  constructor
  · intro hk
    have hle : batchCount slides size * size ≤ k * size := Nat.mul_le_mul_right size hk
    exact_mod_cast le_trans (le_batchCount_mul hsize) hle
  · intro hk
    have hle : slides ≤ k * size := by exact_mod_cast hk
    by_contra hlt
    have hslides := (lt_of_lt_batchCount (not_le.mp hlt)).2
    omega

/-- A batch has a slide and ends with the slides at the latest. -/
theorem batchRange_bounds (hi : i < batchCount slides size) :
    (batchRange slides size i).1 < (batchRange slides size i).2 ∧
      (batchRange slides size i).2 ≤ slides := by
  obtain ⟨hsize, hslides⟩ := lt_of_lt_batchCount hi
  have hsucc : (i + 1) * size = i * size + size := Nat.succ_mul i size
  simp only [batchRange]
  omega

/-- A batch is followed by one that starts with its last slide and goes beyond it. -/
theorem batchRange_succ (hi : i + 1 < batchCount slides size) :
    (batchRange slides size (i + 1)).1 + 1 = (batchRange slides size i).2 ∧
      (batchRange slides size i).2 < (batchRange slides size (i + 1)).2 := by
  obtain ⟨hsize, hslides⟩ := lt_of_lt_batchCount hi
  have hsucc : (i + 1 + 1) * size = (i + 1) * size + size := Nat.succ_mul (i + 1) size
  have hpos : 0 < (i + 1) * size := Nat.mul_pos (Nat.succ_pos i) hsize
  simp only [batchRange]
  omega

@[simp] theorem batchRange_zero_fst : (batchRange slides size 0).1 = 0 := by simp [batchRange]

/-- The last batch ends with the last slide. -/
theorem batchRange_last (hi : i + 1 = batchCount slides size) :
    (batchRange slides size i).2 = slides := by
  obtain ⟨hsize, -⟩ := lt_of_lt_batchCount (show i < batchCount slides size by omega)
  have hle : slides ≤ (i + 1) * size := hi ▸ le_batchCount_mul hsize
  exact min_eq_right hle

theorem getElem?_map_range {β : Type} {f : ℕ → β} {count : ℕ} {y : β} :
    ((List.range count).map f)[i]? = some y ↔ i < count ∧ f i = y := by
  simp [List.getElem?_eq_some_iff]

theorem getElem?_batchRanges {range : ℕ × ℕ} :
    (batchRanges slides size)[i]? = some range ↔
      i < batchCount slides size ∧ batchRange slides size i = range := getElem?_map_range

/-- The elements of a list in a range. -/
def slice {β : Type} (xs : List β) (range : ℕ × ℕ) : List β := (xs.take range.2).drop range.1

/-- What the batches add one after another is the list up to the end of the last of them. -/
theorem take_of_slices {β : Type} (xs : List β) {k : ℕ} (hk : k < batchCount xs.length size) :
    slice xs (batchRange xs.length size 0) ++
        (List.range k).flatMap (fun i => (slice xs (batchRange xs.length size (i + 1))).drop 1) =
      xs.take (batchRange xs.length size k).2 := by
  induction k with
  | zero => simp [slice]
  | succ k ih =>
      obtain ⟨hstart, hlt⟩ := batchRange_succ hk
      rw [List.range_succ, List.flatMap_append, ← List.append_assoc, ih (by omega)]
      simp only [slice, List.flatMap_cons, List.flatMap_nil, List.append_nil, List.drop_drop,
        hstart]
      have hsplit := List.take_append_drop (batchRange xs.length size k).2
        (xs.take (batchRange xs.length size (k + 1)).2)
      rwa [List.take_take, min_eq_left hlt.le] at hsplit

theorem planBatches_eq (id : JobId) (urls : List String) (options : SceneOptions α)
    (hfew : batchCount urls.length size < UInt32.size) :
    planBatches id urls options size =
      (List.range (batchCount urls.length size)).map fun i =>
        .ofRequest id (i + 1) (slice urls (batchRange urls.length size i)) options := by
  apply List.ext_getElem (by simp)
  intro i hi hi'
  have hlt : i < batchCount urls.length size := by simpa using hi
  have hword : (i + 1) % UInt32.size = i + 1 := Nat.mod_eq_of_lt (by omega)
  simp [planBatches, batchRanges, slice, hword]

theorem mapM_eq_some {β γ : Type} {f : β → Option γ} {g : β → γ} {xs : List β}
    (h : ∀ x ∈ xs, f x = some (g x)) : xs.mapM f = some (xs.map g) := by
  induction xs with
  | nil => rfl
  | cons x xs ih => simp [h x, ih fun y hy => h y (List.mem_cons_of_mem x hy)]

/-! ## In machine words -/

namespace MachineWord

/-- An index as 64-bit word, unless it overflows. -/
def index? (n : ℕ) : Option ℕ := if n < UInt64.size then some n else none

/-- How many batches a number of slides needs, by a division that rounds up at last. -/
def batchCount? (slides size : ℕ) : Option ℕ :=
  if size = 0 then some 0
  else if slides % size = 0 then some (slides / size)
  else index? (slides / size + 1)

/-- The slides of a batch; the subtraction stops at zero. -/
def batchRange? (slides size i : ℕ) : Option (ℕ × ℕ) := do
  let start ← index? (i * size)
  let next ← index? (i + 1)
  let stop ← index? (next * size)
  some (start - 1, min stop slides)

/-- The elements of a list in a range that lies inside the list. -/
def slice? {β : Type} (xs : List β) (range : ℕ × ℕ) : Option (List β) :=
  if range.1 ≤ range.2 ∧ range.2 ≤ xs.length then some (slice xs range) else none

/-- The number of a batch: its index cut to 32 bits and counted on. -/
def number? (i : ℕ) : Option ℕ :=
  if i % UInt32.size + 1 < UInt32.size then some (i % UInt32.size + 1) else none

/-- A batch of a job, from its index on. -/
def batch? (id : JobId) (urls : List String) (options : SceneOptions α) (size i : ℕ) :
    Option (BatchJob α) := do
  let range ← batchRange? urls.length size i
  let part ← slice? urls range
  let number ← number? i
  some (.ofRequest id number part options)

/-- The batches of a job, with every index computed in a machine word and every range checked. -/
def planBatches? (id : JobId) (urls : List String) (options : SceneOptions α) (size : ℕ) :
    Option (List (BatchJob α)) := do
  let count ← batchCount? urls.length size
  (List.range count).mapM (batch? id urls options size)

theorem index?_of_lt {n : ℕ} (h : n < UInt64.size) : index? n = some n := if_pos h

theorem batchCount?_eq (hsize : 0 < size) (hslides : slides < 2 ^ 63) :
    batchCount? slides size = some (batchCount slides size) := by
  have hquot : slides / size ≤ slides := Nat.div_le_self slides size
  have hword : slides / size + 1 < UInt64.size := by
    simp only [UInt64.size]
    omega
  rw [batchCount_eq hsize, batchCount?, if_neg (by omega), index?_of_lt hword]
  split <;> rfl

/-- The end of a batch fits into a word: it lies less than the slides behind its start, or the
batch is the only one. -/
theorem batchRange?_eq (hsize : size < UInt64.size) (hslides : slides < 2 ^ 63)
    (hi : i < batchCount slides size) :
    batchRange? slides size i = some (batchRange slides size i) := by
  obtain ⟨hpos, hstart⟩ := lt_of_lt_batchCount hi
  have hle : i ≤ i * size := Nat.le_mul_of_pos_right i hpos
  have hstop : (i + 1) * size < UInt64.size := by
    cases i with
    | zero => simpa using hsize
    | succ i =>
        rw [Nat.succ_mul] at hstart ⊢
        rw [Nat.succ_mul]
        simp only [UInt64.size]
        omega
  have hfirst : i * size < UInt64.size := by
    simp only [UInt64.size]
    omega
  have hnext : i + 1 < UInt64.size := by
    simp only [UInt64.size]
    omega
  simp [batchRange?, batchRange, index?_of_lt, hfirst, hnext, hstop]

theorem number?_eq (hi : i + 1 < UInt32.size) : number? i = some (i + 1) := by
  rw [number?, Nat.mod_eq_of_lt (by omega), if_pos hi]

theorem batch?_eq (id : JobId) (urls : List String) (options : SceneOptions α)
    (hsize : size < UInt64.size) (hslides : urls.length < 2 ^ 63)
    (hfew : batchCount urls.length size < UInt32.size) (hi : i < batchCount urls.length size) :
    batch? id urls options size i =
      some (.ofRequest id (i + 1) (slice urls (batchRange urls.length size i)) options) := by
  obtain ⟨hne, hle⟩ := batchRange_bounds hi
  have hslice : slice? urls (batchRange urls.length size i) =
      some (slice urls (batchRange urls.length size i)) := if_pos ⟨hne.le, hle⟩
  simp [batch?, batchRange?_eq hsize hslides hi, hslice, number?_eq (i := i) (by omega)]

theorem planBatches?_eq (id : JobId) (urls : List String) (options : SceneOptions α)
    (hpos : 0 < size) (hsize : size < UInt64.size) (hslides : urls.length < 2 ^ 63)
    (hfew : batchCount urls.length size < UInt32.size) :
    planBatches? id urls options size = some (planBatches id urls options size) := by
  rw [planBatches?, batchCount?_eq hpos hslides, planBatches_eq id urls options hfew]
  apply mapM_eq_some
  intro i hi
  exact batch?_eq id urls options hsize hslides hfew (List.mem_range.mp hi)

end MachineWord

/-! ## What a scatter is -/

/-- A job is split: numbered batches that overlap in one slide each, with all slides and with the
options of the request. -/
structure Scattered (id : JobId) (urls : List String) (options : SceneOptions α) (size : ℕ)
    (batches : List (BatchJob α)) : Prop where
  length : batches.length = ⌈(urls.length : ℚ) / size⌉₊
  numbers : batches.map BatchJob.batch = List.range' 1 batches.length
  ids : ∀ b ∈ batches, b.jobId = id
  /-- No computation of an index overflows, and every range lies inside the list. -/
  fits : MachineWord.planBatches? id urls options size = some batches
  slices : batches.map BatchJob.urls = (batchRanges urls.length size).map (slice urls)
  first : ∀ range, (batchRanges urls.length size)[0]? = some range → range.1 = 0
  /-- A batch starts with the last slide of the one before and goes beyond it. -/
  next : ∀ i range range', (batchRanges urls.length size)[i]? = some range →
    (batchRanges urls.length size)[i + 1]? = some range' →
    range'.1 + 1 = range.2 ∧ range.2 < range'.2
  joined : (batches.take 1).flatMap BatchJob.urls ++
    (batches.drop 1).flatMap (fun b => b.urls.drop 1) = urls
  options : ∀ i b, batches[i]? = some b → b.options =
    { options with
      audio := false
      batchContinuation := if i = 0 then .initial else .continuation }

theorem planBatches_scattered (id : JobId) (urls : List String) (options : SceneOptions α)
    (size : ℕ) (hslides : urls.length < 2 ^ 63) (hpos : 1 ≤ size) (hsize : size < UInt64.size)
    (hfew : batchCount urls.length size < UInt32.size) :
    Scattered id urls options size (planBatches id urls options size) where
  length := by rw [length_planBatches, batchCount_eq_ceil hpos]
  numbers := by rw [map_batch_planBatches hfew, length_planBatches]
  ids b hb := (mem_planBatches hb).1
  fits := MachineWord.planBatches?_eq id urls options hpos hsize hslides hfew
  slices := by
    rw [planBatches_eq id urls options hfew]
    simp [batchRanges, BatchJob.ofRequest]
  first range hrange := by
    obtain ⟨-, rfl⟩ := getElem?_batchRanges.mp hrange
    exact batchRange_zero_fst
  next i range range' hrange hrange' := by
    obtain ⟨-, rfl⟩ := getElem?_batchRanges.mp hrange
    obtain ⟨hlt, rfl⟩ := getElem?_batchRanges.mp hrange'
    exact batchRange_succ hlt
  joined := by
    rw [planBatches_eq id urls options hfew]
    by_cases hnone : batchCount urls.length size = 0
    · have hle : urls.length ≤ 0 * size := hnone ▸ le_batchCount_mul hpos
      rw [hnone]
      simpa using (List.eq_nil_of_length_eq_zero (by omega)).symm
    · obtain ⟨k, hk⟩ := Nat.exists_eq_succ_of_ne_zero hnone
      have hjoin := take_of_slices urls (show k < batchCount urls.length size by omega)
      rw [batchRange_last hk.symm, List.take_length] at hjoin
      rw [hk, List.range_succ_eq_map]
      simpa [List.flatMap_map, BatchJob.ofRequest] using hjoin
  options i b hb := by
    rw [planBatches_eq id urls options hfew] at hb
    obtain ⟨-, rfl⟩ := getElem?_map_range.mp hb
    simp [BatchJob.ofRequest]

theorem planBatches_scattered_five :
    ["a", "b", "c", "d", "e"].length < 2 ^ 63 ∧ 1 ≤ 2 ∧ 2 < UInt64.size ∧
      batchCount ["a", "b", "c", "d", "e"].length 2 < UInt32.size ∧
      Scattered "job" ["a", "b", "c", "d", "e"] (SceneOptions.standard : SceneOptions Rat) 2
        (planBatches "job" ["a", "b", "c", "d", "e"] .standard 2) :=
  have hslides : ["a", "b", "c", "d", "e"].length < 2 ^ 63 := by decide
  have hfew : batchCount ["a", "b", "c", "d", "e"].length 2 < UInt32.size := by decide
  ⟨hslides, by decide, by decide, hfew,
    planBatches_scattered "job" _ .standard 2 hslides (by decide) (by decide) hfew⟩

example : batchRanges 45 20 = [(0, 20), (19, 40), (39, 45)] := by decide

end Slideshow
