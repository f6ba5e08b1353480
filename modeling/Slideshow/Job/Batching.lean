import Slideshow.Job.Request

/-! # Splitting a job into batches

Batch `i` ends where batch `i + 1` begins, except that every batch but the first starts one slide
earlier: with the last slide of the batch before, so that the transition between the two can be
rendered on its own. -/

namespace Slideshow

/-- How many batches a number of slides needs. -/
def batchCount (slides size : Nat) : Nat := if size = 0 then 0 else (slides + size - 1) / size

/-- The slides of batch `i`, from a start up to an end. -/
def batchRange (slides size i : Nat) : Nat × Nat := (i * size - 1, min ((i + 1) * size) slides)

/-- The slides of every batch. -/
def batchRanges (slides size : Nat) : List (Nat × Nat) :=
  (List.range (batchCount slides size)).map (batchRange slides size)

/-- The batches of a job, numbered from one on by 32-bit words. -/
def planBatches {α : Type} (jobId : JobId) (urls : List String) (options : SceneOptions α)
    (size : Nat) : List (BatchJob α) :=
  (batchRanges urls.length size).zipIdx.map fun ((start, stop), i) =>
    .ofRequest jobId ((i + 1) % UInt32.size) ((urls.take stop).drop start) options

end Slideshow
