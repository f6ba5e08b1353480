import Slideshow.Blob.Client
import Slideshow.Job.Request
import Slideshow.Proofs.Filter.Label

/-! # Names of work and of videos

Messages are queued, and videos stored, under keys that are put together from the name of a job and
the number of a batch. The name may be any text, but a number has no separator in it, so the last
separator is where the name ends: a key tells what it stands for. An object's address begins with
the address of the bucket, so the key can be read off the address. -/

namespace Slideshow

/-- Texts that are joined by a character can be told apart at its last occurrence. -/
theorem append_cons_inj_of_notMem_right {c : Char} {front front' back back' : List Char}
    (hc : c ∉ back) (hc' : c ∉ back') :
    front ++ c :: back = front' ++ c :: back' ↔ front = front' ∧ back = back' := by
  refine ⟨fun h => ?_, ?_⟩
  · rcases List.append_eq_append_iff.mp h with ⟨mid, hfront, hback⟩ | ⟨mid, hfront, hback⟩
    · cases mid with
      | nil => simp_all
      | cons d mid =>
          obtain ⟨-, rfl⟩ := List.cons_eq_cons.mp hback
          exact (hc (by simp)).elim
    · cases mid with
      | nil => simp_all
      | cons d mid =>
          obtain ⟨-, rfl⟩ := List.cons_eq_cons.mp hback
          exact (hc' (by simp)).elim
  · rintro ⟨rfl, rfl⟩
    rfl

/-! ## Messages -/

section Messages

variable {α : Type}

theorem VideoRequest.idempotencyKey_inj {r r' : VideoRequest α} :
    r.idempotencyKey = r'.idempotencyKey ↔ r.jobId = r'.jobId := by
  simp [idempotencyKey]

theorem BatchJob.idempotencyKey_inj {b b' : BatchJob α} :
    b.idempotencyKey = b'.idempotencyKey ↔ b.jobId = b'.jobId ∧ b.batch = b'.batch := by
  have hcolon (n : ℕ) : ':' ∉ Nat.toDigits 10 n := Decimal.not_mem_toDigits rfl
  rw [← String.toList_inj]
  simp [idempotencyKey, append_cons_inj_of_notMem_right (hcolon _) (hcolon _),
    Decimal.toDigits_inj_iff, String.toList_inj]

theorem VideoRequest.idempotencyKey_ne (r : VideoRequest α) (b : BatchJob α) :
    r.idempotencyKey ≠ b.idempotencyKey := by
  intro h
  have hfirst := congrArg (fun key : String => key.toList.head?) h
  simp [idempotencyKey, BatchJob.idempotencyKey] at hfirst

/-- A key tells the kind of a message, its job and its batch. -/
theorem QueueJob.idempotencyKey_inj {m m' : QueueJob α} :
    m.idempotencyKey = m'.idempotencyKey ↔
      m.kind = m'.kind ∧ m.jobId = m'.jobId ∧ m.batch = m'.batch := by
  cases m with
  | createVideo r =>
      cases m' with
      | createVideo r' => simp [idempotencyKey, kind, jobId, batch, VideoRequest.idempotencyKey_inj]
      | renderBatch b => simp [idempotencyKey, kind, r.idempotencyKey_ne b]
  | renderBatch b =>
      cases m' with
      | createVideo r => simp [idempotencyKey, kind, (r.idempotencyKey_ne b).symm]
      | renderBatch b' => simp [idempotencyKey, kind, jobId, batch, BatchJob.idempotencyKey_inj]

end Messages

/-! ## Videos -/

/-- What is stored of a job: the video of a batch, or the finished one. -/
inductive Artifact (α : Type) where
  | part (batch : BatchJob α)
  | finished (jobId : JobId)

namespace Artifact

variable {α : Type}

def jobId : Artifact α → JobId
  | part batch => batch.jobId
  | finished jobId => jobId

/-- The job, and the number of the batch if it is one. -/
def identity : Artifact α → JobId × Option ℕ
  | part batch => (batch.jobId, some batch.batch)
  | finished jobId => (jobId, none)

def segment : Artifact α → String
  | part batch => batch.segmentName
  | finished _ => Blob.finalSegment

/-- The key under which an artifact is stored. -/
def key (a : Artifact α) : String := Blob.videoKey a.jobId a.segment

/-- What the name of a segment has after the name of the finished video. -/
def digits : Option ℕ → List Char
  | none => []
  | some n => Nat.toDigits 10 n

theorem digits_inj {m n : Option ℕ} : digits m = digits n ↔ m = n := by
  cases m with
  | none => cases n <;> simp [digits]
  | some m => cases n <;> simp [digits, Decimal.toDigits_inj_iff]

theorem toList_segment (a : Artifact α) :
    a.segment.toList = "video".toList ++ digits a.identity.2 := by
  cases a <;> simp [segment, digits, identity, BatchJob.segmentName, Blob.finalSegment]

theorem slash_notMem_segment (a : Artifact α) : '/' ∉ a.segment.toList ++ ".mp4".toList := by
  rw [toList_segment]
  cases a.identity.2 <;> simp [digits, Decimal.not_mem_toDigits (c := '/') rfl]

theorem identity_fst (a : Artifact α) : a.identity.1 = a.jobId := by
  cases a <;> rfl

theorem toList_key (a : Artifact α) : a.key.toList =
    "video/".toList ++ (a.identity.1.toList ++ '/' :: (a.segment.toList ++ ".mp4".toList)) := by
  simp [key, Blob.videoKey, identity_fst]

/-- A key tells the job and the part: the name of the job ends at the last slash. -/
theorem key_inj {a a' : Artifact α} : a.key = a'.key ↔ a.identity = a'.identity := by
  rw [← String.toList_inj, toList_key, toList_key, List.append_cancel_left_eq,
    append_cons_inj_of_notMem_right a.slash_notMem_segment a'.slash_notMem_segment,
    List.append_cancel_right_eq, toList_segment, toList_segment, List.append_cancel_left_eq,
    digits_inj, String.toList_inj, Prod.ext_iff]

theorem key_ne_empty (a : Artifact α) : a.key ≠ "" := by
  intro h
  have hkey := congrArg String.toList h
  simp [toList_key] at hkey

end Artifact

/-! ## Addresses -/

namespace Bucket

theorem dropBeginning?_append (cs ds : List Char) : dropBeginning? cs (cs ++ ds) = some ds := by
  induction cs with
  | nil => rfl
  | cons c cs ih => simp [dropBeginning?, ih]

/-- A key can be read off the address of its object, however the bucket's own address ends. -/
theorem keyOf?_publicUrl (b : Bucket) {key : String} (hkey : key ≠ "") :
    b.keyOf? (b.publicUrl key) = some key := by
  have hurl : (b.publicUrl key).toList = (b.base.toList ++ ['/']) ++ key.toList := by
    simp [publicUrl]
  rw [keyOf?, hurl, dropBeginning?_append]
  simp [hkey]

end Bucket

end Slideshow
