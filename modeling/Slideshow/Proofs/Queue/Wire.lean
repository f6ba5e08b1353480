import Slideshow.Proofs.Job.Wire
import Slideshow.Proofs.Scene.Frame
import Slideshow.Proofs.Worker.Request
import Slideshow.Queue.Basic

/-! # What comes out of the queue is what was put in

The entry of a message that was queued is decoded to that message, so that no worker takes it for an
entry that nobody can handle. Of the text layer it is assumed that it reads the durations of the
message as it writes them, as it does with most doubles and not with all. -/

namespace Slideshow

open Json (Decoder)

namespace SceneOptions

variable {α : Type} [Scalar α] {o : SceneOptions α}

theorem finite_of_validate (h : o.validate = .ok ()) : o.Finite :=
  ⟨(accepted_of_validate h).finite_scene, (accepted_of_validate h).finite_transition⟩

theorem lt_of_checkSide {side : Side} {n : ℕ} (h : checkSide side (some n) = .ok ()) :
    n < UInt32.size :=
  lt_of_le_of_lt (bounds_of_checkSide h).2 (by decide)

theorem inWords_of_validate (h : o.validate = .ok ()) : o.InWords where
  width _ hn := lt_of_checkSide (hn ▸ (accepted_of_validate h).width)
  height _ hn := lt_of_checkSide (hn ▸ (accepted_of_validate h).height)

theorem InWords.sized (h : o.InWords) (frame : ℕ × ℕ) : (o.sized frame).InWords := by
  unfold SceneOptions.sized
  split
  · obtain ⟨hwidth, hheight⟩ := o.valid_resolveSize (some frame)
    exact ⟨fun n hn => Option.some.inj hn ▸ hwidth.lt, fun n hn => Option.some.inj hn ▸ hheight.lt⟩
  · exact h

end SceneOptions

theorem SceneOptions.ReadsBack.sized {o : SceneOptions Float} (h : o.ReadsBack) (frame : ℕ × ℕ) :
    (o.sized frame).ReadsBack := by
  refine ⟨?_, ?_⟩
  · rw [sceneDuration_sized]
    exact h.sceneDuration
  · rw [transitionDuration_sized]
    exact h.transitionDuration

namespace Queue

/-- Whatever entry holds what is queued of a message, the message is read of it, and nothing is
called on the way: the entry stays in the queue until the message was handled. -/
structure Survives (job : QueueJob Float) : Prop where
  decoded : ∀ entry : StreamEntry, entry.fields.lookup "job" = (entryFields job).lookup "job" →
    decode? entry = some (.ok job)
  accepted : ∀ (entry : StreamEntry) (deliveries : ℕ),
    entry.fields.lookup "job" = (entryFields job).lookup "job" →
      accept entry deliveries = pure (some ⟨entry.id, job, deliveries⟩)

theorem ofText_payload {job : QueueJob Float} (h : job.InWords) (hread : job.options.ReadsBack) :
    QueueJob.decoder.ofText (payload job) = .ok job :=
  Decoder.ofText_compact (QueueJob.readable_toJson h hread) (QueueJob.decoder_toJson h .text)

theorem survives {job : QueueJob Float} (h : job.InWords) (hread : job.options.ReadsBack) :
    Survives job := by
  have hdecoded : ∀ entry : StreamEntry,
      entry.fields.lookup "job" = (entryFields job).lookup "job" →
        decode? entry = some (.ok job) := by
    intro entry hentry
    have hpayload : (entryFields job).lookup "job" = some (payload job) := by simp [entryFields]
    rw [decode?, hentry, hpayload, Option.map_some, ofText_payload h hread]
  refine ⟨hdecoded, fun entry deliveries hentry => ?_⟩
  rw [accept, hdecoded entry hentry]

/-- A batch of a request in which all numbers fit into words is such a message itself. -/
theorem survives_of_mem_planBatches {o : SceneOptions Float} (h : o.InWords) (hread : o.ReadsBack)
    {id : JobId} {urls : List String} {size : ℕ} {b : BatchJob Float}
    (hb : b ∈ planBatches id urls o size) : Survives (.renderBatch b) := by
  obtain ⟨-, i, -, hbatch⟩ := mem_planBatches hb
  obtain ⟨-, c, hoptions⟩ := ofRequest_of_mem_planBatches hb
  refine survives ⟨?_, ?_⟩ ?_
  · change b.options.InWords
    rw [hoptions]
    exact ⟨h.width, h.height⟩
  · rintro n ⟨⟩
    rw [hbatch]
    exact Nat.mod_lt _ (by decide)
  · change b.options.ReadsBack
    rw [hoptions]
    exact ⟨hread.sceneDuration, hread.transitionDuration⟩

/-- What is queued is what is read from the queue, as far as the text layer reads back the durations:
every message, so every request that is accepted and every batch that is made of it once its frame is
fixed. Options that were decoded, in whatever spelling they were given, are decoded from what is
written of them as the same options, of which the same text is written again. -/
theorem survives_wire :
    (∀ job : QueueJob Float, job.InWords → job.options.ReadsBack → Survives job) ∧
    (∀ (request : VideoRequest Float) (limit : ℕ), request.validate limit = .ok () →
      request.options.Finite ∧ (request.options.ReadsBack →
        Survives (.createVideo request) ∧
        ∀ frame urls size, ∀ b ∈ planBatches request.jobId urls (request.options.sized frame) size,
          Survives (.renderBatch b))) ∧
    ∀ (o : SceneOptions Float) (given : Json.Draft) (origin : Json.Origin),
      SceneOptions.decoder origin given = .ok o → o.ReadsBack →
        SceneOptions.decoder.ofText o.toJson.compact = .ok o ∧
        SceneOptions.decoder.ofValue o.toJson = .ok o ∧
        (SceneOptions.decoder.ofText o.toJson.compact).map (fun o => o.toJson.compact) =
          .ok o.toJson.compact := by
  refine ⟨fun job => survives, fun request limit hvalid => ?_, fun o given origin hgiven hread => ?_⟩
  · have hoptions := VideoRequest.options_of_validate hvalid
    have hwords := SceneOptions.inWords_of_validate hoptions
    refine ⟨SceneOptions.finite_of_validate hoptions, fun hread => ⟨?_, ?_⟩⟩
    · exact survives ⟨hwords, nofun⟩ hread
    · intro frame urls size b hb
      exact survives_of_mem_planBatches (hwords.sized frame) (hread.sized frame) hb
  · have hwords := SceneOptions.inWords_of_decoder hgiven
    have htext := Decoder.ofText_compact (SceneOptions.readable_toJson hwords hread)
      (SceneOptions.decoder_toJson hwords .text)
    refine ⟨htext, SceneOptions.decoder_toJson hwords .value, ?_⟩
    rw [htext]
    rfl

/-- The options that are used where nothing else is asked for. -/
theorem readsBack_standard : (SceneOptions.standard : SceneOptions Float).ReadsBack := by
  refine ⟨?_, ?_⟩
  · exact Json.readsBack_of_tenths (a := '5') (b := '0') (n := 50) rfl rfl rfl rfl
      (by decide +kernel) (by decide +kernel)
  · exact Json.readsBack_of_tenths (a := '0') (b := '5') (n := 5) rfl rfl rfl rfl
      (by decide +kernel) (by decide +kernel)

/-- A request with a quotation mark in its name. -/
def quoted : VideoRequest Float :=
  ⟨"a \"job\"", ["https://example.com/1.png"], SceneOptions.standard⟩

/-- Options of which only the transition is given, by its older name. -/
def sliding : Json := .object [("transition", .string "slidein")]

theorem survives_quoted :
    quoted.validate 1 = .ok () ∧ Survives (.createVideo quoted) ∧
      (∀ b ∈ planBatches quoted.jobId quoted.urls (quoted.options.sized (1, 1)) 1,
        Survives (.renderBatch b)) ∧
      ∃ o, SceneOptions.decoder .value (Json.Draft.ofJson sliding) = .ok o ∧
        o.transition = .slideWipe ∧ SceneOptions.decoder.ofText o.toJson.compact = .ok o := by
  have hvalid : quoted.validate 1 = .ok () := by
    have hok : (quoted.validate 1).isOk = true := by decide +kernel
    cases h : quoted.validate 1 with
    | error e =>
        rw [h] at hok
        cases hok
    | ok _ => rfl
  have hread := readsBack_standard
  obtain ⟨hjobs, hrequests, hoptions⟩ := survives_wire
  refine ⟨hvalid, hjobs (.createVideo quoted) ⟨⟨nofun, nofun⟩, nofun⟩ hread,
    ((hrequests quoted 1 hvalid).2 hread).2 (1, 1) quoted.urls 1,
    { SceneOptions.standard with transition := .slideWipe }, rfl, rfl, ?_⟩
  exact (hoptions _ (Json.Draft.ofJson sliding) .value rfl
    ⟨hread.sceneDuration, hread.transitionDuration⟩).1

end Queue

end Slideshow
