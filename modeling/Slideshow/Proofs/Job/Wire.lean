import Slideshow.Job.Request
import Slideshow.Proofs.Json.Decoder
import Slideshow.Proofs.Json.Text

/-! # Messages on the wire

Options, requests and batches are decoded from what is written of them. Every name that is written
is one that is read, and a width or height that is left out is read as not asked for. -/

namespace Slideshow

open Json (Decoder Draft Origin Record Field)

/-! ## Options -/

theorem Effect.lookupName_text (e : Effect) : Decoder.lookupName names e.text = .ok e := by
  cases e <;> rfl

theorem Transition.lookupName_text (t : Transition) : Decoder.lookupName names t.text = .ok t := by
  cases t <;> rfl

theorem WipeMode.lookupName_text (m : WipeMode) : Decoder.lookupName names m.text = .ok m := by
  cases m <;> rfl

theorem ZoomMode.lookupName_text (m : ZoomMode) : Decoder.lookupName names m.text = .ok m := by
  cases m <;> rfl

theorem BatchContinuation.lookupName_text (c : BatchContinuation) :
    Decoder.lookupName names c.text = .ok c := by
  cases c <;> rfl

namespace SceneOptions

/-- The sides that are asked for fit into words. -/
structure InWords {α : Type} (o : SceneOptions α) : Prop where
  width : ∀ n, o.width = some n → n < UInt32.size
  height : ∀ n, o.height = some n → n < UInt32.size

/-- The durations are numbers. -/
structure Finite {α : Type} [Scalar α] (o : SceneOptions α) : Prop where
  sceneDuration : Scalar.isFinite o.sceneDuration = true
  transitionDuration : Scalar.isFinite o.transitionDuration = true

/-- The text layer reads the durations as it writes them. -/
structure ReadsBack (o : SceneOptions Float) : Prop where
  sceneDuration : Json.ReadsBack o.sceneDuration
  transitionDuration : Json.ReadsBack o.transitionDuration

/-- The members that are written of options. -/
def members (o : SceneOptions Float) : List (String × Json) :=
  [("scene_duration", .real o.sceneDuration), ("transition_duration", .real o.transitionDuration)]
    ++ Json.member? "width" (o.width.map fun n : ℕ => .integer n)
    ++ Json.member? "height" (o.height.map fun n : ℕ => .integer n)
    ++ [("effect", .string o.effect.text),
      ("transition", .string o.transition.text),
      ("wipe_direction", .string o.wipeDirection.text),
      ("zoom_direction", .string o.zoomDirection.text),
      ("audio", .bool o.audio),
      ("batch_continuation", .string o.batchContinuation.text),
      ("batch_mode", .bool o.batchMode)]

theorem toJson_eq (o : SceneOptions Float) : o.toJson = .object o.members := by
  unfold toJson members
  cases o.width <;> cases o.height <;> rfl

variable {o : SceneOptions Float} {origin : Origin}

theorem lookup_members (o : SceneOptions Float) (name : String) :
    o.members.lookup name =
      (((if name = "scene_duration" then some (.real o.sceneDuration)
        else if name = "transition_duration" then some (.real o.transitionDuration) else none).or
        (if name = "width" then o.width.map fun n : ℕ => .integer n else none)).or
        (if name = "height" then o.height.map fun n : ℕ => .integer n else none)).or
        (if name = "effect" then some (.string o.effect.text)
        else if name = "transition" then some (.string o.transition.text)
        else if name = "wipe_direction" then some (.string o.wipeDirection.text)
        else if name = "zoom_direction" then some (.string o.zoomDirection.text)
        else if name = "audio" then some (.bool o.audio)
        else if name = "batch_continuation" then some (.string o.batchContinuation.text)
        else if name = "batch_mode" then some (.bool o.batchMode) else none) := by
  simp only [members, List.lookup_append, Json.lookup_member?, Json.lookup_cons_eq, List.lookup_nil]

theorem reads_record (h : o.InWords) :
    record.Reads origin (fun name => (o.members.lookup name).map Draft.ofJson) o := by
  have hfind : ∀ name value, o.members.lookup name = some value →
      (o.members.lookup name).map Draft.ofJson = some (Draft.ofJson value) :=
    fun _ _ h => congrArg (Option.map Draft.ofJson) h
  refine .seq (.seq (.seq (.seq (.seq (.seq (.seq (.seq (.seq (.seq (.seq (.pure SceneOptions.mk)
    ?sceneDuration) ?transitionDuration) ?width) ?height) ?effect) ?transition) ?wipeDirection)
    ?zoomDirection) ?audio) ?batchContinuation) ?batchMode
  case sceneDuration =>
    exact Record.reads_defaulted _ (hfind _ (.real o.sceneDuration) (by simp [lookup_members])) rfl
  case transitionDuration =>
    exact Record.reads_defaulted _ (hfind _ (.real o.transitionDuration) (by simp [lookup_members])) rfl
  case width =>
    refine Record.reads_optional (fun n : ℕ => .integer n)
      (congrArg (Option.map Draft.ofJson) (by simp [lookup_members])) nofun fun n hn => ?_
    exact Decoder.unsigned_ofJson (h.width n hn) origin
  case height =>
    refine Record.reads_optional (fun n : ℕ => .integer n)
      (congrArg (Option.map Draft.ofJson) (by simp [lookup_members])) nofun fun n hn => ?_
    exact Decoder.unsigned_ofJson (h.height n hn) origin
  case effect =>
    exact Record.reads_defaulted _ (hfind _ (.string o.effect.text) (by simp [lookup_members]))
      o.effect.lookupName_text
  case transition =>
    exact Record.reads_defaulted _ (hfind _ (.string o.transition.text) (by simp [lookup_members]))
      o.transition.lookupName_text
  case wipeDirection =>
    exact Record.reads_defaulted _ (hfind _ (.string o.wipeDirection.text) (by simp [lookup_members]))
      o.wipeDirection.lookupName_text
  case zoomDirection =>
    exact Record.reads_defaulted _ (hfind _ (.string o.zoomDirection.text) (by simp [lookup_members]))
      o.zoomDirection.lookupName_text
  case audio =>
    exact Record.reads_defaulted _ (hfind _ (.bool o.audio) (by simp [lookup_members])) rfl
  case batchContinuation =>
    exact Record.reads_defaulted _ (hfind _ (.string o.batchContinuation.text)
      (by simp [lookup_members])) o.batchContinuation.lookupName_text
  case batchMode =>
    exact Record.reads_defaulted _ (hfind _ (.bool o.batchMode) (by simp [lookup_members])) rfl

theorem nodup_members (o : SceneOptions Float) : (o.members.map Prod.fst).Nodup := by
  unfold members
  cases o.width <;> cases o.height <;> simp [Json.member?]

/-- Every member of options is a single value. -/
theorem cases_of_mem_members {m : String × Json} (hm : m ∈ o.members) :
    (∃ x, m.2 = .real x ∧ (x = o.sceneDuration ∨ x = o.transitionDuration)) ∨
      (∃ n : ℕ, m.2 = .integer n ∧ (o.width = some n ∨ o.height = some n)) ∨
      (∃ s, m.2 = .string s) ∨ ∃ b, m.2 = .bool b := by
  simp only [members, List.mem_append] at hm
  obtain ((hm | hm) | hm) | hm := hm
  · simp only [List.mem_cons, List.not_mem_nil, or_false] at hm
    obtain rfl | rfl := hm
    · exact .inl ⟨_, rfl, .inl rfl⟩
    · exact .inl ⟨_, rfl, .inr rfl⟩
  · cases hwidth : o.width with
    | none => simp [Json.member?, hwidth] at hm
    | some n =>
        simp only [Json.member?, hwidth, Option.map_some, List.mem_singleton] at hm
        exact .inr (.inl ⟨n, congrArg Prod.snd hm, .inl rfl⟩)
  · cases hheight : o.height with
    | none => simp [Json.member?, hheight] at hm
    | some n =>
        simp only [Json.member?, hheight, Option.map_some, List.mem_singleton] at hm
        exact .inr (.inl ⟨n, congrArg Prod.snd hm, .inr rfl⟩)
  · simp only [List.mem_cons, List.not_mem_nil, or_false] at hm
    obtain rfl | rfl | rfl | rfl | rfl | rfl | rfl := hm <;> simp

/-- Options are decoded from what is written of them, wherever it stands. -/
theorem decoder_toJson (h : o.InWords) (origin : Origin) :
    decoder origin (Draft.ofJson o.toJson) = .ok o :=
  o.toJson_eq ▸ Record.decoder_ofJson _ o.nodup_members (reads_record h)

theorem readable_toJson (h : o.InWords) (hread : o.ReadsBack) : o.toJson.Readable := by
  rw [toJson_eq, Json.Readable, Json.readableMembers_iff]
  intro m hm
  obtain ⟨x, hx, rfl | rfl⟩ | ⟨n, hn, hside⟩ | ⟨s, hs⟩ | ⟨b, hb⟩ := cases_of_mem_members hm
  · exact hx ▸ hread.sceneDuration
  · exact hx ▸ hread.transitionDuration
  · have hlt : n < UInt32.size := hside.elim (h.width n) (h.height n)
    rw [hn, Json.Readable]
    exact ⟨n, lt_trans hlt (by decide), rfl⟩
  · rw [hs]
    trivial
  · rw [hb]
    trivial

theorem toJson?_toJson (o : SceneOptions Float) {depth : ℕ} (hdepth : 1 < depth) :
    (Draft.ofJson o.toJson).toJson? depth = .ok o.toJson := by
  rw [toJson_eq]
  refine Draft.toJson?_object hdepth fun m hm => ?_
  obtain ⟨x, hx, -⟩ | ⟨n, hn, -⟩ | ⟨s, hs⟩ | ⟨b, hb⟩ := cases_of_mem_members hm
  · rw [hx]
    rfl
  · rw [hn]
    rfl
  · rw [hs]
    rfl
  · rw [hb]
    rfl

/-- The sides of decoded options fit into words. -/
theorem inWords_of_decoder {draft : Draft} (h : decoder origin draft = .ok o) : o.InWords := by
  obtain ⟨find, h⟩ := Record.exists_build_of_decoder h
  obtain ⟨_, _, h₁, -, rfl⟩ := Record.build_seq h
  obtain ⟨_, _, h₂, -, rfl⟩ := Record.build_seq h₁
  obtain ⟨_, _, h₃, -, rfl⟩ := Record.build_seq h₂
  obtain ⟨_, _, h₄, -, rfl⟩ := Record.build_seq h₃
  obtain ⟨_, _, h₅, -, rfl⟩ := Record.build_seq h₄
  obtain ⟨_, _, h₆, -, rfl⟩ := Record.build_seq h₅
  obtain ⟨_, _, h₇, -, rfl⟩ := Record.build_seq h₆
  obtain ⟨_, height, h₈, hheight, rfl⟩ := Record.build_seq h₇
  obtain ⟨_, width, h₉, hwidth, rfl⟩ := Record.build_seq h₈
  obtain ⟨_, _, h₁₀, -, rfl⟩ := Record.build_seq h₉
  obtain ⟨_, _, hmk, -, rfl⟩ := Record.build_seq h₁₀
  obtain rfl := Except.ok.inj hmk
  refine ⟨fun n hn => ?_, fun n hn => ?_⟩
  · obtain rfl : width = some n := hn
    obtain ⟨draft, hdraft⟩ := Record.exists_of_build_optional hwidth
    exact Decoder.lt_of_unsigned hdraft
  · obtain rfl : height = some n := hn
    obtain ⟨draft, hdraft⟩ := Record.exists_of_build_optional hheight
    exact Decoder.lt_of_unsigned hdraft

end SceneOptions

/-! ## Requests and batches -/

namespace QueueJob

/-- The options of a message. -/
def options {α : Type} : QueueJob α → SceneOptions α
  | .createVideo request => request.options
  | .renderBatch batch => batch.options

/-- The numbers in a message fit into words. -/
structure InWords {α : Type} (job : QueueJob α) : Prop where
  options : job.options.InWords
  batch : ∀ n, job.batch = some n → n < UInt32.size

/-- The members of a message besides its kind. -/
def members : QueueJob Float → List (String × Json)
  | .createVideo request => request.members
  | .renderBatch batch => batch.members

theorem toJson_eq (job : QueueJob Float) :
    job.toJson = .object (("type", .string job.kind.text) :: job.members) := by
  cases job <;> rfl

variable {job : QueueJob Float}

theorem readable_toJson (h : job.InWords) (hread : job.options.ReadsBack) : job.toJson.Readable := by
  have hoptions := SceneOptions.readable_toJson h.options hread
  have hstrings : ∀ texts, (Json.strings texts).Readable := by
    intro texts
    rw [Json.strings, Json.Readable, Json.readableItems_iff]
    rintro item hitem
    obtain ⟨s, -, rfl⟩ := List.mem_map.mp hitem
    trivial
  cases job with
  | createVideo request =>
      exact ⟨trivial, trivial, hstrings request.urls, hoptions, trivial⟩
  | renderBatch batch =>
      have hbatch : batch.batch < UInt32.size := h.batch _ rfl
      exact ⟨trivial, trivial, ⟨_, lt_trans hbatch (by decide), rfl⟩, hstrings batch.urls, hoptions,
        trivial⟩

theorem toJson?_strings (texts : List String) {depth : ℕ} (hdepth : 1 < depth) :
    (Draft.ofJson (Json.strings texts)).toJson? depth = .ok (Json.strings texts) := by
  refine Draft.toJson?_array hdepth fun item hitem => ?_
  obtain ⟨s, -, rfl⟩ := List.mem_map.mp hitem
  rfl

/-- No member of a message is nested too deep to be held back. -/
theorem toJson?_of_mem_members {m : String × Json} (hm : m ∈ job.members) :
    (Draft.ofJson m.2).toJson? (Json.maxDepth - 1) = .ok m.2 := by
  cases job with
  | createVideo request =>
      simp only [members, VideoRequest.members, List.mem_cons, List.not_mem_nil, or_false] at hm
      obtain rfl | rfl | rfl := hm
      · rfl
      · exact toJson?_strings _ (by decide)
      · exact SceneOptions.toJson?_toJson _ (by decide)
  | renderBatch batch =>
      simp only [members, BatchJob.members, List.mem_cons, List.not_mem_nil, or_false] at hm
      obtain rfl | rfl | rfl | rfl := hm
      · rfl
      · rfl
      · exact toJson?_strings _ (by decide)
      · exact SceneOptions.toJson?_toJson _ (by decide)

end QueueJob

theorem VideoRequest.decoder_members (r : VideoRequest Float) (h : r.options.InWords)
    (origin : Origin) : decoder origin (Draft.ofJson (.object r.members)) = .ok r := by
  have hfind : ∀ m ∈ r.members,
      (r.members.lookup m.1).map Draft.ofJson = some (Draft.ofJson m.2) := fun m hm =>
    congrArg (Option.map Draft.ofJson) (Json.lookup_of_mem (by simp [members]) hm)
  refine Record.decoder_ofJson _ (by simp [members]) (.seq (.seq (.seq (.pure VideoRequest.mk)
    ?jobId) ?urls) ?options)
  case jobId => exact Record.reads_required (hfind ("job_id", .string r.jobId) (by simp [members])) rfl
  case urls =>
    exact Record.reads_required (hfind ("urls", Json.strings r.urls) (by simp [members]))
      (Decoder.strings_ofJson origin r.urls)
  case options =>
    exact Record.reads_defaulted _ (hfind ("options", r.options.toJson) (by simp [members]))
      (SceneOptions.decoder_toJson h origin)

theorem BatchJob.decoder_members (b : BatchJob Float) (h : b.options.InWords)
    (hbatch : b.batch < UInt32.size) (origin : Origin) :
    decoder origin (Draft.ofJson (.object b.members)) = .ok b := by
  have hfind : ∀ m ∈ b.members,
      (b.members.lookup m.1).map Draft.ofJson = some (Draft.ofJson m.2) := fun m hm =>
    congrArg (Option.map Draft.ofJson) (Json.lookup_of_mem (by simp [members]) hm)
  refine Record.decoder_ofJson _ (by simp [members]) (.seq (.seq (.seq (.seq (.pure BatchJob.mk)
    ?jobId) ?batch) ?urls) ?options)
  case jobId => exact Record.reads_required (hfind ("job_id", .string b.jobId) (by simp [members])) rfl
  case batch =>
    exact Record.reads_required (hfind ("batch", .integer b.batch) (by simp [members]))
      (Decoder.unsigned_ofJson hbatch origin)
  case urls =>
    exact Record.reads_required (hfind ("urls", Json.strings b.urls) (by simp [members]))
      (Decoder.strings_ofJson origin b.urls)
  case options =>
    exact Record.reads_required (hfind ("options", b.options.toJson) (by simp [members]))
      (SceneOptions.decoder_toJson h origin)

namespace QueueJob

/-- A message is decoded from what is written of it. -/
theorem decoder_toJson {job : QueueJob Float} (h : job.InWords) (origin : Origin) :
    decoder origin (Draft.ofJson job.toJson) = .ok job := by
  rw [toJson_eq]
  refine Json.tagged_ofJson (a := job.kind) _ ?_ ?_ (fun m hm => toJson?_of_mem_members hm) ?_
  · cases job <;> rfl
  · cases job <;> simp [members, VideoRequest.members, BatchJob.members]
  · cases job with
    | createVideo request =>
        exact congrArg (Except.map _) (request.decoder_members h.options .held)
    | renderBatch batch =>
        exact congrArg (Except.map _) (batch.decoder_members h.options (h.batch _ rfl) .held)

end QueueJob

end Slideshow
