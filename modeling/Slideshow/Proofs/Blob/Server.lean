import Slideshow.Proofs.Blob.Names
import Slideshow.Proofs.Program.Assurance
import Mathlib.Logic.Function.Basic

/-! # Workers that share a bucket

Workers store the videos that they have made and load those that others have stored, any number of
them at a time. Since different videos have different keys, what is loaded from the address of a
video was stored as that video, whatever else has been stored in the meantime. -/

namespace Slideshow

/-- The objects in a bucket, and the files that were ever written with fetched objects. -/
structure BlobServer where
  objects : String → Option String
  written : List (String × String)

namespace BlobServer

def put (x : BlobServer) (key content : String) : BlobServer :=
  { x with objects := Function.update x.objects key (some content) }

def write (x : BlobServer) (path content : String) : BlobServer :=
  { x with written := x.written ++ [(path, content)] }

@[simp]
theorem objects_put_self (x : BlobServer) (key content : String) :
    (x.put key content).objects key = some content := Function.update_self ..

theorem objects_put_of_ne {x : BlobServer} {key key' : String} (h : key' ≠ key)
    (content : String) : (x.put key content).objects key' = x.objects key' :=
  Function.update_of_ne h ..

end BlobServer

/-- How a call is answered and what it leaves behind, where `files` says what is in a file that is
stored. A request to store an object that fails may have been carried out. -/
def BlobCall.Answered (files : String → String) :
    (call : BlobCall) → BlobServer → call.Answer → BlobServer → Prop
  | .put key path _, x, a, y =>
    y = x.put key (files path) ∨ (∃ reason, a = .error reason) ∧ y = x
  | .get key, x, a, y =>
    y = x ∧ (∀ text, a = .content text → x.objects key = some text) ∧
      ∀ reason, a = .refused reason → Bucket.refusal key reason = .notFound key →
        x.objects key = none
  | .writeFile path content, x, a, y =>
    (a = .ok () ∧ y = x.write path content) ∨ (∃ fault, a = .error fault) ∧ y = x
  | .openFile _, x, _, y | .head, x, _, y => y = x

theorem BlobCall.exists_answered (files : String → String) (call : BlobCall) (x : BlobServer) :
    ∃ a y, call.Answered files x a y := by
  cases call with
  | openFile path => exact ⟨.ok (), x, rfl⟩
  | put key path contentType => exact ⟨.ok (), _, .inl rfl⟩
  | get key => exact ⟨.broken "", x, rfl, nofun, nofun⟩
  | head => exact ⟨.ok (), x, rfl⟩
  | writeFile path content => exact ⟨.ok (), _, .inl ⟨rfl, rfl⟩⟩

/-! ## What workers do -/

variable {α : Type}

/-- What a worker may be about to do with the bucket. -/
inductive Transfer (α : Type) where
  /-- Store a file as an artifact. -/
  | store (a : Artifact α) (path : String)
  /-- Load the object at an address into a file. -/
  | load (url path : String)

namespace Transfer

/-- The address is given back, that of what was stored or of what was loaded. -/
def run (b : Bucket) : Transfer α → Program BlobCall.Answer (Except BlobError String)
  | store a path => (b.upload a.jobId a.segment path).run
  | load url path => (do b.download url path; return url : Storing String).run

theorem run_store (b : Bucket) (a : Artifact α) (path : String) :
    (store a path).run b = .call (.openFile path) fun (r : Except String Unit) => match r with
      | .error reason => .done (.error (.upload a.key reason))
      | .ok () => .call (.put a.key path Bucket.contentType) fun (r : Except String Unit) =>
        match r with
        | .error reason => .done (.error (.upload a.key reason))
        | .ok () => .done (.ok (b.publicUrl a.key)) := by
  refine congrArg (Program.call (BlobCall.openFile path)) (funext fun r => ?_)
  cases r with
  | error reason => rfl
  | ok _ =>
      refine congrArg (Program.call _) (funext fun r => ?_)
      cases r <;> rfl

theorem run_load (b : Bucket) {key : String} (hkey : key ≠ "") (path : String) :
    (load (α := α) (b.publicUrl key) path).run b =
      .call (.get key) fun (r : ObjectReply) => match r with
        | .refused reason => .done (.error (Bucket.refusal key reason))
        | .broken reason => .done (.error (.download key reason))
        | .content text => .call (.writeFile path text) fun (r : Except FileFault Unit) =>
          match r with
          | .error fault => .done (.error (.file fault))
          | .ok () => .done (.ok (b.publicUrl key)) := by
  rw [run, Bucket.download, b.keyOf?_publicUrl hkey]
  refine congrArg (Program.call (BlobCall.get key)) (funext fun r => ?_)
  cases r with
  | refused reason => rfl
  | broken reason => rfl
  | content text =>
      refine congrArg (Program.call _) (funext fun r => ?_)
      cases r <;> rfl

end Transfer

/-! ## What they leave behind -/

namespace BlobServer

/-- Whatever is stored as an artifact may be: `shows` says which content shows which part of which
job. -/
def Faithful (α : Type) (shows : JobId × Option ℕ → String → Prop) (x : BlobServer) : Prop :=
  ∀ (a : Artifact α) text, x.objects a.key = some text → shows a.identity text

/-- How a bucket changes while workers use it. -/
structure Evolves (α : Type) (shows : JobId × Option ℕ → String → Prop) (x y : BlobServer) :
    Prop where
  faithful : x.Faithful α shows → y.Faithful α shows
  kept : ∀ key, (x.objects key).isSome → (y.objects key).isSome
  written : x.written ⊆ y.written

variable {shows : JobId × Option ℕ → String → Prop} {x y z : BlobServer}

theorem Evolves.refl (x : BlobServer) : x.Evolves α shows x :=
  ⟨id, fun _ => id, List.Subset.refl _⟩

theorem Evolves.trans (h : x.Evolves α shows y) (h' : y.Evolves α shows z) :
    x.Evolves α shows z :=
  ⟨h'.faithful ∘ h.faithful, fun key => h'.kept key ∘ h.kept key,
    List.Subset.trans h.written h'.written⟩

/-- No other artifact has the same key. -/
theorem evolves_put {a : Artifact α} {text : String} (h : shows a.identity text)
    (x : BlobServer) : x.Evolves α shows (x.put a.key text) where
  faithful hx a' text' htext' := by
    by_cases hkey : a'.key = a.key
    · rw [hkey, objects_put_self, Option.some_inj] at htext'
      rwa [← htext', Artifact.key_inj.mp hkey]
    · rw [objects_put_of_ne hkey] at htext'
      exact hx a' text' htext'
  kept key hkey := by
    by_cases hsame : key = a.key
    · simp [hsame]
    · rwa [objects_put_of_ne hsame]
  written := List.Subset.refl _

theorem evolves_write (x : BlobServer) (path text : String) :
    x.Evolves α shows (x.write path text) :=
  ⟨id, fun _ => id, List.subset_append_left _ _⟩

end BlobServer

namespace Transfer

variable {b : Bucket} {files : String → String} {shows : JobId × Option ℕ → String → Prop}
  {x : BlobServer}

/-- What shows the artifact was written, or else the object broke off or could not be written. -/
def Loaded (shows : JobId × Option ℕ → String → Prop) (a : Artifact α) (path : String)
    (x : BlobServer) : Except BlobError String → Prop
  | .ok _ => ∃ text, shows a.identity text ∧ (path, text) ∈ x.written
  | .error e => (∃ reason, e = .download a.key reason) ∨ ∃ fault, e = .file fault

/-- A worker that stores an artifact is told its address, and then the object is there; one that
uses the address of an artifact loads that artifact. -/
def Ends (b : Bucket) (shows : JobId × Option ℕ → String → Prop) (t : Transfer α)
    (r : Except BlobError String) (x : BlobServer) : Prop :=
  match t with
  | store a _ => ∀ url, r = .ok url → url = b.publicUrl a.key ∧ (x.objects a.key).isSome
  | load url path => ∀ a : Artifact α, url = b.publicUrl a.key → Loaded shows a path x r

/-- Workers that share a bucket. -/
def sharing (b : Bucket) (files : String → String) (shows : JobId × Option ℕ → String → Prop) :
    Sharing (run (α := α) b) (BlobCall.Answered files) where
  Evolves := BlobServer.Evolves α shows
  refl := .refl
  trans := .trans
  own _ := BlobServer.Evolves α shows
  evolves_of_own h := h
  ends := Ends b shows
  ends_later := by
    rintro (⟨a, path⟩ | ⟨url, path⟩) r x y hends hxy
    · intro url hr
      obtain ⟨hurl, hthere⟩ := hends url hr
      exact ⟨hurl, hxy.kept _ hthere⟩
    · intro a hurl
      have hloaded := hends a hurl
      cases r with
      | error e => exact hloaded
      | ok _ =>
          obtain ⟨text, htext, hmem⟩ := hloaded
          exact ⟨text, htext, hxy.written hmem⟩

theorem starts_store {a : Artifact α} {path : String} (h : shows a.identity (files path)) :
    (sharing b files shows).Starts (store a path) x := by
  rw [Sharing.Starts, run_store]
  intro y _
  refine ⟨BlobCall.exists_answered files _ y, fun r y' hr => ?_⟩
  obtain rfl : y' = y := hr
  refine ⟨.refl _, ?_⟩
  cases r with
  | error reason => exact nofun
  | ok _ =>
      intro z _
      refine ⟨BlobCall.exists_answered files _ z, fun r z' hr => ?_⟩
      rcases hr with rfl | ⟨⟨reason, rfl⟩, rfl⟩
      · refine ⟨BlobServer.evolves_put h z, ?_⟩
        cases r with
        | error reason => exact nofun
        | ok _ =>
            rintro _ ⟨⟩
            exact ⟨rfl, by simp⟩
      · exact ⟨.refl _, nofun⟩

theorem loaded_of_eq {a a' : Artifact α} {path : String} {r : Except BlobError String}
    (h : Loaded shows a path x r) (hurl : b.publicUrl a.key = b.publicUrl a'.key) :
    Loaded shows a' path x r := by
  have hkey : a.key = a'.key := by
    have hkeys := congrArg b.keyOf? hurl
    rwa [b.keyOf?_publicUrl a.key_ne_empty, b.keyOf?_publicUrl a'.key_ne_empty,
      Option.some_inj] at hkeys
  cases r with
  | ok _ => rwa [Loaded, ← Artifact.key_inj.mp hkey]
  | error e => rwa [Loaded, ← hkey]

theorem refusal_eq {key reason : String} (h : Bucket.refusal key reason ≠ .notFound key) :
    Bucket.refusal key reason = .download key reason := by
  unfold Bucket.refusal at h ⊢
  split
  · rename_i hnone
    exact (h (if_pos hnone)).elim
  · rfl

/-- The address tells the key, the object stays there, and only what shows the artifact is ever
stored under its key. -/
theorem starts_load {a : Artifact α} {path : String} (hx : x.Faithful α shows)
    (hthere : (x.objects a.key).isSome) :
    (sharing (α := α) b files shows).Starts (load (b.publicUrl a.key) path) x := by
  rw [Sharing.Starts, run_load b a.key_ne_empty]
  intro y hxy
  refine ⟨BlobCall.exists_answered files _ y, fun r y' hr => ?_⟩
  obtain ⟨rfl, hcontent, hrefused⟩ := hr
  refine ⟨.refl _, ?_⟩
  cases r with
  | refused reason =>
      have hfound : Bucket.refusal a.key reason ≠ .notFound a.key := by
        intro hnone
        have hy := hxy.kept _ hthere
        rw [hrefused reason rfl hnone] at hy
        cases hy
      exact fun a' => loaded_of_eq (.inl ⟨reason, refusal_eq hfound⟩)
  | broken reason => exact fun a' => loaded_of_eq (.inl ⟨reason, rfl⟩)
  | content text =>
      have htext : shows a.identity text := hxy.faithful hx a text (hcontent text rfl)
      intro z _
      refine ⟨BlobCall.exists_answered files _ z, fun r z' hr => ?_⟩
      rcases hr with ⟨rfl, rfl⟩ | ⟨⟨fault, rfl⟩, rfl⟩
      · refine ⟨BlobServer.evolves_write z path text, fun a' => loaded_of_eq ⟨text, htext, ?_⟩⟩
        simp [BlobServer.write]
      · exact ⟨.refl _, fun a' => loaded_of_eq (.inr ⟨fault, rfl⟩)⟩

/-! ## Any number of workers -/

/-- The address was given to a worker that stored the artifact. -/
def GivenOut (s : System (run (α := α) b) BlobServer) (a : Artifact α) (url : String) : Prop :=
  ∃ d ∈ s.attempts, ∃ path, d.message = .store a path ∧ d.rest = .done (.ok url)

/-- A file is stored only as what it shows, and only addresses that were given out are used. -/
def Admitted (files : String → String) (shows : JobId × Option ℕ → String → Prop)
    (s : System (run (α := α) b) BlobServer) : Transfer α → Prop
  | store a path => shows a.identity (files path)
  | load url _ => ∃ a, GivenOut s a url

variable {s : System (run (α := α) b) BlobServer}

theorem ends_of_givenOut (hs : (sharing b files shows).Sound x s) {a : Artifact α} {url : String}
    (h : GivenOut s a url) : url = b.publicUrl a.key ∧ (s.shared.objects a.key).isSome := by
  obtain ⟨d, hd, path, hmessage, hrest⟩ := h
  have hends := hs.ends hd hrest
  rw [hmessage] at hends
  exact hends url rfl

theorem sound_of_reaches (hx : x.Faithful α shows)
    (h : System.Reaches (BlobCall.Answered files) (Admitted files shows) ⟨x, []⟩ s) :
    (sharing b files shows).Sound x s := by
  refine (Sharing.sound_start x).reaches_of_starts (fun s hs m hm => ?_) h
  cases m with
  | store a path => exact starts_store hm
  | load url path =>
      obtain ⟨a, ha⟩ := hm
      obtain ⟨rfl, hthere⟩ := ends_of_givenOut hs ha
      exact starts_load (hs.evolves.faithful hx) hthere

/-- Keys tell messages apart by their kind, job and batch, and videos by their job and part; a key can
be read off the address of its object. So, however many workers share a bucket, one that uses an
address that was given out for a video loads that video, if it is not kept from loading at all. -/
theorem keys_identify (hx : x.Faithful α shows)
    (h : System.Reaches (BlobCall.Answered files) (Admitted files shows) ⟨x, []⟩ s) :
    (∀ m m' : QueueJob α, m.idempotencyKey = m'.idempotencyKey ↔
      m.kind = m'.kind ∧ m.jobId = m'.jobId ∧ m.batch = m'.batch) ∧
    (∀ a a' : Artifact α, a.key = a'.key ↔ a.identity = a'.identity) ∧
    (∀ (c : BlobConfig) (b : Bucket), c.toBucket = .ok b →
      ∀ a : Artifact α, b.keyOf? (b.publicUrl a.key) = some a.key) ∧
    ∀ d ∈ s.attempts, ∀ url path, d.message = .load url path → ∀ a, GivenOut s a url →
      ∀ r, d.rest = .done r → Loaded shows a path s.shared r := by
  have hsound := sound_of_reaches hx h
  refine ⟨fun m m' => QueueJob.idempotencyKey_inj, fun a a' => Artifact.key_inj,
    fun c b _ a => b.keyOf?_publicUrl a.key_ne_empty, ?_⟩
  intro d hd url path hmessage a hgiven r hrest
  have hends := hsound.ends hd hrest
  rw [hmessage] at hends
  exact hends a (ends_of_givenOut hsound hgiven).1

/-! ## A run of three workers -/

/-- A service on the same machine. -/
def localConfig : BlobConfig where
  bucket := "reels"
  endpoint := some "http://localhost:9000/"
  accessKey := none
  secretKey := none
  publicUrl := none

def localBucket : Bucket := ⟨"reels", "http://localhost:9000/reels"⟩

/-- The first batch of a job whose name has separators in it. -/
def firstBatch : Artifact Float := .part ⟨"j:1/2", 1, [], .standard⟩

/-- The finished video of that job. -/
def whole : Artifact Float := .finished "j:1/2"

/-- The file that the finished video, or any batch, is stored from. -/
def StoredFrom (identity : JobId × Option ℕ) (path : String) : Prop :=
  path = if identity.2 = none then "video.mp4" else "batch.mp4"

/-- What is told to a worker that stores an artifact without trouble. -/
abbrev storing (a : Artifact α) (path : String) : List (Exchange BlobCall.Answer) :=
  [⟨.openFile path, .ok ()⟩, ⟨.put a.key path Bucket.contentType, .ok ()⟩]

/-- Without trouble a worker is done when the object is there. -/
theorem reaches_store (s : System (run (α := α) b) BlobServer) (a : Artifact α) (path : String)
    (h : shows a.identity (files path)) :
    System.Reaches (BlobCall.Answered files) (Admitted files shows) s
      ⟨s.shared.put a.key (files path), s.attempts ++ [⟨.store a path, storing a path,
        .done (.ok (b.publicUrl a.key)),
        run_store b a path ▸ .answered (.answered (.start _)), false⟩]⟩ :=
  System.Reaches.deliver (m := store a path) h _ (.cons rfl (.cons (.inl rfl) (.nil _)))

/-- Two workers store the first batch and the finished video, and a third one loads the batch. -/
theorem keys_identify_firstBatch : localConfig.toBucket = .ok localBucket ∧
    ∃ s : System (run (α := Float) localBucket) BlobServer, ∃ d ∈ s.attempts,
      d.message = .load "http://localhost:9000/reels/video/j:1/2/video1.mp4" "part1.mp4" ∧
      (∃ url, d.rest = .done (.ok url)) ∧ ("part1.mp4", "batch.mp4") ∈ s.shared.written := by
  have hbase : localConfig.publicBase = localBucket.base := by decide +kernel
  refine ⟨congrArg (fun base => Except.ok (Bucket.mk "reels" base)) hbase, ?_⟩
  let x : BlobServer := ⟨fun _ => none, []⟩
  have hempty : x.Faithful Float StoredFrom := fun _ _ h => nomatch h
  have hbatch : System.Reaches (BlobCall.Answered id) (Admitted id StoredFrom) ⟨x, []⟩ _ :=
    reaches_store (b := localBucket) _ firstBatch "batch.mp4" rfl
  have hstored := hbatch.trans (reaches_store _ whole "video.mp4" rfl)
  have hload : ((load (localBucket.publicUrl firstBatch.key) "part1.mp4" : Transfer Float).run
      localBucket).Leads [⟨.get firstBatch.key, .content "batch.mp4"⟩,
        ⟨.writeFile "part1.mp4" "batch.mp4", .ok ()⟩]
      (.done (.ok (localBucket.publicUrl firstBatch.key))) := by
    rw [run_load localBucket firstBatch.key_ne_empty]
    exact .answered (.answered (.start _))
  have hne : firstBatch.key ≠ whole.key := fun h => nomatch Artifact.key_inj.mp h
  have hfound : ((x.put firstBatch.key "batch.mp4").put whole.key "video.mp4").objects
      firstBatch.key = some "batch.mp4" := by
    rw [BlobServer.objects_put_of_ne hne, BlobServer.objects_put_self]
  have hreach := hstored.trans (System.Reaches.deliver
    ⟨firstBatch, _, List.mem_cons_self, "batch.mp4", rfl, rfl⟩ hload
    (.cons ⟨rfl, fun _ h => ObjectReply.content.inj h ▸ hfound, nofun⟩
      (.cons (.inl ⟨rfl, rfl⟩) (.nil _))))
  have hloaded := (keys_identify hempty hreach).2.2.2
  obtain ⟨text, rfl, hmem⟩ := hloaded _ (List.mem_append_right _ List.mem_cons_self) _ _ rfl
    firstBatch ⟨_, List.mem_cons_self, "batch.mp4", rfl, rfl⟩ _ rfl
  have hurl : localBucket.publicUrl firstBatch.key =
      "http://localhost:9000/reels/video/j:1/2/video1.mp4" := by decide +kernel
  exact ⟨_, _, List.mem_append_right _ List.mem_cons_self, congrArg (load · _) hurl, ⟨_, rfl⟩, hmem⟩

end Transfer

end Slideshow
