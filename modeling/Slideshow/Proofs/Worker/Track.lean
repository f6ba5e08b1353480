import Slideshow.Proofs.Render.Plan
import Slideshow.Proofs.Worker.Frame
import Slideshow.Proofs.Worker.Request

/-! # With and without a track

A request is rendered silent where no track can be had: whatever is answered to the calls that seek
one, the request does not fail because of them. A join needs a track and fails without one. -/

namespace Slideshow

open WorkerExchange

variable {α : Type}

/-! ## Requests -/

/-- The call seeks a track, by asking for the catalog or fetching a file after that, or notes a
failure. -/
def WorkerCall.Dispensable (t : List (WorkerExchange α)) : WorkerCall α → Prop
  | .audioCatalog | .store (.markFailed _ _) => True
  | .fetch _ _ => ∃ a, ⟨.audioCatalog, a⟩ ∈ t
  | _ => False

/-- All calls succeeded that had to: any other may have failed. -/
def SmoothButTrack (t : List (WorkerExchange α)) : Prop :=
  ∀ u e v, t = u ++ e :: v → e.call.Succeeds e.answer ∨ e.call.Dispensable u

theorem SmoothButTrack.last {t : List (WorkerExchange α)} {e : WorkerExchange α}
    (h : SmoothButTrack (t ++ [e])) : e.call.Succeeds e.answer ∨ e.call.Dispensable t :=
  h t e [] rfl

theorem SmoothButTrack.of_prefix {t u : List (WorkerExchange α)} (h : SmoothButTrack u)
    (ht : t <+: u) : SmoothButTrack t := by
  obtain ⟨v, rfl⟩ := ht
  rintro u e w rfl
  exact h u e (w ++ v) (by simp)

theorem smoothButTrack_of_forall {t : List (WorkerExchange α)}
    (h : ∀ e ∈ t, e.call.Succeeds e.answer ∨ e.call = .audioCatalog) : SmoothButTrack t := by
  rintro u ⟨c, a⟩ v rfl
  rcases h _ (List.mem_append_right u List.mem_cons_self) with hok | rfl
  · exact .inl hok
  · exact .inr trivial

namespace Task

variable {β γ : Type} {t : List (WorkerExchange α)} {ends : Except WorkerError β → Prop}

/-- Where all calls succeed that have to, the task ends as `ends` tells. -/
def Copes (x : Task α β) (t : List (WorkerExchange α)) (ends : Except WorkerError β → Prop) :
    Prop :=
  x.run.Meets (fun _ _ => True) (fun u result => SmoothButTrack u → ends result) t

theorem Copes.mono {x : Task α β} {ends' : Except WorkerError β → Prop} (h : x.Copes t ends)
    (hends : ∀ result, ends result → ends' result) : x.Copes t ends' :=
  Program.Meets.mono h (fun _ _ _ h => h) fun _ result _ h ht => hends result (h ht)

theorem copes_pure {b : β} (h : ends (.ok b)) : (pure b : Task α β).Copes t ends := fun _ => h

theorem copes_ask {c : WorkerCall α} {f : c.Answer → Except WorkerError β} {x : Task α β}
    (hx : x.run = f <$> WorkerCall.ask c)
    (h : ∀ a, c.Succeeds a ∨ c.Dispensable t → ends (f a)) : x.Copes t ends := by
  rw [Copes, hx]
  exact ⟨trivial, fun a ht => h a ht.last⟩

theorem copes_setStatus (id : JobId) (status : JobStatus) (video : Option String) :
    (setStatus id status video : Task α Unit).Copes t fun result => result = .ok () := by
  refine copes_ask (c := .store (.setStatus id status video)) (f := fun a => a) rfl ?_
  rintro _ (⟨_, rfl⟩ | h)
  · rfl
  · exact h.elim

theorem Copes.bind {x : Task α γ} {f : γ → Task α β} {mid : Except WorkerError γ → Prop}
    (hx : x.Copes t mid) (herror : ∀ e, mid (.error e) → ends (.error e))
    (hf : ∀ c u, t <+: u → mid (.ok c) → (f c).Copes u ends) : (x >>= f).Copes t ends := by
  rw [Copes, Task.meets_bind]
  refine Program.Meets.mono hx (fun _ _ _ h => h) fun u result hu hmid => ?_
  cases result with
  | error e => exact fun ht => herror e (hmid ht)
  | ok c =>
      by_cases ht : SmoothButTrack u
      · exact hf c u hu (hmid ht)
      · -- what failed before has failed for good
        refine Program.meets_of_forall _ (fun _ _ _ => trivial) fun v result hv hv' => ?_
        exact (ht (hv'.of_prefix hv)).elim

/-- A call that has to succeed. -/
theorem copes_bind_ask {c : WorkerCall α} {y : Task α γ} {f : γ → Task α β}
    {g : c.Answer → Except WorkerError γ} (hy : y.run = g <$> WorkerCall.ask c)
    (hc : ¬ c.Dispensable t)
    (h : ∀ a, c.Succeeds a → ∃ b, g a = .ok b ∧ ∀ u, t <+: u → (f b).Copes u ends) :
    (y >>= f).Copes t ends := by
  have hcall : y.Copes t fun result =>
      ∃ b, result = .ok b ∧ ∀ u, t <+: u → (f b).Copes u ends :=
    copes_ask hy fun a ha => h a (ha.resolve_right hc)
  refine hcall.bind ?_ ?_
  · rintro e ⟨b, ⟨⟩, -⟩
  · rintro _ u hu ⟨_, ⟨⟩, hb⟩
    exact hb u hu

end Task

namespace Worker

open Slideshow.Task

variable [Scalar α] {t : List (WorkerExchange α)}

theorem copes_fixSize (w : Workplace) (o : SceneOptions α) (firstUrl : String)
    (ht : ∀ a, (⟨.audioCatalog, a⟩ : WorkerExchange α) ∉ t) :
    (fixSize w o firstUrl).Copes t fun result => ∃ frame, result = .ok (o.sized frame) := by
  rw [fixSize]
  unfold SceneOptions.sized
  split
  · have hneeded : ¬ (WorkerCall.fetch firstUrl w.directory : WorkerCall α).Dispensable t := by
      rintro ⟨a, ha⟩
      exact ht a ha
    refine copes_bind_ask (c := .fetch firstUrl w.directory) (g := id) rfl hneeded ?_
    rintro _ ⟨path, rfl⟩
    refine ⟨path, rfl, fun u _ => ?_⟩
    refine copes_bind_ask (c := .frameSize path) (g := id) rfl id ?_
    rintro _ ⟨frame, rfl⟩
    exact ⟨frame, rfl, fun u _ => copes_pure ⟨frame, rfl⟩⟩
  · exact copes_pure ⟨(1, 1), rfl⟩

/-- Whatever comes of the search for a track, there is a plan to go on with. -/
theorem copes_withTrack {slides : List Slide} {s : SceneSpec α} {plan : RenderPlan α}
    (w : Workplace) (target : α) (hplan : RenderPlan.slideshow slides s = .ok plan) :
    (withTrack w plan target).Copes t fun result => ∃ plan', result = .ok plan' := by
  rw [Copes, withTrack, Task.meets_bind]
  refine (Program.meets_bind (trackFor w target).run (pure ∘ Except.ok)).mpr ?_
  refine Program.meets_of_forall _ (fun _ _ _ => trivial) fun u track _ => ?_
  rcases track with e | ⟨⟩ | ⟨track, native⟩
  · exact fun _ => ⟨plan, rfl⟩
  · exact fun _ => ⟨plan, rfl⟩
  · obtain ⟨_, _, fit, _, haudio, -⟩ := RenderPlan.withAudio_of_slideshow hplan track native
    change Copes _ u _
    simp only [haudio]
    exact copes_pure ⟨_, rfl⟩

/-- The slides of a request cannot be put together. -/
inductive Unshowable (w : Workplace) (o : SceneOptions α) : WorkerError → Prop
  | intro (paths : List String) {e : MediaError} (hpaths : paths ≠ [])
      (h : slideshowPlan paths o w.words = .error e) : Unshowable w o (.media e)

variable {urls : List String} {o : SceneOptions α}

/-- A plan for the slides is carried out, with a track or without. -/
theorem copes_carryOut {paths : List String} {plan : RenderPlan α} (w : Workplace)
    (hplan : slideshowPlan paths o w.words = .ok plan) :
    Copes (do
      let plan ← match o.audio, plan.duration with
        | true, some target => withTrack w plan target
        | _, _ => pure plan
      Task.render plan (w.path "video.mp4")
      return w.path "video.mp4") t fun result => ∀ e, result = .error e → Unshowable w o e := by
  have hrender : ∀ (plan : RenderPlan α) u, Copes (do
      Task.render plan (w.path "video.mp4")
      return w.path "video.mp4") u fun result => ∀ e, result = .error e → Unshowable w o e := by
    intro plan u
    refine copes_bind_ask (c := .render plan (w.path "video.mp4")) (g := id) rfl id ?_
    rintro _ rfl
    exact ⟨(), rfl, fun u _ => copes_pure (by simp)⟩
  split
  · refine (copes_withTrack w _ hplan).bind (by simp) ?_
    rintro plan' v _ -
    exact hrender plan' v
  · exact hrender plan t

theorem copes_renderSlides (w : Workplace) (hurls : urls ≠ []) :
    (renderSlides w urls o).Copes t fun result => ∀ e, result = .error e → Unshowable w o e := by
  refine copes_bind_ask (c := .fetchAll urls w.directory) (g := id) rfl id ?_
  rintro _ ⟨paths, rfl, hlength⟩
  refine ⟨paths, rfl, fun u _ => ?_⟩
  have hpaths : paths ≠ [] := by
    rintro rfl
    exact hurls (List.length_eq_zero_iff.mp hlength.symm)
  cases hplan : slideshowPlan paths o w.words with
  | error e =>
      rintro - _ ⟨⟩
      exact .intro paths hpaths hplan
  | ok plan => exact copes_carryOut w hplan

theorem copes_renderWhole (w : Workplace) (job : JobId) (hurls : urls ≠ []) :
    (renderWhole w job urls o).Copes t fun result => ∀ e, result = .error e → Unshowable w o e := by
  refine (copes_renderSlides w hurls).bind (by simp) fun output u _ _ => ?_
  refine copes_bind_ask (c := .upload job Blob.finalSegment output) (g := id) rfl id ?_
  rintro _ ⟨url, rfl⟩
  exact ⟨url, rfl, fun v _ => (copes_setStatus _ _ _).mono (by simp)⟩

omit [Scalar α] in
theorem copes_dispatchAll (batches : List (BatchJob α)) :
    (dispatchAll batches).Copes t fun result => result = .ok () := by
  induction batches generalizing t with
  | nil => exact copes_pure rfl
  | cons batch rest ih =>
      refine copes_bind_ask (c := .dispatch batch) (g := id) rfl id ?_
      rintro _ rfl
      exact ⟨(), rfl, fun _ _ => ih⟩

omit [Scalar α] in
theorem copes_split (limits : WorkerLimits) (job : JobId) :
    (split limits job urls o).Copes t fun result => result = .ok () := by
  refine copes_bind_ask (c := .store (.setBatchCount job _)) (g := id) rfl id ?_
  rintro _ ⟨_, rfl⟩
  exact ⟨(), rfl, fun _ _ => copes_dispatchAll _⟩

end Worker

namespace VideoRequest

open Worker Slideshow.Task

variable [Scalar α] {request : VideoRequest α} {limits : WorkerLimits} {w : Workplace}
  {t : List (WorkerExchange α)}

/-- Why a request fails although no call is to blame: there is no record, the request is not valid,
or its slides cannot be put together. -/
inductive Refused (request : VideoRequest α) (limits : WorkerLimits) (w : Workplace)
    (t : List (WorkerExchange α)) : WorkerError → Prop
  | unknown (h : ⟨.store (.load request.jobId), .ok none⟩ ∈ t) :
      Refused request limits w t (.jobNotFound request.jobId)
  | invalid {e : RequestError} (h : request.validate limits.maxSlides = .error e) :
      Refused request limits w t (.invalidRequest e)
  | unshowable {e : WorkerError} (frame : ℕ × ℕ)
      (h : Unshowable w (request.options.sized frame) e) : Refused request limits w t e

theorem Refused.mono {e : WorkerError} {u : List (WorkerExchange α)}
    (h : request.Refused limits w t e) (hu : t <+: u) : request.Refused limits w u e := by
  cases h with
  | unknown h => exact .unknown (hu.subset h)
  | invalid h => exact .invalid h
  | unshowable frame h => exact .unshowable frame h

/-- A valid request for some of its slides fails at most because these cannot be put together. -/
theorem copes_chosen (limits : WorkerLimits) (w : Workplace) (request : VideoRequest α)
    (ht : ∀ a, (⟨.audioCatalog, a⟩ : WorkerExchange α) ∉ t) :
    Copes (do
      match ← Task.filterValid request.urls with
      | [] => Task.setStatus request.jobId .processed none
      | first :: rest =>
        let options ← fixSize w request.options first
        if !options.batchMode || (first :: rest).length ≤ limits.batchSize then
          renderWhole w request.jobId (first :: rest) options
        else split limits request.jobId (first :: rest) options) t fun result =>
      ∀ e, result = .error e → ∃ frame, Unshowable w (request.options.sized frame) e := by
  rw [Copes, Task.meets_bind]
  refine ⟨trivial, fun valid => ?_⟩
  cases valid with
  | nil => exact (copes_setStatus _ _ _).mono (by simp)
  | cons first rest =>
      refine (copes_fixSize w request.options first fun a ha => ?_).bind (by simp) ?_
      · rcases List.mem_append.mp ha with ha | ha
        · exact ht a ha
        · cases List.mem_singleton.mp ha
      rintro _ u - ⟨frame, ⟨⟩⟩
      split
      · exact (copes_renderWhole w request.jobId (List.cons_ne_nil _ _)).mono
          fun result hfails e he => ⟨frame, hfails e he⟩
      · exact (copes_split limits request.jobId).mono (by simp)

theorem meets_createVideo_refused (limits : WorkerLimits) (w : Workplace)
    (request : VideoRequest α) :
    (createVideo limits w request).run.Meets (fun _ _ => True)
      (fun u result => SmoothButTrack u →
        ∀ e, result = .error e → request.Refused limits w u e) [] := by
  rw [createVideo, Task.meets_bind, meets_record]
  refine ⟨trivial, fun e ht => ?_, ?_, fun r => ?_⟩
  · obtain ⟨_, ⟨⟩⟩ := ht.last.resolve_right id
  · rintro - _ ⟨⟩
    exact .unknown List.mem_concat_self
  · dsimp only
    split
    · intro _ _ h
      cases h
    · split
      · rename_i e hinvalid
        rintro - _ ⟨⟩
        exact .invalid hinvalid
      · have hcopes := copes_chosen (t := [] ++ [loaded request.jobId r]) limits w request
          (by rintro a (_ | ⟨_, ⟨⟩⟩))
        refine Program.Meets.mono hcopes (fun _ _ _ h => h) fun u result _ hfails ht e he => ?_
        obtain ⟨frame, hframe⟩ := hfails ht e he
        exact .unshowable frame hframe

/-- No request fails for want of a track. -/
theorem refused_of_smoothButTrack {e : WorkerError}
    (hleads : (handle limits w (.createVideo request)).Leads t (.done (.error e)))
    (ht : SmoothButTrack t) : request.Refused limits w t e := by
  have hmeets : (handle limits w (.createVideo request)).Meets (fun _ _ => True)
      (fun u result => SmoothButTrack u →
        ∀ e, result = .error e → request.Refused limits w u e) [] := by
    rw [handle, perform, Program.meets_bind]
    refine (meets_createVideo_refused limits w request).mono (fun _ _ _ h => h) ?_
    intro u result _ hfails
    cases result with
    | ok _ =>
        intro _ _ h
        cases h
    | error e =>
        refine ⟨trivial, ?_⟩
        rintro a ht _ ⟨⟩
        exact (hfails (ht.of_prefix (List.prefix_append _ _)) e rfl).mono (List.prefix_append _ _)
  exact hmeets.ends_of_leads hleads ht e rfl

/-- A valid request whose record is there does not fail for want of a track. -/
theorem eq_ok_of_smoothButTrack {request : VideoRequest ℚ} {t : List (WorkerExchange ℚ)}
    {result : Except WorkerError Unit} (hvalid : request.validate limits.maxSlides = .ok ())
    (hleads : (handle limits w (.createVideo request)).Leads t (.done result))
    (hknown : ⟨.store (.load request.jobId), .ok none⟩ ∉ t) (ht : SmoothButTrack t) :
    result = .ok () := by
  cases result with
  | ok _ => rfl
  | error e =>
      cases refused_of_smoothButTrack hleads ht with
      | unknown h => exact (hknown h).elim
      | invalid h => cases hvalid.symm.trans h
      | unshowable frame h =>
          obtain ⟨paths, hpaths, h⟩ := h
          have htimed := SceneOptions.timed_of_validate (options_of_validate hvalid)
          obtain ⟨plan, hplan⟩ := exists_slideshowPlan (SceneOptions.timed_sized htimed frame)
            (Rat.mul_comm 2) hpaths w.words
          cases hplan.symm.trans h

end VideoRequest

/-! ## Joins -/

/-- A call on the way to a track: it measures a video, asks for the catalog, or fetches a file. -/
def WorkerCall.OnTrack : WorkerCall α → Prop
  | .duration _ | .audioCatalog | .fetch _ _ => True
  | _ => False

/-- The joined video was measured. -/
abbrev measured (w : Workplace) (length : α) : WorkerExchange α :=
  ⟨.duration (w.path "joined.mp4"), .ok length⟩

variable [Scalar α]

/-- Why there is no track to lay under the joined batches: the catalog cannot be read, there is
none, no track in it is chosen for a video of this length, or the track cannot be fetched. -/
inductive NoTrack (w : Workplace) (t : List (WorkerExchange α)) : WorkerError → Prop
  | unread {e : WorkerError} (h : ⟨.audioCatalog, .error e⟩ ∈ t) : NoTrack w t e
  | absent {length : α} (hlength : measured w length ∈ t) (h : ⟨.audioCatalog, .ok none⟩ ∈ t) :
      NoTrack w t (.noAudio (Scalar.inputText length))
  | unfit {length : α} {catalog : AudioCatalog α} (hlength : measured w length ∈ t)
      (h : ⟨.audioCatalog, .ok (some catalog)⟩ ∈ t)
      (hselect : catalog.select length w.choose = none) :
      NoTrack w t (.noAudio (Scalar.inputText length))
  | unfetched {url : String} {e : WorkerError} (h : ⟨.fetch url w.directory, .error e⟩ ∈ t) :
      NoTrack w t e

namespace NoTrack

variable {w : Workplace} {t s : List (WorkerExchange α)} {e : WorkerError}

theorem of_told (h : NoTrack w t e) (ht : ∀ x ∈ t, x.call.OnTrack → x ∈ s) : NoTrack w s e := by
  cases h with
  | unread h => exact .unread (ht _ h trivial)
  | absent hlength h => exact .absent (ht _ hlength trivial) (ht _ h trivial)
  | unfit hlength h hselect => exact .unfit (ht _ hlength trivial) (ht _ h trivial) hselect
  | unfetched h => exact .unfetched (ht _ h trivial)

theorem not_of_quiet (ht : ∀ x ∈ t, ¬ x.call.OnTrack) : ¬ NoTrack w t e := by
  intro h
  cases h with
  | unread h | absent _ h | unfit _ h _ | unfetched h => exact ht _ h trivial

theorem not_of_measured {p : String} {a : Except WorkerError α} :
    ¬ NoTrack w [⟨.duration p, a⟩] e := by
  rintro (⟨_ | ⟨_, ⟨⟩⟩⟩ | ⟨-, _ | ⟨_, ⟨⟩⟩⟩ | ⟨-, _ | ⟨_, ⟨⟩⟩, -⟩ | ⟨_ | ⟨_, ⟨⟩⟩⟩)

/-- What the answer about the catalog tells. -/
def Denies (w : Workplace) (length : α) (a : Except WorkerError (Option (AudioCatalog α)))
    (e : WorkerError) : Prop :=
  match a with
  | .error e' => e = e'
  | .ok none => e = .noAudio (Scalar.inputText length)
  | .ok (some catalog) =>
    catalog.select length w.choose = none ∧ e = .noAudio (Scalar.inputText length)

theorem denies {length : α} {a : Except WorkerError (Option (AudioCatalog α))}
    (h : NoTrack w [measured w length, ⟨.audioCatalog, a⟩] e) : Denies w length a e := by
  cases h with
  | unread h =>
      obtain _ | ⟨_, _ | ⟨_, ⟨⟩⟩⟩ := h
      rfl
  | absent hlength h =>
      obtain _ | ⟨_, _ | ⟨_, ⟨⟩⟩⟩ := h
      obtain _ | ⟨_, _ | ⟨_, ⟨⟩⟩⟩ := hlength
      rfl
  | unfit hlength h hselect =>
      obtain _ | ⟨_, _ | ⟨_, ⟨⟩⟩⟩ := h
      obtain _ | ⟨_, _ | ⟨_, ⟨⟩⟩⟩ := hlength
      exact ⟨hselect, rfl⟩
  | unfetched h =>
      obtain _ | ⟨_, _ | ⟨_, ⟨⟩⟩⟩ := h

theorem of_concat_fetched {url : String} {a : Except WorkerError String}
    (h : NoTrack w (t ++ [⟨.fetch url w.directory, a⟩]) e) : NoTrack w t e ∨ a = .error e := by
  have hbefore : ∀ {x : WorkerExchange α}, x ∈ t ++ [⟨.fetch url w.directory, a⟩] →
      x ∈ t ∨ x = ⟨.fetch url w.directory, a⟩ := fun hx => by simpa using hx
  cases h with
  | unread h => exact .inl (.unread ((hbefore h).resolve_right (by rintro ⟨⟩)))
  | absent hlength h =>
      exact .inl (.absent ((hbefore hlength).resolve_right (by rintro ⟨⟩))
        ((hbefore h).resolve_right (by rintro ⟨⟩)))
  | unfit hlength h hselect =>
      exact .inl (.unfit ((hbefore hlength).resolve_right (by rintro ⟨⟩))
        ((hbefore h).resolve_right (by rintro ⟨⟩)) hselect)
  | unfetched h =>
      rcases hbefore h with h | h
      · exact .inl (.unfetched h)
      · cases h
        exact .inr rfl

end NoTrack

namespace Worker

variable {w : Workplace} {t : List (WorkerExchange α)}

/-- A search for a track that brings none fails, or tells so. -/
theorem meets_trackFor {length : α} (ht : ∀ x ∈ t, x.call.OnTrack → x = measured w length) :
    (trackFor w length).run.Meets (fun _ _ => True) (fun u result => ∀ e, NoTrack w u e →
      result = .error e ∨ result = .ok none ∧ e = .noAudio (Scalar.inputText length)) t := by
  have htold : ∀ a, ∀ x ∈ t ++ [⟨.audioCatalog, a⟩], x.call.OnTrack →
      x ∈ [measured w length, ⟨.audioCatalog, a⟩] := by
    intro a x hx hcall
    rcases List.mem_append.mp hx with hx | hx
    · exact List.mem_cons.mpr (.inl (ht x hx hcall))
    · exact List.mem_cons_of_mem _ hx
  refine Task.meets_bind_ask (c := .audioCatalog) (g := id) rfl trivial ?_ ?_
  · rintro _ e rfl e' h
    have he : e' = e := (h.of_told (htold _)).denies
    exact .inl (congrArg _ he.symm)
  rintro _ (_ | catalog) rfl
  · exact fun e h => .inr ⟨rfl, (h.of_told (htold _)).denies⟩
  dsimp only
  cases hselect : catalog.select length w.choose with
  | none => exact fun e h => .inr ⟨rfl, (h.of_told (htold _)).denies.2⟩
  | some track =>
      -- the answer about the catalog is a track, so it is the fetching that fails
      have hfetch : ∀ a e, NoTrack w
          (t ++ [⟨.audioCatalog, .ok (some catalog)⟩] ++ [⟨.fetch track.url w.directory, a⟩]) e →
          a = .error e := by
        intro a e h
        refine h.of_concat_fetched.resolve_left fun h => ?_
        cases hselect.symm.trans (h.of_told (htold _)).denies.1
      refine Task.meets_bind_ask (c := .fetch track.url w.directory) (g := id) rfl trivial ?_ ?_
      · rintro _ e rfl e' h
        exact .inl (congrArg _ (Except.error.inj (hfetch _ e' h)))
      · rintro _ path rfl e h
        exact nomatch hfetch _ e h

/-- What is done before the joined video is measured does not matter. -/
theorem meets_bind_of_quiet {β γ : Type} {x : Task α γ} {f : γ → Task α β}
    (hx : x.Only fun c => ¬ c.OnTrack) (ht : ∀ y ∈ t, ¬ y.call.OnTrack)
    (hf : ∀ c u, (∀ y ∈ u, ¬ y.call.OnTrack) → (f c).run.Meets (fun _ _ => True)
      (fun u result => ∀ e, NoTrack w u e → result = .error e) u) :
    (x >>= f).run.Meets (fun _ _ => True)
      (fun u result => ∀ e, NoTrack w u e → result = .error e) t := by
  have hquiet : ∀ {u : List (WorkerExchange α)}, (∀ y ∈ u, y ∈ t ∨ ¬ y.call.OnTrack) →
      ∀ y ∈ u, ¬ y.call.OnTrack := fun hu y hy => (hu y hy).elim (ht y) id
  refine hx.meets_bind (fun _ _ _ => trivial) (fun u e hu e' h => ?_) fun c u _ hu =>
    hf c u (hquiet hu)
  exact (NoTrack.not_of_quiet (hquiet hu) h).elim

/-- No track is sought when one is laid under the joined video. -/
theorem only_layTrack (w : Workplace) (r : JobRecord) (track : String) (native length : α) :
    Task.Only (fun c : WorkerCall α => ¬ c.OnTrack) (do
      let (plan, _) ← Task.ofMedia
        (RenderPlan.remuxWithAudio (w.path "joined.mp4") track native length)
      Task.render plan (w.path "video.mp4")
      let url ← Task.upload r.id Blob.finalSegment (w.path "video.mp4")
      Task.setStatus r.id .processed (some url)) := by
  refine (Task.only_ofMedia _).bind fun plan => ?_
  refine (Task.only_ask (c := .render plan.1 _) (f := id) rfl id).bind fun _ => ?_
  refine (Task.only_ask (c := .upload r.id _ _) (f := id) rfl id).bind fun url => ?_
  exact Task.only_ask (c := .store _) (f := id) rfl id

/-- A join without a track fails. -/
theorem meets_join_noTrack (r : JobRecord) (ht : ∀ x ∈ t, ¬ x.call.OnTrack) :
    (join w r).run.Meets (fun _ _ => True)
      (fun u result => ∀ e, NoTrack w u e → result = .error e) t := by
  refine meets_bind_of_quiet (only_downloadParts (fun _ _ => id) w _) ht fun parts u hu => ?_
  refine meets_bind_of_quiet (Task.only_ofMedia _) hu fun plan u hu => ?_
  refine meets_bind_of_quiet
    (Task.only_ask (c := .render plan (w.path "joined.mp4")) (f := id) rfl id) hu fun _ u hu => ?_
  have htold : ∀ a, ∀ x ∈ u ++ [⟨.duration (w.path "joined.mp4"), a⟩], x.call.OnTrack →
      x = ⟨.duration (w.path "joined.mp4"), a⟩ := by
    intro a x hx hcall
    rcases List.mem_append.mp hx with hx | hx
    · exact (hu x hx hcall).elim
    · exact List.mem_singleton.mp hx
  refine Task.meets_bind_ask (c := .duration (w.path "joined.mp4")) (g := id) rfl trivial ?_ ?_
  · rintro _ e rfl e' h
    exact (NoTrack.not_of_measured (h.of_told fun x hx hcall =>
      List.mem_singleton.mpr (htold _ x hx hcall))).elim
  · rintro _ length rfl
    rw [Task.meets_bind]
    refine (meets_trackFor (htold _)).mono (fun _ _ _ h => h) fun v result _ hv => ?_
    rcases result with e | ⟨⟩ | ⟨track, native⟩
    · intro e' h
      cases (hv e' h).resolve_right (by simp)
      rfl
    · intro e' h
      obtain ⟨-, rfl⟩ := (hv e' h).resolve_left (by simp)
      rfl
    · -- a track was found, and from here on none is sought
      have hfound : ∀ e, ¬ NoTrack w v e := fun e h => by simpa using hv e h
      refine (only_layTrack w r track native length v).remember.mono (fun _ _ _ _ => trivial) ?_
      rintro v' result - ⟨-, hv'⟩ e h
      exact (hfound e (h.of_told fun x hx hcall =>
        (hv' x hx).resolve_right fun hno => hno hcall)).elim

omit [Scalar α] in
theorem only_record {P : WorkerCall α → Prop} (id : JobId) (h : P (.store (.load id))) :
    (record id).Only P := by
  refine Task.Only.bind (Task.only_ask (c := .store (.load id)) (f := fun a => a) rfl h) ?_
  rintro (_ | r)
  · exact Task.only_throw _
  · exact Task.only_pure r

omit [Scalar α] in
theorem only_takeOver {P : WorkerCall α → Prop} (id : JobId) (b : ℕ)
    (hload : P (.store (.load id))) (hclaim : P (.store (.claimJoin id b))) :
    (takeOver id b).Only P := by
  refine (only_record id hload).bind fun r => ?_
  split
  · exact Task.only_pure _
  · split
    · refine Task.Only.bind
        (Task.only_ask (c := .store (.claimJoin id b)) (f := fun a => a) rfl hclaim) ?_
      rintro (_ | _) <;> exact Task.only_pure _
    · exact Task.only_pure _

theorem only_renderPart (w : Workplace) (batch : BatchJob α) :
    (renderPart w batch).Only fun c => ¬ c.OnTrack := by
  refine Task.Only.bind (Task.only_ask (c := .fetchAll _ _) (f := id) rfl id) fun paths => ?_
  refine (Task.only_ofMedia _).bind fun plan => ?_
  refine Task.Only.bind (Task.only_ask (c := .render plan _) (f := id) rfl id) fun _ => ?_
  refine Task.Only.bind (Task.only_ask (c := .upload _ _ _) (f := id) rfl id) fun url => ?_
  exact Task.only_ask (c := .store _) (f := id) rfl id

theorem only_approach (w : Workplace) (batch : BatchJob α) :
    (approach w batch).Only fun c => ¬ c.OnTrack := by
  have htakeOver := only_takeOver (P := fun c => ¬ WorkerCall.OnTrack (α := α) c) batch.jobId
    batch.batch id id
  refine (only_record batch.jobId id).bind fun r => ?_
  split
  · exact Task.only_pure _
  · split
    · exact (only_renderPart w batch).bind fun _ => htakeOver
    · exact htakeOver

/-- The delivery of a batch that comes to a join without a track fails, and says why. -/
theorem eq_error_of_noTrack {limits : WorkerLimits} {batch : BatchJob α}
    {result : Except WorkerError Unit} {e : WorkerError}
    (hleads : (handle limits w (.renderBatch batch)).Leads t (.done result))
    (h : NoTrack w t e) : result = .error e := by
  have hmeets : (handle limits w (.renderBatch batch)).Meets (fun _ _ => True)
      (fun u result => ∀ e, NoTrack w u e → result = .error e) [] := by
    rw [handle, perform, renderBatch_eq, Program.meets_bind]
    have hrender : (approach w batch >>= joinIfAny w).run.Meets (fun _ _ => True)
        (fun u result => ∀ e, NoTrack w u e → result = .error e) [] := by
      refine meets_bind_of_quiet (only_approach w batch) (by simp) fun r u hu => ?_
      cases r with
      | none => exact fun e h => (NoTrack.not_of_quiet hu h).elim
      | some r => exact meets_join_noTrack r hu
    refine hrender.mono (fun _ _ _ h => h) fun u result _ hu => ?_
    cases result with
    | ok _ => exact hu
    | error e =>
        refine ⟨trivial, fun a e' h => hu e' (h.of_told fun x hx hcall => ?_)⟩
        rcases List.mem_append.mp hx with hx | hx
        · exact hx
        · cases List.mem_singleton.mp hx
          exact hcall.elim
  exact hmeets.ends_of_leads hleads e h

end Worker

end Slideshow
