import Slideshow.Proofs.Program.System
import Slideshow.Proofs.Worker.Handle
import Slideshow.Proofs.Worker.Track

/-! # What is kept when calls fail

Where every call takes effect or fails without a trace, no delivery gives a job an address that
nothing is stored under, and one that fails has not ended its job before it notes the failure. -/

namespace Slideshow

open WorkerExchange

variable {α : Type}

/-! ## Surroundings -/

/-- What the calls of workers change: the records of the jobs, and the addresses under which
something is stored. -/
structure Holdings where
  ledger : Ledger
  objects : List String

namespace WorkerCall

/-- The call takes effect and is answered well. -/
def Effect (c : WorkerCall α) (x : Holdings) (a : c.Answer) (y : Holdings) : Prop :=
  match c with
  | .store c => ∃ reply, a = Except.ok reply ∧
    Ledger.answer c x.ledger = (.ok reply, y.ledger) ∧ y.objects = x.objects
  | .upload _ _ _ => ∃ url, a = Except.ok url ∧ y = { x with objects := url :: x.objects }
  | c => c.Succeeds a ∧ y = x

/-- The call takes effect and is answered well, or fails and leaves everything as it was. -/
def AllOrNothing (c : WorkerCall α) (x : Holdings) (a : c.Answer) (y : Holdings) : Prop :=
  c.Effect x a y ∨ ¬ c.Succeeds a ∧ y = x

theorem AllOrNothing.subset {c : WorkerCall α} {x y : Holdings} {a : c.Answer}
    (h : c.AllOrNothing x a y) : x.objects ⊆ y.objects := by
  rcases h with h | ⟨-, rfl⟩
  · cases c with
    | store c =>
        obtain ⟨_, -, -, hobjects⟩ := h
        rw [hobjects]
        exact List.Subset.refl _
    | upload id segment path =>
        obtain ⟨url, -, rfl⟩ := h
        exact List.subset_cons_self _ _
    | _ =>
        obtain ⟨-, rfl⟩ := h
        exact List.Subset.refl _
  · exact List.Subset.refl _

/-- Only calls to the store change the records. -/
theorem AllOrNothing.ledger_cases {c : WorkerCall α} {x y : Holdings} {a : c.Answer}
    (h : c.AllOrNothing x a y) : y.ledger = x.ledger ∨
      ∃ (s : StoreCall) (reply : s.Reply), (⟨c, a⟩ : WorkerExchange α) = ⟨.store s, .ok reply⟩ ∧
        y.ledger = (Ledger.answer s x.ledger).2 := by
  rcases h with h | ⟨-, rfl⟩
  · cases c with
    | store c =>
        obtain ⟨reply, rfl, hanswer, -⟩ := h
        exact .inr ⟨c, reply, rfl, (congrArg Prod.snd hanswer).symm⟩
    | upload id segment path =>
        obtain ⟨url, -, rfl⟩ := h
        exact .inl rfl
    | _ =>
        obtain ⟨-, rfl⟩ := h
        exact .inl rfl
  · exact .inl rfl

theorem exists_allOrNothing {c : StoreCall} {x : Holdings} {r : JobRecord}
    (h : x.ledger.get? c.jobId = some r) :
    ∃ ledger, (store c : WorkerCall α).AllOrNothing x (Except.ok (c.reply r)) ⟨ledger, x.objects⟩ ∧
      ledger.get? c.jobId = some (c.change r) := by
  obtain ⟨ledger, hanswer, hr, -⟩ := Ledger.answer_of_get? h
  exact ⟨ledger, .inl ⟨_, rfl, hanswer, rfl⟩, hr⟩

theorem AllOrNothing.mem_of_uploaded {id : JobId} {segment path url : String} {x y : Holdings}
    (h : (upload id segment path : WorkerCall α).AllOrNothing x (Except.ok url) y) :
    url ∈ y.objects := by
  rcases h with ⟨_, ⟨⟩, rfl⟩ | ⟨hfails, -⟩
  · exact List.mem_cons_self
  · exact (hfails ⟨url, rfl⟩).elim

end WorkerCall

/-! ## What a delivery calls -/

/-- The call ends a job. -/
def StoreCall.Ends : StoreCall → Prop
  | setStatus _ _ _ | markFailed _ _ => True
  | _ => False

theorem StoreCall.video_change_of_not_ends {c : StoreCall} (h : ¬ c.Ends) (r : JobRecord) :
    (c.change r).video = r.video := by
  cases c with
  | setStatus id status video | markFailed id reason => exact (h trivial).elim
  | claimJoin id batch =>
      rw [change]
      split <;> rfl
  | load id | setBatchCount id count | appendOutput id output => rfl

/-- No call that ends a job has taken effect. -/
def Unended (t : List (WorkerExchange α)) : Prop :=
  ∀ c : StoreCall, c.Ends → ∀ reply, ⟨.store c, .ok reply⟩ ∉ t

/-- Something was stored under the address. -/
def Stored (t : List (WorkerExchange α)) (url : String) : Prop :=
  ∃ id segment path, uploaded id segment path url ∈ t

namespace WorkerCall

/-- Addresses that go into a record are those of what was stored before. -/
def NamesStored (t : List (WorkerExchange α)) : WorkerCall α → Prop
  | .store (.appendOutput _ output) => Stored t output.output
  | .store (.setStatus _ _ (some url)) => Stored t url
  | _ => True

/-- The call neither puts an address into a record nor ends a job. -/
def Interim : WorkerCall α → Prop
  | .store (.appendOutput _ _) | .store (.setStatus _ _ _) | .store (.markFailed _ _) => False
  | _ => True

theorem interim_of_aside (c : WorkerCall α) (h : c.Aside) : c.Interim := by
  cases c with
  | store c => exact h.elim
  | _ => trivial

theorem Interim.namesStored {c : WorkerCall α} (h : c.Interim) (t : List (WorkerExchange α)) :
    c.NamesStored t := by
  cases c with
  | store c =>
      cases c with
      | appendOutput id output | setStatus id status video => exact h.elim
      | _ => trivial
  | _ => trivial

theorem Interim.not_ends {c : StoreCall} (h : (store c : WorkerCall α).Interim) : ¬ c.Ends := by
  cases c with
  | setStatus id status video | markFailed id reason => exact h.elim
  | _ => exact id

end WorkerCall

theorem Unended.concat {t : List (WorkerExchange α)} {e : WorkerExchange α} (h : Unended t)
    (he : ∀ (c : StoreCall) (reply : c.Reply), e = ⟨.store c, .ok reply⟩ → ¬ c.Ends) :
    Unended (t ++ [e]) := by
  intro c hc reply hmem
  rcases List.mem_append.mp hmem with hmem | hmem
  · exact h c hc reply hmem
  · exact he c reply (List.mem_singleton.mp hmem).symm hc

namespace Task

variable {β γ : Type}

/-- A task that does not end its job. -/
def Tentative (x : Task α β) : Prop :=
  ∀ t, Unended t → x.run.Meets (fun u c => c.NamesStored u) (fun u _ => Unended u) t

/-- A task that has not ended its job if it fails. -/
def Careful (x : Task α β) : Prop :=
  ∀ t, Unended t → x.run.Meets (fun u c => c.NamesStored u)
    (fun u result => ∀ e, result = .error e → Unended u) t

theorem Tentative.careful {x : Task α β} (hx : x.Tentative) : x.Careful :=
  fun t ht => (hx t ht).mono (fun _ _ _ h => h) fun _ _ _ h _ _ => h

theorem tentative_of_only {x : Task α β} (hx : x.Only fun c => c.Interim) : x.Tentative := by
  intro t ht
  refine (hx t).remember.mono (fun u c _ h => h.namesStored u) ?_
  rintro u result - ⟨-, htold⟩ c hc reply hmem
  rcases htold _ hmem with hmem | hinterim
  · exact ht c hc reply hmem
  · exact hinterim.not_ends hc

theorem Apart.tentative {x : Task α β} (hx : x.Apart) : x.Tentative :=
  tentative_of_only (hx.only WorkerCall.interim_of_aside)

theorem Tentative.meets_bind {x : Task α γ} {f : γ → Task α β} {t : List (WorkerExchange α)}
    {ends : List (WorkerExchange α) → Except WorkerError β → Prop} (hx : x.Tentative)
    (ht : Unended t) (herror : ∀ u e, Unended u → ends u (.error e))
    (hf : ∀ c u, Unended u → (f c).run.Meets (fun u c => c.NamesStored u) ends u) :
    (x >>= f).run.Meets (fun u c => c.NamesStored u) ends t := by
  rw [Task.meets_bind]
  refine (hx t ht).mono (fun _ _ _ h => h) fun u result _ hu => ?_
  cases result with
  | error e => exact herror u e hu
  | ok c => exact hf c u hu

theorem Tentative.bind {x : Task α γ} {f : γ → Task α β} (hx : x.Tentative)
    (hf : ∀ c, (f c).Tentative) : (x >>= f).Tentative :=
  fun _ ht => hx.meets_bind ht (fun _ _ h => h) hf

theorem Tentative.bind_careful {x : Task α γ} {f : γ → Task α β} (hx : x.Tentative)
    (hf : ∀ c, (f c).Careful) : (x >>= f).Careful :=
  fun _ ht => hx.meets_bind ht (fun _ _ h _ _ => h) hf

/-- What comes after an upload may name what was stored. -/
theorem meets_bind_upload {id : JobId} {segment path : String} {f : String → Task α β}
    {t : List (WorkerExchange α)}
    {ends : List (WorkerExchange α) → Except WorkerError β → Prop} (ht : Unended t)
    (herror : ∀ u e, Unended u → ends u (.error e))
    (hf : ∀ url u, Unended u → Stored u url →
      (f url).run.Meets (fun u c => c.NamesStored u) ends u) :
    (upload id segment path >>= f).run.Meets (fun u c => c.NamesStored u) ends t := by
  have hunended : ∀ a : Except WorkerError String,
      Unended (t ++ [⟨.upload id segment path, a⟩]) := fun a => ht.concat (by rintro c reply ⟨⟩)
  refine meets_bind_ask (c := .upload id segment path) (g := fun a => a) rfl trivial ?_ ?_
  · exact fun a e _ => herror _ e (hunended a)
  · rintro _ url rfl
    exact hf url _ (hunended _) ⟨id, segment, path, List.mem_concat_self⟩

theorem careful_setStatus {id : JobId} {status : JobStatus} {video : Option String}
    {t : List (WorkerExchange α)} (ht : Unended t)
    (hvideo : ∀ url, video = some url → Stored t url) :
    (setStatus id status video : Task α Unit).run.Meets (fun u c => c.NamesStored u)
      (fun u result => ∀ e, result = .error e → Unended u) t := by
  refine ⟨?_, ?_⟩
  · cases video with
    | none => trivial
    | some url => exact hvideo url rfl
  · rintro _ e rfl
    refine ht.concat ?_
    rintro c reply ⟨⟩

/-- What was stored becomes the video of a job. -/
theorem careful_publish (id : JobId) (segment path : String) (status : JobStatus) :
    Careful (do
      let url ← upload id segment path
      setStatus id status (some url) : Task α Unit) := by
  refine fun t ht => meets_bind_upload ht (fun _ _ h _ _ => h) fun url u hu hstored => ?_
  refine careful_setStatus hu ?_
  rintro _ ⟨⟩
  exact hstored

/-- What was stored becomes an output of a job. -/
theorem tentative_report (id : JobId) (segment path : String) (batch : ℕ) :
    Tentative (do
      let url ← upload id segment path
      appendOutput id ⟨batch, url⟩ : Task α Unit) := by
  refine fun t ht => meets_bind_upload ht (fun _ _ h => h) fun url u hu hstored => ?_
  refine ⟨hstored, fun a => hu.concat ?_⟩
  rintro _ _ ⟨⟩
  exact fun h => h

end Task

namespace Worker

open Slideshow.Task

variable [Scalar α]

theorem tentative_renderPart (w : Workplace) (batch : BatchJob α) :
    (renderPart w batch).Tentative := by
  refine (apart_fetchAll _ _).tentative.bind fun paths => ?_
  refine (apart_ofMedia _).tentative.bind fun plan => ?_
  refine (apart_render _ _).tentative.bind fun _ => ?_
  exact tentative_report _ _ _ _

theorem tentative_approach (w : Workplace) (batch : BatchJob α) :
    (approach w batch).Tentative := by
  have htakeOver : (takeOver batch.jobId batch.batch : Task α _).Tentative :=
    tentative_of_only (only_takeOver _ _ trivial trivial)
  refine (tentative_of_only (only_record batch.jobId trivial)).bind fun r => ?_
  split
  · exact tentative_of_only (only_pure _)
  · split
    · exact (tentative_renderPart w batch).bind fun _ => htakeOver
    · exact htakeOver

theorem careful_join (w : Workplace) (r : JobRecord) : (join (α := α) w r).Careful := by
  refine (tentative_of_only (only_downloadParts (fun _ _ => trivial) w _)).bind_careful
    fun parts => ?_
  refine (apart_ofMedia _).tentative.bind_careful fun plan => ?_
  refine (apart_render _ _).tentative.bind_careful fun _ => ?_
  refine (apart_duration _).tentative.bind_careful fun length => ?_
  refine (apart_trackFor w _).tentative.bind_careful fun track => ?_
  cases track with
  | none => exact (tentative_of_only (only_throw _)).careful
  | some track =>
      refine (apart_ofMedia _).tentative.bind_careful fun plan => ?_
      refine (apart_render _ _).tentative.bind_careful fun _ => ?_
      exact careful_publish _ _ _ _

theorem careful_renderWhole (w : Workplace) (job : JobId) (urls : List String)
    (o : SceneOptions α) : (renderWhole w job urls o).Careful := by
  refine (apart_renderSlides w urls o).tentative.bind_careful fun output => ?_
  exact careful_publish _ _ _ _

omit [Scalar α] in
theorem only_split (limits : WorkerLimits) (job : JobId) (urls : List String)
    (o : SceneOptions α) : (split limits job urls o).Only fun c => c.Interim := by
  refine Task.Only.bind (only_ask (c := .store (.setBatchCount job _)) (f := id) rfl trivial) ?_
  exact fun _ _ => meets_dispatchAll _ fun _ _ _ _ => trivial

theorem careful_createVideo (limits : WorkerLimits) (w : Workplace) (request : VideoRequest α) :
    (createVideo limits w request).Careful := by
  refine (tentative_of_only (only_record request.jobId trivial)).bind_careful fun r => ?_
  split
  · exact (tentative_of_only (only_pure _)).careful
  · dsimp only
    split
    · exact fun t ht => (tentative_of_only (only_throw _)).careful t ht
    · refine Tentative.bind_careful (tentative_of_only fun _ => ⟨trivial, fun _ => trivial⟩) ?_
      rintro (_ | ⟨first, rest⟩)
      · exact fun t ht => careful_setStatus ht (by simp)
      · refine (apart_fixSize w _ _).tentative.bind_careful fun options => ?_
        split
        · exact careful_renderWhole w _ _ _
        · exact (tentative_of_only (only_split limits _ _ _)).careful

theorem careful_perform (limits : WorkerLimits) (w : Workplace) (job : QueueJob α) :
    (perform limits w job).Careful := by
  cases job with
  | createVideo request => exact careful_createVideo limits w request
  | renderBatch batch =>
      rw [perform, renderBatch_eq]
      refine (tentative_approach w batch).bind_careful fun r => ?_
      cases r with
      | none => exact (tentative_of_only (only_pure _)).careful
      | some r => exact careful_join w r

/-- A delivery puts only stored addresses into records, and one that fails has ended nothing before
it notes the failure with its last call. -/
theorem meets_handle_careful (limits : WorkerLimits) (w : Workplace) (job : QueueJob α) :
    (handle limits w job).Meets (fun u c => c.NamesStored u)
      (fun u result => ∀ e, result = .error e → ∃ t a,
        u = t ++ [⟨.store (.markFailed job.jobId e.message), a⟩] ∧ Unended t) [] := by
  rw [handle, Program.meets_bind]
  refine (careful_perform limits w job [] (by simp [Unended])).mono (fun _ _ _ h => h) ?_
  intro t result _ ht
  cases result with
  | ok _ =>
      intro _ h
      cases h
  | error e =>
      refine ⟨trivial, fun a => ?_⟩
      rintro _ ⟨⟩
      exact ⟨t, a, rfl, ht e rfl⟩

end Worker

end Slideshow
