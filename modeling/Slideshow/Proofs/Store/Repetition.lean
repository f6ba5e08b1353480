import Slideshow.Proofs.Json.Reader
import Slideshow.Proofs.Store.Sending

/-! # Requests that are repeated

Every call of the record store that is made of one request repeats it only after an answer that may
have been bad luck, and ends with what the last answer says. A reply that reports success and cannot
be read counts as such an answer, so that a write that was made may be asked for again. -/

namespace Slideshow

namespace StoreClient

/-! ## Asking again for what was done -/

section Resends

variable {β γ : Type} {attempt : Asking (Except StoreError β)} {t u : List ClientExchange}

/-- Some run sends a request after a reply that reports success and cannot be read. -/
def Resends (p : Asking β) : Prop :=
  ∃ t sent reply r token next, p.Leads t (.call (.send r token) next) ∧ Sourced t ∧
    (sends t).getLast? = some (sent, .ok reply) ∧ sent.Garbled reply

theorem Resends.bind {p : Asking β} (h : Resends p) (f : β → Asking γ) : Resends (p >>= f) := by
  obtain ⟨t, sent, reply, r, token, next, hp, h⟩ := h
  exact ⟨t, sent, reply, r, token, _, hp.bind f, h⟩

theorem Resends.after {c : ClientCall} {f : c.Answer → Asking β} (a : c.Answer)
    (hidle : Idle ⟨c, a⟩) (h : Resends (f a)) : Resends (ask c >>= f) := by
  obtain ⟨t, sent, reply, r, token, next, hp, hsourced, hlast, hgarbled⟩ := h
  refine ⟨⟨c, a⟩ :: t, sent, reply, r, token, next, .answered hp, hsourced.cons_idle hidle, ?_,
    hgarbled⟩
  rwa [sends_cons_idle t hidle]

/-- Then not only transient failures are asked about again. -/
theorem Resends.not_meets {p : Asking β} (h : Resends p)
    {own : DocumentRequest → Prop} {ends : List ClientExchange → β → Prop} :
    ¬ p.Meets (Sends own fun _ a => Transient a) ends [] := by
  intro hmeets
  obtain ⟨t, sent, reply, r, token, next, hp, hsourced, hlast, hgarbled⟩ := h
  obtain ⟨u, rfl, hmay⟩ := (hmeets.issues_of_leads hp).2 hsourced
  have hstatus := DocumentRequest.success_of_mem hgarbled.1
  rw [sends_token] at hlast
  cases hmay with
  | first hnone =>
      rw [hnone] at hlast
      cases hlast
  | again hlast' htransient =>
      cases hlast.symm.trans hlast'
      cases htransient with
      | failing _ hfailing => omega
  | renewed hlast' hexpired =>
      rw [sends_idle (e := ⟨.invalidateToken, ()⟩) _ trivial, hlast', List.getLast?_concat] at hlast
      cases hlast
      obtain ⟨_, hreply, hunauthorized, -⟩ := hexpired
      cases hreply
      omega

/-! ### One try -/

/-- A run with a token and a reply. -/
theorem leads_request (r : DocumentRequest) (read : StoreReply → Except StoreError β)
    (token : String) (reply : StoreReply) (h : reply.status ≠ 401) :
    (request r read).Leads
      [⟨.token, .ok token⟩, ⟨.send r token, .ok reply⟩,
        ⟨.count (requests r.operation (countedStatus (read reply))), ()⟩] (.done (read reply)) := by
  have hsend : (send r).Leads [⟨.token, .ok token⟩, ⟨.send r token, .ok reply⟩]
      (.done (.ok reply)) := by
    refine .answered (.answered ?_)
    change Program.Leads (if reply.status ≠ 401 then _ else _) _ _
    rw [if_pos h]
    exact .start _
  exact (hsend.bind _).append (.answered (.start _))

/-! ### All tries -/

theorem leads_delay (attempt : Asking (Except StoreError β)) (p : RetryPolicy) (k : ℕ)
    (e : StoreError) : ∃ v ms, (∀ x ∈ v, Idle x) ∧
      ((Retry.delay (β := β) p k e).expand (answerRetry attempt)).Leads v (.done ms) := by
  rw [Retry.delay]
  cases e.retryAfterMs? with
  | some after => exact ⟨[], _, List.forall_mem_nil _, .start _⟩
  | none =>
      rw [Program.expand_bind]
      by_cases hlimit : p.backoff k = 0
      · rw [Retry.jitter_eq_done hlimit]
        exact ⟨[], _, List.forall_mem_nil _, .start _⟩
      · rw [Retry.jitter_eq_ask hlimit]
        refine ⟨[⟨.jitter (p.backoff k), (0 : ℕ)⟩], _, ?_, .answered (.start _)⟩
        exact List.forall_mem_singleton.mpr trivial

/-- After a try that failed for a moment comes the next one. -/
theorem leads_attempts_succ (p : RetryPolicy) (operation : String) (k left : ℕ) {e : StoreError}
    (h : attempt.Leads t (.done (.error e))) (he : e.isRetryable = true) :
    ∃ v, (∀ x ∈ v, Idle x) ∧
      ((Retry.attempts p operation k (left + 1)).expand (answerRetry attempt)).Leads (t ++ v)
        ((Retry.attempts p operation (k + 1) left).expand (answerRetry attempt)) := by
  obtain ⟨v, ms, hv, hdelay⟩ := leads_delay attempt p k e
  have hpause : ∀ x ∈ ([⟨.count (Retry.retries operation), ()⟩, ⟨.wait ms, ()⟩] :
      List ClientExchange), Idle x := by simp [Idle]
  refine ⟨v ++ [⟨.count (Retry.retries operation), ()⟩, ⟨.wait ms, ()⟩],
    List.forall_mem_append.mpr ⟨hv, hpause⟩, ?_⟩
  rw [Retry.attempts, Program.expand_bind, expand_attempt]
  refine (h.bind _).append ?_
  rw [Program.done_bind]
  simp only [he, if_true]
  rw [Program.expand_bind]
  exact (hdelay.bind _).append (.answered (.answered (.start _)))

theorem leads_attempts_call (p : RetryPolicy) (operation : String) (k left : ℕ)
    {c : ClientCall} {next : c.Answer → Asking (Except StoreError β)}
    (h : attempt.Leads t (.call c next)) : ∃ next',
    ((Retry.attempts p operation k left).expand (answerRetry attempt)).Leads t (.call c next') := by
  cases left with
  | zero =>
      rw [Retry.attempts, expand_attempt]
      exact ⟨_, h⟩
  | succ left =>
      rw [Retry.attempts, Program.expand_bind, expand_attempt]
      exact ⟨_, h.bind _⟩

theorem leads_attempts_final (p : RetryPolicy) (operation : String) (k left : ℕ)
    {result : Except StoreError β} (h : attempt.Leads t (.done result))
    (hfinal : ∀ e, result = .error e → e.isRetryable = false) :
    ((Retry.attempts p operation k left).expand (answerRetry attempt)).Leads t (.done result) := by
  cases left with
  | zero => rwa [Retry.attempts, expand_attempt]
  | succ left =>
      rw [Retry.attempts, Program.expand_bind, expand_attempt]
      rw [← List.append_nil t]
      refine (h.bind _).append ?_
      cases result with
      | ok b => exact .start _
      | error e =>
          rw [Program.done_bind]
          simp only [hfinal e rfl]
          exact .start _

/-! ### Replies that cannot be read -/

/-- A text that is no value from its first character on. -/
theorem read_text_junk : Json.read "junk" = (.broken .malformed false, false) := by
  have hvalue : Json.Reader.value "junk".toList = (.broken .malformed false, none) :=
    (Json.Reader.value_cons (by decide) "unk".toList).trans rfl
  rw [Json.read, hvalue]

/-- So it is no document and no answer to a commit. -/
theorem read_junk (base : String) (r : DocumentRequest) :
    r.read base ⟨200, .text "junk"⟩ = .error (.network Http.Fault.unreadableBody.message) := by
  have hunread : ∀ {α : Type} {decoder : Json.Decoder α},
      (decoder.ofText "junk").toOption = none → (ReplyBody.text "junk").read decoder =
        .error (.network Http.Fault.unreadableBody.message) := by
    intro α decoder h
    rw [ReplyBody.read, h]
  have hdocument : (Document.decoder.ofText "junk").toOption = none := by
    rw [Json.Decoder.ofText, read_text_junk]
    rfl
  have hcommit : (CommitReply.decoder.ofText "junk").toOption = none := by
    rw [Json.Decoder.ofText, read_text_junk]
    rfl
  cases r with
  | get collection id => exact congrArg (Except.map some) (hunread hdocument)
  | create collection id fields => exact hunread hdocument
  | patch collection id fields mask precondition => exact hunread hdocument
  | commit writes => exact hunread hcommit

theorem garbled_junk (r : DocumentRequest) : r.Garbled ⟨200, .text "junk"⟩ := by
  have hread := read_junk "" r
  cases r with
  | get collection id =>
      refine ⟨List.mem_singleton_self _, fun d hd => ?_⟩
      have hfound := congrArg (Except.map some) hd
      cases hread.symm.trans hfound
  | create collection id fields =>
      exact ⟨List.mem_cons_self, fun d hd => by cases hread.symm.trans hd⟩
  | patch collection id fields mask precondition =>
      exact ⟨List.mem_singleton_self _, fun d hd => by cases hread.symm.trans hd⟩
  | commit writes => exact ⟨List.mem_singleton_self _, fun d hd => by cases hread.symm.trans hd⟩

/-- A try that may get to send, and may fail on a reply that reports success and cannot be read. -/
structure Fumbles (attempt : Asking (Except StoreError β)) : Prop where
  begun : ∃ t r token next, attempt.Leads t (.call (.send r token) next) ∧ Sourced t ∧ sends t = []
  failed : ∃ t e sent reply, attempt.Leads t (.done (.error e)) ∧ e.isRetryable = true ∧
    Sourced t ∧ (sends t).getLast? = some (sent, .ok reply) ∧ sent.Garbled reply

theorem fumbles_request (base : String) (r : DocumentRequest) :
    Fumbles (request r (r.read base)) where
  begun := ⟨[⟨.token, .ok ""⟩], r, "", _, .answered (.start _), sourced_token "", rfl⟩
  failed := by
    have hrun := leads_request r (r.read base) "" ⟨200, .text "junk"⟩ (by decide)
    rw [read_junk] at hrun
    refine ⟨_, _, r, _, hrun, rfl, ?_, rfl, garbled_junk r⟩
    refine (sourced_token "").append ((sourced_send r "" _).append (sourced_of_idle ?_))
    exact List.forall_mem_singleton.mpr trivial

theorem Fumbles.after {c : ClientCall} {f : c.Answer → Asking (Except StoreError β)} (a : c.Answer)
    (hidle : Idle ⟨c, a⟩) (h : Fumbles (f a)) : Fumbles (ask c >>= f) where
  begun := by
    obtain ⟨t, r, token, next, hbegun, hsourced, hnone⟩ := h.begun
    refine ⟨⟨c, a⟩ :: t, r, token, next, .answered hbegun, hsourced.cons_idle hidle, ?_⟩
    rw [sends_cons_idle t hidle, hnone]
  failed := by
    obtain ⟨t, e, sent, reply, hfailed, hretry, hsourced, hlast, hgarbled⟩ := h.failed
    refine ⟨⟨c, a⟩ :: t, e, sent, reply, .answered hfailed, hretry, hsourced.cons_idle hidle, ?_,
      hgarbled⟩
    rwa [sends_cons_idle t hidle]

/-- If there is a try left, then it is made. -/
theorem Fumbles.resends (h : Fumbles attempt) {p : RetryPolicy} (hp : p.maxRetries ≠ 0)
    (operation : String) : Resends (retrying p operation attempt) := by
  obtain ⟨left, hleft⟩ := Nat.exists_eq_succ_of_ne_zero hp
  obtain ⟨t, e, sent, reply, hfailed, hretry, hsourced, hlast, hgarbled⟩ := h.failed
  obtain ⟨u, r, token, next, hbegun, hsourced', hnone⟩ := h.begun
  obtain ⟨v, hv, hpause⟩ := leads_attempts_succ p operation 0 left hfailed hretry
  obtain ⟨next', hagain⟩ := leads_attempts_call p operation 1 left hbegun
  rw [retrying, Retry.run, hleft]
  refine ⟨t ++ v ++ u, sent, reply, r, token, next', hpause.append hagain, ?_, ?_, hgarbled⟩
  · exact (hsourced.append (sourced_of_idle hv)).append hsourced'
  · rwa [sends_append, sends_append, sends_of_idle hv, hnone, List.append_nil, List.append_nil]

end Resends

end StoreClient

/-- A call of the record store that is made of one request. -/
inductive RecordCall where
  | create (r : JobRecord)
  | load (id : JobId)
  | setBatchCount (id : JobId) (count : ℕ)
  | setStatus (id : JobId) (status : JobStatus) (video : Option String)
  | appendOutput (id : JobId) (output : BatchOutput)
  | markFailed (id : JobId) (reason : String)

namespace RecordCall

open StoreClient

/-- What a call gives. -/
def Result : RecordCall → Type
  | load _ => Option StoredRecord
  | _ => Unit

/-- Makes a call. -/
def perform (s : RecordStore) : (c : RecordCall) → Asking (Except StoreError c.Result)
  | create r => s.create r
  | load id => s.load id
  | setBatchCount id count => s.setBatchCount id count
  | setStatus id status video => s.setStatus id status video
  | appendOutput id output => s.appendOutput id output
  | markFailed id reason => s.markFailed id reason

/-- Writes fields of a record at a time. -/
def patchAt (s : RecordStore) (id : JobId) (fields : List (String × StoreValue))
    (mask : List String) (precondition : Option Precondition) (now : Timestamp) : DocumentRequest :=
  .patch s.config.jobs id (fields ++ [("updated_at", .ofTimestamp now)]) (mask ++ ["updated_at"])
    precondition

/-- The request that a call makes at a time. -/
def request (s : RecordStore) (now : Timestamp) : RecordCall → DocumentRequest
  | create r => .create s.config.jobs r.id r.toFields
  | load id => .get s.config.jobs id
  | setBatchCount id count =>
    patchAt s id [("batches", .map (some [("count", .ofNat count)]))] ["batches.count"]
      (some .exists?) now
  | setStatus id status video =>
    patchAt s id (("status", .string status.text) ::
      (video.map fun url => ("video", StoreValue.string url)).toList) ["status", "video"] none now
  | appendOutput id output => .commit [s.outputWrite id output now]
  | markFailed id reason =>
    patchAt s id [("status", .string JobStatus.failed.text), ("error", .string reason)]
      ["status", "error"] none now

/-- The requests that a call makes. -/
def Makes (s : RecordStore) (c : RecordCall) (r : DocumentRequest) : Prop :=
  ∃ now, r = c.request s now

/-- What a call makes of what the answer holds. -/
def finish (s : RecordStore) (now : Timestamp) :
    (c : RecordCall) → (c.request s now).Content → Except StoreError c.Result
  | load _, none => .ok none
  | load id, some d => (JobRecord.ofDocument id now d).map fun record => some ⟨record, d.updateTime⟩
  | create _, _ | setBatchCount _ _, _ | setStatus _ _ _, _ | appendOutput _ _, _
  | markFailed _ _, _ => .ok ()

/-- The result of a call is what the answer to its request says. -/
def Follows (s : RecordStore) (c : RecordCall) (r : DocumentRequest) (a : RequestAnswer)
    (result : Except StoreError c.Result) : Prop :=
  ∃ now raw, Settles (c.request s now) ((c.request s now).read s.base) r a raw ∧
    result = raw >>= c.finish s now

/-- How a call ends: after at most two requests for each try, with what the last answer says. -/
structure Ended (s : RecordStore) (c : RecordCall) (t : List ClientExchange)
    (result : Except StoreError c.Result) : Prop where
  bounded : (sends t).length ≤ 2 * (s.config.retry.maxRetries + 1)
  concluded : Sourced t → Concluded (c.Follows s) t result

section Meets

variable {s : RecordStore} {c : RecordCall} {again : DocumentRequest → RequestAnswer → Prop}
  {t : List ClientExchange}

/-- What is known of a call after its tries. -/
abbrev Answered (s : RecordStore) (c : RecordCall) (now : Timestamp) (t : List ClientExchange)
    (raw : Except StoreError (c.request s now).Content) : Prop :=
  (sends t).length ≤ 2 * (s.config.retry.maxRetries + 1) ∧
    (Sourced t → Concluded (Settles (c.request s now) ((c.request s now).read s.base)) t raw)

theorem Answered.ended {now : Timestamp} {raw : Except StoreError (c.request s now).Content}
    (h : Answered s c now t raw) : Ended s c t (raw >>= c.finish s now) :=
  ⟨h.1, fun hsourced => (h.2 hsourced).map (f := fun raw => raw >>= c.finish s now) (fun _ => rfl)
    fun _ _ hr => ⟨now, raw, hr, rfl⟩⟩

theorem meets_once (hagain : s.config.retry.maxRetries = 0 ∨ ∀ r a, Recoverable r a → again r a)
    (operation : String) (now : Timestamp) (ht : sends t = []) :
    (s.retrying operation (StoreClient.request (c.request s now)
      ((c.request s now).read s.base))).Meets (Sends (c.Makes s) again) (Answered s c now) t :=
  meets_retrying (fun _ => meets_request s.base ⟨now, rfl⟩) hagain ht

theorem Answered.idle {now : Timestamp} {raw : Except StoreError (c.request s now).Content}
    (h : Answered s c now t raw) {e : ClientExchange} (he : Idle e) :
    Answered s c now (t ++ [e]) raw :=
  ⟨(congrArg List.length (sends_idle t he)).trans_le h.1,
    fun hsourced => (h.2 hsourced.of_append).idle he⟩

/-- A call that takes the time, makes its request, and reports only whether that was done. -/
theorem meets_patch (hagain : s.config.retry.maxRetries = 0 ∨ ∀ r a, Recoverable r a → again r a)
    (operation : String) (id : JobId) (fields : List (String × StoreValue)) (mask : List String)
    (precondition : Option Precondition)
    (hmakes : ∀ now, c.Makes s (patchAt s id fields mask precondition now))
    {ends : List ClientExchange → Except StoreError Unit → Prop}
    (hends : ∀ now t raw, (sends t).length ≤ 2 * (s.config.retry.maxRetries + 1) ∧
      (Sourced t → Concluded (Settles (patchAt s id fields mask precondition now)
        ((patchAt s id fields mask precondition now).read s.base)) t raw) →
      ends t (raw.map fun _ => ())) :
    ((s.patch operation id fields mask precondition) >>= fun raw =>
      pure (raw.map fun _ => ())).Meets (Sends (c.Makes s) again) ends [] := by
  refine (Program.meets_bind _ _).mpr ((Program.meets_bind _ _).mpr ⟨trivial, fun now => ?_⟩)
  have hnow : sends ([] ++ [⟨.now, now⟩]) = [] := sends_idle (e := ⟨.now, now⟩) [] trivial
  exact (meets_retrying (fun _ => meets_request s.base (hmakes now)) hagain hnow).mono
    (fun _ _ _ h => h) fun t raw _ h => hends now t raw h

/-- A try to append takes the time itself, so that every try has a request of its own. -/
theorem meets_append {id : JobId} {output : BatchOutput} (ht : Ready again t) :
    (StoreClient.now >>= fun now => commit s.base [s.outputWrite id output now]).Meets
      (Sends ((appendOutput id output).Makes s) again)
      (Tried (fun r a raw => ∃ now, Settles ((appendOutput id output).request s now)
        (((appendOutput id output).request s now).read s.base) r a raw) (sends t).length) t := by
  refine (Program.meets_bind _ _).mpr ⟨trivial, fun now => ?_⟩
  have hmakes : (appendOutput id output).Makes s ((appendOutput id output).request s now) :=
    ⟨now, rfl⟩
  have hcommit := meets_request s.base hmakes (ht.idle (e := ⟨.now, now⟩) trivial)
  rw [sends_idle (e := ⟨.now, now⟩) t trivial] at hcommit
  exact hcommit.mono (fun _ _ _ h => h) fun _ _ _ h => h.weaken fun _ _ hr => ⟨now, hr⟩

theorem meets_perform (hagain : s.config.retry.maxRetries = 0 ∨ ∀ r a, Recoverable r a → again r a)
    (c : RecordCall) : (c.perform s).Meets (Sends (c.Makes s) again) (Ended s c) [] := by
  cases c with
  | create r =>
      refine (Program.meets_bind _ _).mpr ((meets_once (c := .create r) hagain _ ⟨0, 0⟩ rfl).mono
        (fun _ _ _ h => h) fun t raw _ h => ?_)
      cases raw <;> exact Answered.ended h
  | load id =>
      refine (Program.meets_bind _ _).mpr ((meets_once (c := .load id) hagain _ ⟨0, 0⟩ rfl).mono
        (fun _ _ _ h => h) fun t raw _ h => ?_)
      cases raw with
      | error e => exact Answered.ended h
      | ok found =>
          cases found with
          | none => exact Answered.ended h
          | some d =>
              refine ⟨trivial, fun now => ?_⟩
              have h : Answered s (.load id) now t (.ok (some d)) := h
              exact (h.idle (e := ⟨.now, now⟩) trivial).ended
  | setBatchCount id count =>
      refine meets_patch hagain _ id _ _ _ (fun now => ⟨now, rfl⟩) fun now t raw h => ?_
      have h : Answered s (.setBatchCount id count) now t raw := h
      cases raw <;> exact h.ended
  | setStatus id status video =>
      refine meets_patch hagain _ id _ _ _ (fun now => ⟨now, rfl⟩) fun now t raw h => ?_
      have h : Answered s (.setStatus id status video) now t raw := h
      cases raw <;> exact h.ended
  | appendOutput id output =>
      refine (Program.meets_bind _ _).mpr ((meets_retrying (fun _ => meets_append) hagain rfl).mono
        (fun _ _ _ h => h) fun t raw _ h => ⟨h.1, fun hsourced => ?_⟩)
      refine (h.2 hsourced).map (f := Except.map fun _ => ()) (fun _ => rfl) fun r a hr => ?_
      obtain ⟨now, hr⟩ := hr
      exact ⟨now, raw, hr, by cases raw <;> rfl⟩
  | markFailed id reason =>
      refine meets_patch hagain _ id _ _ _ (fun now => ⟨now, rfl⟩) fun now t raw h => ?_
      have h : Answered s (.markFailed id reason) now t raw := h
      cases raw <;> exact h.ended

end Meets

/-- A call asks again for what may have been done, if it may ask again at all. -/
theorem resends_perform {s : RecordStore} (h : s.config.retry.maxRetries ≠ 0) (c : RecordCall) :
    Resends (c.perform s) := by
  have hpatch : ∀ {operation : String} {id : JobId} {fields : List (String × StoreValue)}
      {mask : List String} {precondition : Option Precondition},
      Resends (s.patch operation id fields mask precondition) := fun {_ id fields mask pre} =>
    .after ⟨0, 0⟩ trivial <| (fumbles_request s.base
      (patchAt s id fields mask pre ⟨0, 0⟩)).resends h _
  cases c with
  | create r => exact ((fumbles_request s.base ((create r).request s ⟨0, 0⟩)).resends h _).bind _
  | load id => exact ((fumbles_request s.base ((load id).request s ⟨0, 0⟩)).resends h _).bind _
  | setBatchCount id count => exact hpatch.bind _
  | setStatus id status video => exact hpatch.bind _
  | appendOutput id output =>
      exact ((Fumbles.after (c := .now) ⟨0, 0⟩ trivial (fumbles_request s.base
        ((appendOutput id output).request s ⟨0, 0⟩))).resends h _).bind _
  | markFailed id reason => exact hpatch.bind _

/-- A call sends its request, and again only after no answer, after an answer that says that the
server is too busy or has failed, or after one that reports success and cannot be read; within a try
it does so once with a new token when the old one has expired. It sends at most two requests for each
try and ends with what the last answer says. The answers that report success are left alone only by a
configuration that never tries again. -/
theorem perform_repeats (s : RecordStore) (c : RecordCall) :
    (c.perform s).Meets (Sends (c.Makes s) Recoverable) (Ended s c) [] ∧
      ((c.perform s).Meets (Sends (c.Makes s) fun _ a => Transient a) (Ended s c) [] ↔
        s.config.retry.maxRetries = 0) := by
  refine ⟨meets_perform (.inr fun _ _ h => h) c, fun h => ?_, fun h => meets_perform (.inl h) c⟩
  by_contra hretries
  exact (resends_perform hretries c).not_meets h

/-- A record is created; the reply that says so cannot be read, so it is created again, and the call
ends with the error that it is there already. -/
theorem not_silent_after_success :
    (∃ t, ((create (.fresh "holiday" ⟨0, 0⟩)).perform .jobStore).Leads t
        (.done (.error (.alreadyExists "jobs/holiday"))) ∧
      sends t = [((create (.fresh "holiday" ⟨0, 0⟩)).request .jobStore ⟨0, 0⟩,
          .ok ⟨200, .text "junk"⟩),
        ((create (.fresh "holiday" ⟨0, 0⟩)).request .jobStore ⟨0, 0⟩, .ok ⟨409, .text ""⟩)]) ∧
    ¬ ((create (.fresh "holiday" ⟨0, 0⟩)).perform .jobStore).Meets
      (Sends (fun _ => True) fun _ a => Transient a) (fun _ _ => True) [] := by
  refine ⟨?_, (resends_perform (by decide) _).not_meets⟩
  have hjunk := leads_request ((create (.fresh "holiday" ⟨0, 0⟩)).request .jobStore ⟨0, 0⟩)
    (((create (.fresh "holiday" ⟨0, 0⟩)).request .jobStore ⟨0, 0⟩).read RecordStore.jobStore.base)
    "" ⟨200, .text "junk"⟩ (by decide)
  have hthere := leads_request ((create (.fresh "holiday" ⟨0, 0⟩)).request .jobStore ⟨0, 0⟩)
    (((create (.fresh "holiday" ⟨0, 0⟩)).request .jobStore ⟨0, 0⟩).read RecordStore.jobStore.base)
    "" ⟨409, .text ""⟩ (by decide)
  rw [read_junk] at hjunk
  obtain ⟨v, hv, hagain⟩ := leads_attempts_succ {} "create_job" 0 2 hjunk rfl
  have hfinal := leads_attempts_final {} "create_job" 1 2 hthere (by rintro e ⟨⟩; rfl)
  refine ⟨_, ((hagain.append hfinal).bind _).append (.start _), ?_⟩
  rw [List.append_nil, sends_append, sends_append, sends_of_idle hv, List.append_nil]
  rfl

end RecordCall

end Slideshow
