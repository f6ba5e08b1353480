import Slideshow.Proofs.Program.Assurance
import Slideshow.Proofs.Store.Writes

/-! # Asking the server among others

What a request assures follows from what the server does to it: a rule for one request, and one for
a request that is tried again, where what is known beforehand has to survive every try that fails.
-/

namespace Slideshow

namespace Program

variable {Call Large : Type} {Answer : Call → Type} {LargeAnswer : Large → Type} {β γ : Type}
  {answer : (request : Call) → Program LargeAnswer (Answer request)}

theorem expand_bind (p : Program Answer β) (f : β → Program Answer γ) :
    (p >>= f).expand answer = p.expand answer >>= fun b => (f b).expand answer :=
  run_bind answer p f

theorem expand_ask (request : Call) : (ask request).expand answer = answer request := by
  simp [ask, expand, run]

end Program

open Program (Assures)

/-- An answer that got lost holds nothing. -/
theorem StoreReply.Lost.unread {α : Type} {reply : StoreReply} (h : reply.Lost)
    (hstatus : reply.status ∈ [200, 201, 404]) (decoder : Json.Decoder α) :
    ∃ e, reply.body.read decoder = .error e := by
  rcases h with h | ⟨-, h⟩
  · exact (h hstatus).elim
  · rw [h]
    exact ⟨_, rfl⟩

namespace StoreClient

variable {c : StoreConfig} {f : Faults} {others own : DocumentServer → DocumentServer → Prop}
  {β : Type} {I : DocumentServer → Prop}

/-- What the rules need of those who share the server: their changes compose, and doing nothing is
a step. -/
structure Among (others own : DocumentServer → DocumentServer → Prop) : Prop where
  refl : ∀ x, others x x
  trans : ∀ {x y z}, others x y → others y z → others x z
  idle : ∀ x, own x x

/-- What holds whatever the others do. -/
def Stable (others : DocumentServer → DocumentServer → Prop) (I : DocumentServer → Prop) : Prop :=
  ∀ x y, others x y → I x → I y

/-- A call that has nothing to do with the server. -/
def Quiet : ClientCall → Prop
  | .send _ _ => False
  | _ => True

theorem assures_quiet (ha : Among others own) (hI : Stable others I) {x : DocumentServer} (hx : I x)
    (call : ClientCall) (hcall : Quiet call) :
    (ask call).Assures (ClientCall.Answered c f) others own (fun _ z => I z) x := by
  intro y hy
  have hanswered : ∀ a z, call.Answered c f y a z → z = y := by
    intro a z h
    cases call with
    | send r t => exact hcall.elim
    | token => exact h.2
    | _ => exact h
  refine ⟨?_, fun a z h => ?_⟩
  · cases call with
    | send r t => exact hcall.elim
    | token => exact ⟨.ok "", y, ⟨"", rfl⟩, rfl⟩
    | now => exact ⟨⟨0, 0⟩, y, rfl⟩
    | jitter limit => exact ⟨(0 : ℕ), y, rfl⟩
    | _ => exact ⟨(), y, rfl⟩
  · cases hanswered a z h
    exact ⟨ha.idle y, hI x y hy hx⟩

theorem assures_token (ha : Among others own) (hI : Stable others I) {x : DocumentServer}
    (hx : I x) :
    token.Assures (ClientCall.Answered c f) others own (fun a z => (∃ t, a = .ok t) ∧ I z) x := by
  intro y hy
  refine ⟨⟨.ok "", y, ⟨"", rfl⟩, rfl⟩, fun a z h => ?_⟩
  obtain ⟨ht, rfl⟩ := h
  exact ⟨ha.idle _, ht, hI x _ hy hx⟩

/-! ## One request -/

/-- What is to be shown of a request and of how its answer is read: the server has an answer, what
it does is a step to be expected, and so is what a request does that goes wrong; that leaves the
matter as it was, and any error may come of it. -/
structure Handles (c : StoreConfig) (f : Faults)
    (others own : DocumentServer → DocumentServer → Prop) (r : DocumentRequest)
    (read : StoreReply → Except StoreError β) (I : DocumentServer → Prop)
    (Q : Except StoreError β → DocumentServer → Prop) : Prop where
  unread : ∀ reply, reply.Lost → ∃ e, read reply = .error e
  answered : ∀ y, I y → f.drops r ∨ ∃ reply z, r.Served c y reply z
  served : ∀ y reply z, I y → r.Served c y reply z → own y z ∧ Q (read reply) z
  mishap : ∀ y z, I y → r.Mishap c f y z → own y z ∧ I z ∧ ∀ e, Q (.error e) z

variable {r : DocumentRequest} {read : StoreReply → Except StoreError β}
  {Q : Except StoreError β → DocumentServer → Prop} {x : DocumentServer}

theorem Handles.error_of_lost (h : Handles c f others own r read I Q)
    {result : Except StoreError StoreReply} (hlost : ∀ reply, result = .ok reply → reply.Lost) :
    ∃ e, result >>= read = .error e := by
  cases result with
  | error e => exact ⟨e, rfl⟩
  | ok reply => exact h.unread reply (hlost reply rfl)

theorem Handles.sendWith (h : Handles c f others own r read I Q) (hI : Stable others I)
    (hx : I x) (t : String) :
    (sendWith r t).Assures (ClientCall.Answered c f) others own
      (fun result z => (∃ reply, result = .ok reply ∧ reply.status ≠ 401 ∧ Q (read reply) z) ∨
        (∀ reply, result = .ok reply → reply.Lost) ∧ I z ∧ ∀ e, Q (.error e) z) x := by
  intro y hy
  have hIy : I y := hI x y hy hx
  refine ⟨?_, fun a z hanswer => ?_⟩
  · rcases h.answered y hIy with hdrops | ⟨reply, z, hserved⟩
    · exact ⟨.error .unreadableBody, y, .inr ⟨(fun _ h => nomatch h), .inl ⟨hdrops, rfl⟩⟩⟩
    · exact ⟨.ok reply, z, .inl ⟨reply, rfl, hserved⟩⟩
  · rcases hanswer with ⟨reply, rfl, hserved⟩ | ⟨hlost, hmishap⟩
    · obtain ⟨hown, hQ⟩ := h.served y reply z hIy hserved
      exact ⟨hown, .inl ⟨reply, rfl, hserved.status_ne, hQ⟩⟩
    · obtain ⟨hown, hIz, hQ⟩ := h.mishap y z hIy hmishap
      refine ⟨hown, .inr ⟨fun reply hreply => ?_, hIz, hQ⟩⟩
      cases a with
      | error fault => cases hreply
      | ok reply' =>
          obtain rfl : reply' = reply := Except.ok.inj hreply
          exact hlost reply' rfl

/-- A request is sent again if it seems that its token has expired, which the server never says. -/
theorem Handles.send (h : Handles c f others own r read I Q) (ha : Among others own)
    (hI : Stable others I) (hx : I x) :
    (StoreClient.send r).Assures (ClientCall.Answered c f) others own
      (fun result z => Q (result >>= read) z) x := by
  have hends : ∀ {result : Except StoreError StoreReply} {z},
      (∃ reply, result = .ok reply ∧ reply.status ≠ 401 ∧ Q (read reply) z) ∨
        (∀ reply, result = .ok reply → reply.Lost) ∧ I z ∧ (∀ e, Q (.error e) z) →
      Q (result >>= read) z := by
    rintro result z (⟨reply, rfl, -, hQ⟩ | ⟨hlost, -, hQ⟩)
    · exact hQ
    · obtain ⟨e, he⟩ := h.error_of_lost hlost
      rw [he]
      exact hQ e
  rw [StoreClient.send, Program.assures_bind]
  refine (assures_token ha hI hx).weaken ?_
  rintro _ y ⟨⟨first, rfl⟩, hy⟩
  rw [Program.assures_bind]
  refine (h.sendWith hI hy first).weaken fun result z hz => ?_
  cases result with
  | error e => exact hends hz
  | ok reply =>
      simp only
      split
      · exact hends hz
      · rename_i hstatus
        -- no server answers so: the reply came from elsewhere, and the matter is as it was
        obtain ⟨-, hIz, hQ⟩ := hz.resolve_left fun ⟨_, hreply, hne, _⟩ =>
          hstatus (by cases hreply; exact hne)
        split
        · exact hQ _
        · refine (Program.assures_bind (ask .invalidateToken) _).mpr ?_
          refine (assures_quiet ha hI hIz .invalidateToken trivial).weaken fun _ z' hz' => ?_
          rw [Program.assures_bind]
          refine (assures_token ha hI hz').weaken ?_
          rintro _ y' ⟨⟨second, rfl⟩, hy'⟩
          exact (h.sendWith hI hy' second).weaken fun result z hz => hends hz

theorem Handles.request (h : Handles c f others own r read I Q) (ha : Among others own)
    (hI : Stable others I) (hQ : ∀ result, Stable others (Q result)) (hx : I x) :
    (StoreClient.request r read).Assures (ClientCall.Answered c f) others own Q x := by
  rw [StoreClient.request, Program.assures_bind]
  refine (h.send ha hI hx).weaken fun result z hz => ?_
  rw [Program.assures_bind]
  exact assures_quiet ha (hQ _) hz (.count _) trivial

/-! ## Trying again -/

section Retrying

variable {attempt : Asking (Except StoreError β)}

theorem assures_jitter (ha : Among others own) (hI : Stable others I) (hx : I x) (limit : ℕ) :
    ((Retry.jitter (β := β) limit).expand (answerRetry attempt)).Assures (ClientCall.Answered c f)
      others own (fun _ z => I z) x := by
  by_cases hlimit : limit = 0
  · rw [Retry.jitter_eq_done hlimit]
    exact hx
  · rw [Retry.jitter_eq_ask hlimit]
    exact assures_quiet ha hI hx (.jitter limit) trivial

theorem assures_delay (ha : Among others own) (hI : Stable others I) (hx : I x) (p : RetryPolicy)
    (k : ℕ) (e : StoreError) :
    ((Retry.delay (β := β) p k e).expand (answerRetry attempt)).Assures (ClientCall.Answered c f)
      others own (fun _ z => I z) x := by
  rw [Retry.delay]
  split
  · exact hx
  · rw [Program.expand_bind, Program.assures_bind]
    exact assures_jitter ha hI hx _

theorem expand_attempt : (Retry.attempt (β := β)).expand (answerRetry attempt) = attempt :=
  Program.expand_ask RetryCall.attempt

/-- What is tried again starts over from what every try that failed has left. -/
theorem assures_attempts (ha : Among others own) (hI : Stable others I)
    (hattempt : ∀ y, I y → attempt.Assures (ClientCall.Answered c f) others own
      (fun result z => Q result z ∧ ∀ e, result = .error e → I z) y)
    (p : RetryPolicy) (operation : String) (k left : ℕ) (hx : I x) :
    ((Retry.attempts p operation k left).expand (answerRetry attempt)).Assures
      (ClientCall.Answered c f) others own Q x := by
  -- on the tries that are left, for every state in which the matter is as it was
  induction left generalizing k x with
  | zero =>
      rw [Retry.attempts, expand_attempt]
      exact (hattempt x hx).weaken fun _ _ h => h.1
  | succ left ih =>
      rw [Retry.attempts, Program.expand_bind, expand_attempt, Program.assures_bind]
      refine (hattempt x hx).weaken fun result y hy => ?_
      cases result with
      | ok b => exact hy.1
      | error e =>
          simp only
          split
          · rw [Program.expand_bind, Program.assures_bind]
            refine (assures_delay ha hI (hy.2 e rfl) p k e).weaken fun ms z hz => ?_
            rw [Program.expand_bind, Program.assures_bind]
            refine (assures_quiet ha hI hz (.count _) trivial).weaken fun _ z' hz' => ?_
            rw [Program.expand_bind, Program.assures_bind]
            refine (assures_quiet ha hI hz' (.wait _) trivial).weaken fun _ z'' hz'' => ?_
            exact ih (k + 1) hz''
          · exact hy.1

theorem assures_retrying (ha : Among others own) (hI : Stable others I)
    (hattempt : ∀ y, I y → attempt.Assures (ClientCall.Answered c f) others own
      (fun result z => Q result z ∧ ∀ e, result = .error e → I z) y)
    (p : RetryPolicy) (operation : String) (hx : I x) :
    (StoreClient.retrying p operation attempt).Assures (ClientCall.Answered c f) others own Q x :=
  assures_attempts ha hI hattempt p operation 0 p.maxRetries hx

theorem Handles.retrying (h : Handles c f others own r read I
      (fun result z => Q result z ∧ ∀ e, result = .error e → I z))
    (ha : Among others own) (hI : Stable others I) (hQ : ∀ result, Stable others (Q result))
    (p : RetryPolicy) (operation : String) (hx : I x) :
    (StoreClient.retrying p operation (StoreClient.request r read)).Assures
      (ClientCall.Answered c f) others own Q x := by
  refine assures_retrying ha hI (fun y hy => h.request ha hI (fun result => ?_) hy) p operation hx
  rintro y z hyz ⟨hy, hfailed⟩
  exact ⟨hQ result y z hyz hy, fun e he => hI y z hyz (hfailed e he)⟩

end Retrying

/-! ## Reading and writing -/

/-- What is to be shown of reading a document: it can be had, and what is then known of the server
and the document, also if the answer got lost. -/
theorem assures_getDocument {Q : Except StoreError (Option Document) → DocumentServer → Prop}
    (ha : Among others own) (hI : Stable others I) (hQ : ∀ result, Stable others (Q result))
    {base collection id : String} (p : RetryPolicy) (operation : String)
    (hanswered : ∀ y, I y → f.drops (.get collection id) ∨
      ∃ reply z, (DocumentRequest.get collection id).Served c y reply z)
    (hread : ∀ y, I y → Q (.ok (y.document (c.documentName collection id))) y)
    (hlost : ∀ y e, I y → f.drops (.get collection id) ∨ f.loses (.get collection id) →
      Q (.error e) y)
    (hx : I x) :
    (StoreClient.retrying p operation (getDocument base collection id)).Assures
      (ClientCall.Answered c f) others own Q x := by
  have hkept : ∀ {y z reply}, (DocumentRequest.get collection id).Served c y reply z → z = y := by
    intro y z reply h
    cases h with
    | found | missing | refused => rfl
    | written hr => cases hr
  refine Handles.retrying ⟨?_, hanswered, ?_, ?_⟩ ha hI hQ p operation hx
  · intro reply hlost
    split
    · rename_i hstatus
      obtain ⟨e, he⟩ := hlost.unread (by simp [hstatus]) Document.decoder
      exact ⟨e, by rw [he]; rfl⟩
    · rename_i hstatus
      simp [StoreReply.Lost, hstatus] at hlost
    · exact ⟨_, rfl⟩
  · intro y reply z hy hserved
    refine ⟨hkept hserved ▸ ha.idle y, ?_⟩
    cases hserved with
    | found hd hreply =>
        have hresult := hread y hy
        rw [hd] at hresult
        simp only [hreply.1, hreply.2]
        exact ⟨hresult, fun _ h => nomatch h⟩
    | missing hd hreply =>
        have hresult := hread y hy
        rw [hd] at hresult
        simp only [hreply]
        exact ⟨hresult, fun _ h => nomatch h⟩
    | written hr => cases hr
    | refused hr => cases hr
  · rintro y z hy (⟨hdrops, rfl⟩ | ⟨hloses, reply, hserved⟩)
    · exact ⟨ha.idle _, hy, fun e => ⟨hlost _ e hy (.inl hdrops), fun _ _ => hy⟩⟩
    · cases hkept hserved
      exact ⟨ha.idle _, hy, fun e => ⟨hlost _ e hy (.inr hloses), fun _ _ => hy⟩⟩

/-- How the answers to a write are read: a confirmation as a success, a refusal as an error of a
kind, and one that got lost as an error. -/
structure Reads (c : StoreConfig) (r : DocumentRequest) (read : StoreReply → Except StoreError β)
    (refusal : StoreError → Prop) : Prop where
  unread : ∀ reply, reply.Lost → ∃ e, read reply = .error e
  confirmed : ∀ d reply, r.Confirmed d reply → ∃ b, read reply = .ok b
  refused : ∀ reply, r.Refused reply → ∃ e, read reply = .error e ∧ refusal e

/-- What is to be shown of a write: it can be answered, and it is a step to be expected whenever it
takes effect; where its answer may get lost, it leaves the matter as it was. It does not take effect
if it gets lost on its way, or is refused and that does. -/
structure Writes (c : StoreConfig) (f : Faults)
    (others own : DocumentServer → DocumentServer → Prop) (r : DocumentRequest) (name : String)
    (w : DocumentWrite) (refusal : StoreError → Prop) (I : DocumentServer → Prop)
    (Q : Except StoreError β → DocumentServer → Prop) : Prop where
  write : r.write? c = some (name, w)
  answered : ∀ y, I y → f.drops r ∨ ∃ reply z, r.Served c y reply z
  written : ∀ y time, I y → w.Admitted (y.document name) → time ∉ y.times →
    own y (y.write name w time) ∧ (∀ b, Q (.ok b) (y.write name w time)) ∧
      (f.loses r → I (y.write name w time) ∧ ∀ e, Q (.error e) (y.write name w time))
  refused : ∀ y e, I y → ¬ w.Admitted (y.document name) → refusal e → Q (.error e) y
  lost : ∀ y e, I y → f.drops r ∨ f.loses r ∧ ¬ w.Admitted (y.document name) → Q (.error e) y

theorem Writes.handles {refusal : StoreError → Prop} {name : String} {w : DocumentWrite}
    (h : Writes c f others own r name w refusal I Q) (hr : Reads c r read refusal)
    (ha : Among others own) :
    Handles c f others own r read I
      (fun result z => Q result z ∧ ∀ e, result = .error e → I z) where
  unread := hr.unread
  answered := h.answered
  served y reply z hy hserved := by
    cases hserved with
    | found | missing => cases h.write
    | written hw hadmitted htime hreply =>
        cases h.write.symm.trans hw
        obtain ⟨hown, hok, -⟩ := h.written y _ hy hadmitted htime
        obtain ⟨b, hb⟩ := hr.confirmed _ reply hreply
        rw [hb]
        exact ⟨hown, hok b, fun _ h => nomatch h⟩
    | refused hw hadmitted hreply =>
        cases h.write.symm.trans hw
        obtain ⟨e, he, hrefusal⟩ := hr.refused reply hreply
        rw [he]
        exact ⟨ha.idle y, h.refused y e hy hadmitted hrefusal, fun _ _ => hy⟩
  mishap y z hy hmishap := by
    rcases hmishap with ⟨hdrops, rfl⟩ | ⟨hloses, reply, hserved⟩
    · exact ⟨ha.idle _, hy, fun e => ⟨h.lost _ e hy (.inl hdrops), fun _ _ => hy⟩⟩
    · cases hserved with
      | found | missing => cases h.write
      | written hw hadmitted htime hreply =>
          cases h.write.symm.trans hw
          obtain ⟨hown, -, hkept⟩ := h.written y _ hy hadmitted htime
          obtain ⟨hIz, hQz⟩ := hkept hloses
          exact ⟨hown, hIz, fun e => ⟨hQz e, fun _ _ => hIz⟩⟩
      | refused hw hadmitted hreply =>
          cases h.write.symm.trans hw
          exact ⟨ha.idle _, hy, fun e => ⟨h.lost _ e hy (.inr ⟨hloses, hadmitted⟩), fun _ _ => hy⟩⟩

theorem Writes.weaken {refusal : StoreError → Prop} {name : String} {w : DocumentWrite}
    (h : Writes c f others own r name w refusal I Q)
    {Q' : Except StoreError β → DocumentServer → Prop}
    (hQ : ∀ result z, Q result z → Q' result z) : Writes c f others own r name w refusal I Q' where
  write := h.write
  answered := h.answered
  written y time hy hw htime := by
    obtain ⟨hown, hok, hlost⟩ := h.written y time hy hw htime
    exact ⟨hown, fun b => hQ _ _ (hok b), fun hf => ⟨(hlost hf).1, fun e => hQ _ _ ((hlost hf).2 e)⟩⟩
  refused y e hy hw he := hQ _ _ (h.refused y e hy hw he)
  lost y e hy hf := hQ _ _ (h.lost y e hy hf)

/-- What a write gives back does not matter. -/
theorem Writes.discard {refusal : StoreError → Prop} {name : String} {w : DocumentWrite}
    {Q : Except StoreError Unit → DocumentServer → Prop}
    (h : Writes c f others own r name w refusal I Q) (β : Type) :
    Writes c f others own r name w refusal I
      (fun (result : Except StoreError β) z => Q (result.map fun _ => ()) z) where
  write := h.write
  answered := h.answered
  written y time hy hw htime := by
    obtain ⟨hown, hok, hlost⟩ := h.written y time hy hw htime
    exact ⟨hown, fun _ => hok (), hlost⟩
  refused := h.refused
  lost := h.lost

/-! ## The answers to writes -/

theorem isPreconditionFailed_unexpected (base : String) (r : DocumentRequest) {reply : StoreReply}
    (h : reply.Refuses) : (unexpected base r reply).isPreconditionFailed = true := by
  have hoccurs : StoreError.occursIn "FAILED_PRECONDITION"
      (r.address base ++ " failed: " ++ reply.body.content) = true :=
    StoreError.occursIn_append_right _ h.2
  simp [unexpected, StoreError.ofStatus, hoccurs, StoreError.isPreconditionFailed]

theorem reads_create (c : StoreConfig) (base collection id : String) (fields : Fields) :
    Reads c (.create collection id fields)
      (fun reply => match reply.status with
        | 200 | 201 => reply.body.read Document.decoder
        | 409 => .error (.alreadyExists (collection ++ "/" ++ id))
        | _ => .error (unexpected base (.create collection id fields) reply))
      fun _ => True where
  unread reply hlost := by
    split
    · rename_i hstatus
      exact hlost.unread (by simp [hstatus]) _
    · rename_i hstatus
      exact hlost.unread (by simp [hstatus]) _
    · exact ⟨_, rfl⟩
    · exact ⟨_, rfl⟩
  confirmed d reply h := by
    simp only [h.1]
    exact ⟨d, h.2⟩
  refused reply h := by
    have hstatus : reply.status = 409 := h
    simp only [hstatus]
    exact ⟨_, rfl, trivial⟩

theorem reads_patch (c : StoreConfig) (base collection id : String) (fields : Fields)
    (mask : List String) (precondition : Option Precondition) :
    Reads c (.patch collection id fields mask precondition)
      (fun reply => match reply.status with
        | 200 => reply.body.read Document.decoder
        | 404 => .error (.notFound (collection ++ "/" ++ id))
        | _ => .error (unexpected base (.patch collection id fields mask precondition) reply))
      fun e => e.isPreconditionFailed = true where
  unread reply hlost := by
    split
    · rename_i hstatus
      exact hlost.unread (by simp [hstatus]) _
    · exact ⟨_, rfl⟩
    · exact ⟨_, rfl⟩
  confirmed d reply h := by
    simp only [h.1]
    exact ⟨d, h.2⟩
  refused reply h := by
    have hrefuses : reply.Refuses := h
    split
    · rename_i hstatus
      simp [StoreReply.Refuses, hstatus] at hrefuses
    · rename_i hstatus
      simp [StoreReply.Refuses, hstatus] at hrefuses
    · exact ⟨_, rfl, isPreconditionFailed_unexpected _ _ hrefuses⟩

theorem reads_commit (c : StoreConfig) (base : String) (writes : List DocumentWrite) :
    Reads c (.commit writes)
      (fun reply => match reply.status with
        | 200 => reply.body.read CommitReply.decoder
        | _ => .error (unexpected base (.commit writes) reply))
      fun e => e.isPreconditionFailed = true where
  unread reply hlost := by
    split
    · rename_i hstatus
      exact hlost.unread (by simp [hstatus]) _
    · exact ⟨_, rfl⟩
  confirmed d reply h := by
    simp only [h.1]
    exact h.2
  refused reply h := by
    have hrefuses : reply.Refuses := h
    split
    · rename_i hstatus
      simp [StoreReply.Refuses, hstatus] at hrefuses
    · exact ⟨_, rfl, isPreconditionFailed_unexpected _ _ hrefuses⟩

end StoreClient

/-! ## Calls of the record store -/

namespace RecordStore

open StoreClient

variable {s : RecordStore} {f : Faults} {others own : DocumentServer → DocumentServer → Prop}
  {I : DocumentServer → Prop} {x : DocumentServer} {id : JobId}

/-- What is loaded when a document is found or not, read at a time. -/
def loaded (id : JobId) (now : Timestamp) :
    Option Document → Except StoreError (Option StoredRecord)
  | none => .ok none
  | some d => (JobRecord.ofDocument id now d).map fun record => some ⟨record, d.updateTime⟩

theorem assures_load {Q : Except StoreError (Option StoredRecord) → DocumentServer → Prop}
    (ha : Among others own) (hI : Stable others I) (hQ : ∀ result, Stable others (Q result))
    (hanswered : ∀ y, I y → f.drops (.get s.config.jobs id) ∨
      ∃ reply z, (DocumentRequest.get s.config.jobs id).Served s.config y reply z)
    (hread : ∀ y now, I y →
      Q (loaded id now (y.document (s.config.documentName s.config.jobs id))) y)
    (hlost : ∀ y e, I y →
      f.drops (.get s.config.jobs id) ∨ f.loses (.get s.config.jobs id) → Q (.error e) y)
    (hx : I x) :
    (s.load id).Assures (ClientCall.Answered s.config f) others own Q x := by
  rw [load, Program.assures_bind]
  refine Assures.weaken (assures_getDocument ha hI
    (Q := fun result z => ∀ now, Q (result >>= loaded id now) z) ?_ _ _ hanswered ?_ ?_ hx) ?_
  · exact fun result y z hyz hy now => hQ _ y z hyz (hy now)
  · exact fun y hy now => hread y now hy
  · exact fun y e hy hmishap now => hlost y e hy hmishap
  · intro result z hz
    cases result with
    | error e => exact hz ⟨0, 0⟩
    | ok found =>
        cases found with
        | none => exact hz ⟨0, 0⟩
        | some d =>
            simp only
            rw [Program.assures_bind]
            refine (assures_quiet (I := fun y => ∀ now, Q (loaded id now (some d)) y) ha ?_ hz .now
              trivial).weaken fun now y hy => hy now
            exact fun y z hyz hy now => hQ _ y z hyz (hy now)

variable {Q : Except StoreError Unit → DocumentServer → Prop}

theorem assures_patch (ha : Among others own) (hI : Stable others I)
    (hQ : ∀ result, Stable others (Q result)) {fields : Fields} {mask : List String}
    {precondition : Option Precondition} {name : String} {w : Timestamp → DocumentWrite}
    (operation : String)
    (h : ∀ now, Writes s.config f others own
      (.patch s.config.jobs id (fields ++ [("updated_at", .ofTimestamp now)])
        (mask ++ ["updated_at"]) precondition) name (w now)
      (fun e => e.isPreconditionFailed = true) I Q) (hx : I x) :
    (s.patch operation id fields mask precondition).Assures (ClientCall.Answered s.config f)
      others own (fun result z => Q (result.map fun _ => ()) z) x := by
  rw [patch, Program.assures_bind]
  refine (assures_quiet ha hI hx .now trivial).weaken fun now y hy => ?_
  exact (((h now).discard Document).handles (reads_patch _ _ _ _ _ _ _) ha).retrying ha hI
    (fun result => hQ _) _ _ hy

/-- What is to be shown of a call that makes one write: it is shown of every request for it. -/
abbrev Performs (s : RecordStore) (f : Faults)
    (others own : DocumentServer → DocumentServer → Prop) (id : JobId)
    (w : Timestamp → DocumentWrite) (I : DocumentServer → Prop)
    (Q : Except StoreError Unit → DocumentServer → Prop) : Prop :=
  ∀ now r, r.write? s.config = some (s.nameOf id, w now) →
    Writes s.config f others own r (s.nameOf id) (w now) (fun e => e.isPreconditionFailed = true) I Q

theorem assures_setBatchCount (ha : Among others own) (hI : Stable others I)
    (hQ : ∀ result, Stable others (Q result)) {count : ℕ}
    (h : Performs s f others own id (countWrite count) I Q) (hx : I x) :
    (s.setBatchCount id count).Assures (ClientCall.Answered s.config f) others own Q x := by
  rw [setBatchCount, Program.assures_bind]
  exact assures_patch ha hI hQ _ (fun now => h now _ rfl) hx

theorem assures_setStatus (ha : Among others own) (hI : Stable others I)
    (hQ : ∀ result, Stable others (Q result)) {status : JobStatus} {video : Option String}
    (h : Performs s f others own id (statusWrite status video) I Q) (hx : I x) :
    (s.setStatus id status video).Assures (ClientCall.Answered s.config f) others own Q x := by
  rw [setStatus, Program.assures_bind]
  exact assures_patch ha hI hQ _ (fun now => h now _ rfl) hx

theorem assures_markFailed (ha : Among others own) (hI : Stable others I)
    (hQ : ∀ result, Stable others (Q result)) {reason : String}
    (h : Performs s f others own id (failureWrite reason) I Q) (hx : I x) :
    (s.markFailed id reason).Assures (ClientCall.Answered s.config f) others own Q x := by
  rw [markFailed, Program.assures_bind]
  exact assures_patch ha hI hQ _ (fun now => h now _ rfl) hx

theorem assures_appendOutput (ha : Among others own) (hI : Stable others I)
    (hQ : ∀ result, Stable others (Q result)) {output : BatchOutput}
    (h : Performs s f others own id (s.outputWrite id output) I Q) (hx : I x) :
    (s.appendOutput id output).Assures (ClientCall.Answered s.config f) others own Q x := by
  rw [appendOutput, Program.assures_bind]
  refine assures_retrying ha hI (fun y hy => ?_) _ _ hx
  rw [Program.assures_bind]
  refine (assures_quiet ha hI hy .now trivial).weaken fun now z hz => ?_
  refine (((h now _ rfl).discard CommitReply).handles (reads_commit _ _ _) ha).request ha hI ?_ hz
  rintro result z z' hzz' ⟨hz, hfailed⟩
  exact ⟨hQ _ z z' hzz' hz, fun e he => hI z z' hzz' (hfailed e he)⟩

/-! ### Claims -/

/-- What a claim does with a record that it has found open in a version. -/
def takeOver (s : RecordStore) (id : JobId) (batch left : ℕ) (version : String) :
    Asking (Except StoreError Bool) := do
  match ← s.patch "claim_join" id
      [("status", .string JobStatus.joining.text), ("joiner", .ofNat batch)] ["status", "joiner"]
      (some { updateTime := some version }) with
  | .ok _ => return .ok true
  | .error e =>
    if e.isPreconditionFailed then
      StoreClient.count conflicts
      s.claim id batch left
    else return .error e

/-- What a claim does with what it has loaded. -/
def goOn (s : RecordStore) (id : JobId) (batch left : ℕ) :
    Except StoreError (Option StoredRecord) → Asking (Except StoreError Bool)
  | .error e => return .error e
  | .ok none => return .error (.notFound ("job " ++ id))
  | .ok (some stored) =>
    if stored.record.joinOwnedBy batch then return .ok true
    else if stored.record.status ≠ .processing then return .ok false
    else match stored.version with
      | none => return .error (.invalidResponse "document read without updateTime")
      | some version => s.takeOver id batch left version

theorem claim_succ (s : RecordStore) (id : JobId) (batch left : ℕ) :
    s.claim id batch (left + 1) = s.load id >>= s.goOn id batch left := by
  rw [claim]
  refine congrArg _ (funext fun result => ?_)
  cases result with
  | error e => rfl
  | ok found => cases found <;> rfl

/-- A claim that loses a race begins again. -/
theorem assures_takeOver (ha : Among others own) (hI : Stable others I)
    (hQ : ∀ result, Stable others (Q result)) {batch left : ℕ} {version name : String}
    {w : Timestamp → DocumentWrite} {ends : Except StoreError Bool → DocumentServer → Prop}
    (h : ∀ now, Writes s.config f others own
      (.patch s.config.jobs id
        ([("status", .string JobStatus.joining.text), ("joiner", .ofNat batch)] ++
          [("updated_at", .ofTimestamp now)]) (["status", "joiner"] ++ ["updated_at"])
        (some { updateTime := some version })) name (w now)
      (fun e => e.isPreconditionFailed = true) I Q)
    (hjoined : ∀ z, Q (.ok ()) z → ends (.ok true) z)
    (hstale : ∀ e z, Q (.error e) z → e.isPreconditionFailed = true →
      (s.claim id batch left).Assures (ClientCall.Answered s.config f) others own ends z)
    (hfailed : ∀ e z, Q (.error e) z → e.isPreconditionFailed ≠ true → ends (.error e) z)
    (hx : I x) :
    (s.takeOver id batch left version).Assures (ClientCall.Answered s.config f) others own ends
      x := by
  rw [takeOver, Program.assures_bind]
  refine (assures_patch ha hI hQ _ h hx).weaken fun result z hz => ?_
  cases result with
  | ok written => exact hjoined z hz
  | error e =>
      simp only
      split
      · rename_i he
        rw [Program.assures_bind]
        refine (assures_quiet ha (hQ _) hz (.count _) trivial).weaken fun _ z' hz' => ?_
        exact hstale e z' hz' he
      · rename_i he
        exact hfailed e z hz he

/-! ### Without others -/

theorem among_nobody : Among Eq fun (_ _ : DocumentServer) => True :=
  ⟨fun _ => rfl, fun h h' => h.trans h', fun _ => trivial⟩

theorem stable_nobody (I : DocumentServer → Prop) : Stable Eq I := by
  rintro x _ rfl h
  exact h

/-- Where nobody else is about, a write that is admitted and does not get lost is made. -/
theorem performs_alone {w : Timestamp → DocumentWrite}
    (hf : ∀ now r, r.write? s.config = some (s.nameOf id, w now) → ¬ (f.drops r ∨ f.loses r))
    (hw : ∀ now, (w now).Admitted (x.document (s.nameOf id)))
    (hreadable : ∀ now time, (x.written (s.nameOf id) (w now) time).Readable) :
    Performs s f Eq (fun _ _ => True) id w (fun y => y = x) (fun result z =>
      result = .ok () ∧ ∃ now time, z = x.write (s.nameOf id) (w now) time) := by
  intro now r hr
  refine ⟨hr, ?_, ?_, ?_, fun _ _ _ hlost => (hf now r hr (hlost.imp_right And.left)).elim⟩
  · rintro _ rfl
    exact .inr (DocumentRequest.exists_served hr (hreadable now))
  · rintro _ time rfl - -
    exact ⟨trivial, fun _ => ⟨rfl, now, time, rfl⟩, fun hloses => (hf now r hr (.inr hloses)).elim⟩
  · rintro _ e rfl hrefused -
    exact (hrefused (hw now)).elim

theorem assures_forWorker {β : Type} {p : Asking (Except StoreError β)}
    {Q : Except WorkerError β → DocumentServer → Prop} :
    (forWorker p).Assures (ClientCall.Answered s.config f) others own Q x ↔
      p.Assures (ClientCall.Answered s.config f) others own
        (fun result z => Q (result.mapError .store) z) x := by
  rw [forWorker, Program.assures_bind]
  rfl

end RecordStore

end Slideshow
