import Slideshow.Proofs.Store.Asking

/-! # When a request is sent again

A request is sent again within a try when its token has expired, and by a further try when the
answer may have been bad luck. `Sends` says of every single request what was answered to the one
before it; `meets_request` follows one try through all answers that there are, `meets_retrying` all
tries. -/

namespace Slideshow

/-- A call to the store and its answer. -/
abbrev ClientExchange := Exchange ClientCall.Answer

/-- What comes of sending a request. -/
abbrev RequestAnswer := Except Http.Fault StoreReply

namespace DocumentRequest

/-- What a reply to a request holds. -/
def Content : DocumentRequest → Type
  | get _ _ => Option Document
  | create _ _ _ | patch _ _ _ _ _ => Document
  | commit _ => CommitReply

/-- What a reply to a request says. -/
def read (base : String) : (r : DocumentRequest) → StoreReply → Except StoreError r.Content
  | get collection id, reply => match reply.status with
    | 200 => (reply.body.read Document.decoder).map some
    | 404 => .ok none
    | _ => .error (StoreClient.unexpected base (get collection id) reply)
  | create collection id fields, reply => match reply.status with
    | 200 | 201 => reply.body.read Document.decoder
    | 409 => .error (.alreadyExists (collection ++ "/" ++ id))
    | _ => .error (StoreClient.unexpected base (create collection id fields) reply)
  | patch collection id fields mask precondition, reply => match reply.status with
    | 200 => reply.body.read Document.decoder
    | 404 => .error (.notFound (collection ++ "/" ++ id))
    | _ => .error (StoreClient.unexpected base (patch collection id fields mask precondition) reply)
  | commit writes, reply => match reply.status with
    | 200 => reply.body.read CommitReply.decoder
    | _ => .error (StoreClient.unexpected base (commit writes) reply)

/-- The statuses that report success. -/
def successes : DocumentRequest → List ℕ
  | create _ _ _ => [200, 201]
  | _ => [200]

/-- The body of a reply holds nothing that the request asks for. -/
def Unreadable (r : DocumentRequest) (body : ReplyBody) : Prop :=
  match r with
  | commit _ => ∀ content, body.read CommitReply.decoder ≠ .ok content
  | _ => ∀ d, body.read Document.decoder ≠ .ok d

/-- A reply that reports success and cannot be read. -/
def Garbled (r : DocumentRequest) (reply : StoreReply) : Prop :=
  reply.status ∈ r.successes ∧ r.Unreadable reply.body

theorem success_of_mem {r : DocumentRequest} {status : ℕ} (h : status ∈ r.successes) :
    status = 200 ∨ status = 201 := by
  cases r <;> simp_all [successes]

end DocumentRequest

namespace StoreClient

/-- An answer that may have been bad luck: none at all, or one that says that the server is too busy
or has failed. -/
inductive Transient : RequestAnswer → Prop
  | unanswered (fault) : Transient (.error fault)
  | failing (reply : StoreReply)
      (hstatus : reply.status = 429 ∨ 500 ≤ reply.status ∧ reply.status ≤ 599)
      (hbody : StoreError.occursIn "FAILED_PRECONDITION" reply.body.content = false) :
      Transient (.ok reply)

/-- An answer that says that the token has expired. -/
def Expired (a : RequestAnswer) : Prop :=
  ∃ reply, a = .ok reply ∧ reply.status = 401 ∧ saysExpired reply.body.content = true

/-- An answer after which it is tried again. -/
def Recoverable (r : DocumentRequest) (a : RequestAnswer) : Prop :=
  Transient a ∨ ∃ reply, a = .ok reply ∧ r.Garbled reply

/-! ## Exchanges -/

/-- The request that was sent, with its answer. -/
def sent? : ClientExchange → Option (DocumentRequest × RequestAnswer)
  | ⟨.send r _, a⟩ => some (r, a)
  | _ => none

/-- The requests that were sent, with their answers. -/
def sends (t : List ClientExchange) : List (DocumentRequest × RequestAnswer) := t.filterMap sent?

/-- The exchange is about neither a token nor a request. -/
def Idle : ClientExchange → Prop
  | ⟨.send _ _, _⟩ | ⟨.token, _⟩ => False
  | _ => True

/-- Tokens come from a source that says so if there is none. -/
def Sourced (t : List ClientExchange) : Prop :=
  ∀ e : StoreError, (⟨.token, .error e⟩ : ClientExchange) ∈ t →
    ∃ reason, e = .unauthenticated reason

variable {t u : List ClientExchange} {e : ClientExchange} {r : DocumentRequest} {a : RequestAnswer}

theorem sends_append (t u : List ClientExchange) : sends (t ++ u) = sends t ++ sends u :=
  List.filterMap_append

@[simp] theorem sends_send (t : List ClientExchange) (r : DocumentRequest) (token : String)
    (a : RequestAnswer) : sends (t ++ [⟨.send r token, a⟩]) = sends t ++ [(r, a)] :=
  sends_append t _

@[simp] theorem sends_token (t : List ClientExchange) (a : Except StoreError String) :
    sends (t ++ [⟨.token, a⟩]) = sends t :=
  (sends_append t _).trans (List.append_nil _)

theorem sent?_of_idle (h : Idle e) : sent? e = none := by
  obtain ⟨call, a⟩ := e
  cases call with
  | send r token => exact h.elim
  | _ => rfl

theorem sends_of_idle (h : ∀ e ∈ u, Idle e) : sends u = [] :=
  List.filterMap_eq_nil_iff.mpr fun e he => sent?_of_idle (h e he)

theorem sends_idle (t : List ClientExchange) (h : Idle e) : sends (t ++ [e]) = sends t := by
  rw [sends_append, sends_of_idle (List.forall_mem_singleton.mpr h), List.append_nil]

theorem sends_cons_idle (t : List ClientExchange) (h : Idle e) : sends (e :: t) = sends t :=
  List.filterMap_cons_none (sent?_of_idle h)

theorem Sourced.of_append (h : Sourced (t ++ u)) : Sourced t :=
  fun e he => h e (List.mem_append_left u he)

theorem Sourced.append (h : Sourced t) (h' : Sourced u) : Sourced (t ++ u) :=
  fun e he => (List.mem_append.mp he).elim (h e) (h' e)

theorem sourced_token (token : String) : Sourced [⟨.token, .ok token⟩] := by
  intro e he
  cases List.mem_singleton.mp he

theorem sourced_send (r : DocumentRequest) (token : String) (a : RequestAnswer) :
    Sourced [⟨.send r token, a⟩] := by
  intro e he
  cases List.mem_singleton.mp he

theorem sourced_of_idle (h : ∀ e ∈ t, Idle e) : Sourced t := fun _ he => (h _ he).elim

theorem Sourced.cons_idle (h : Sourced t) (he : Idle e) : Sourced (e :: t) :=
  (sourced_of_idle (List.forall_mem_singleton.mpr he)).append h

/-! ## What is promised of every request -/

/-- A request may follow: it is the first one, or `again` allows it after the answer to the last
one, or the token of the last one had expired, that of the one before it had not, and the token was
forgotten. -/
inductive MaySend (again : DocumentRequest → RequestAnswer → Prop) : List ClientExchange → Prop
  | first {t : List ClientExchange} (h : sends t = []) : MaySend again t
  | again {t : List ClientExchange} {r : DocumentRequest} {a : RequestAnswer}
      (h : (sends t).getLast? = some (r, a)) (ha : again r a) : MaySend again t
  | renewed {t : List ClientExchange} {before : List (DocumentRequest × RequestAnswer)}
      {r : DocumentRequest} {a : RequestAnswer}
      (h : sends t = before ++ [(r, a)]) (ha : Expired a)
      (hbefore : ∀ r' b, before.getLast? = some (r', b) → ¬ Expired b) :
      MaySend again (t ++ [⟨.invalidateToken, ()⟩])

/-- Only some requests are sent, each with a token that was just given out and only if it may. -/
def Sends (own : DocumentRequest → Prop) (again : DocumentRequest → RequestAnswer → Prop)
    (t : List ClientExchange) : ClientCall → Prop
  | .send r token => own r ∧ (Sourced t → ∃ u, t = u ++ [⟨.token, .ok token⟩] ∧ MaySend again u)
  | _ => True

/-- How the answer to a request is taken. -/
inductive Settled {β : Type} (read : StoreReply → Except StoreError β) :
    RequestAnswer → Except StoreError β → Prop
  | read (a : RequestAnswer) :
      Settled read a ((a.mapError fun fault => .network fault.message) >>= read)
  | unauthorized (reply : StoreReply) (h : reply.status = 401) :
      Settled read (.ok reply) (.error (.ofStatus 401 reply.body.content))

/-- The result is that of the last answer, or there was no token to go on with. -/
inductive Concluded {β : Type}
    (settles : DocumentRequest → RequestAnswer → Except StoreError β → Prop) :
    List ClientExchange → Except StoreError β → Prop
  | answered {t : List ClientExchange} {r : DocumentRequest} {a : RequestAnswer}
      {result : Except StoreError β} (h : (sends t).getLast? = some (r, a))
      (hresult : settles r a result) : Concluded settles t result
  | refused {t u : List ClientExchange} {reason : String} (h : sends u = []) :
      Concluded settles (t ++ ⟨.token, .error (.unauthenticated reason)⟩ :: u)
        (.error (.unauthenticated reason))

section Concluded

variable {β γ : Type} {settles : DocumentRequest → RequestAnswer → Except StoreError β → Prop}
  {result : Except StoreError β}

theorem Concluded.idle (h : Concluded settles t result) (he : Idle e) :
    Concluded settles (t ++ [e]) result := by
  cases h with
  | answered h hresult => exact .answered (by rwa [sends_idle t he]) hresult
  | refused h =>
      rw [List.append_assoc, List.cons_append]
      exact .refused (by rw [sends_idle _ he, h])

/-- What is made of a result depends on the answers as the result does, if errors stay errors. -/
theorem Concluded.map {settles' : DocumentRequest → RequestAnswer → Except StoreError γ → Prop}
    {f : Except StoreError β → Except StoreError γ} (h : Concluded settles t result)
    (hf : ∀ e, f (.error e) = .error e)
    (hsettles : ∀ r a, settles r a result → settles' r a (f result)) :
    Concluded settles' t (f result) := by
  cases h with
  | answered h hresult => exact .answered h (hsettles _ _ hresult)
  | refused h =>
      rw [hf]
      exact .refused h

end Concluded

/-! ## Answers that lead to another try -/

theorem transient_of_ofStatus {status : ℕ} {reason : String}
    (h : (StoreError.ofStatus status reason).isRetryable = true) :
    (status = 429 ∨ 500 ≤ status ∧ status ≤ 599) ∧
      StoreError.occursIn "FAILED_PRECONDITION" reason = false := by
  unfold StoreError.ofStatus at h
  split at h
  · cases h
  · rename_i hreason
    refine ⟨?_, Bool.eq_false_iff.mpr hreason⟩
    split at h
    case h_6 => exact .inl rfl
    case h_7 =>
      split at h
      case isTrue hserver => exact .inr (by simpa using hserver)
      case isFalse => cases h
    all_goals cases h

/-- An unexpected answer leads to another try only if the server is too busy or has failed. -/
theorem transient_of_unexpected {base : String} {reply : StoreReply}
    (h : (unexpected base r reply).isRetryable = true) : Transient (.ok reply) := by
  obtain ⟨hstatus, hreason⟩ := transient_of_ofStatus h
  refine .failing reply hstatus (Bool.eq_false_iff.mpr fun hbody => ?_)
  rw [StoreError.occursIn_append_right _ hbody] at hreason
  cases hreason

/-- An answer that reports success may be worth another try if its body cannot be read. -/
theorem recoverable_of_garbled {α : Type} {decoder : Json.Decoder α} {reply : StoreReply}
    {e : StoreError} (hstatus : reply.status ∈ r.successes)
    (hread : reply.body.read decoder = .error e)
    (hr : (∀ x, reply.body.read decoder ≠ .ok x) → r.Unreadable reply.body) :
    Recoverable r (.ok reply) :=
  .inr ⟨reply, rfl, hstatus, hr fun x hx => by cases hread.symm.trans hx⟩

/-- The only other answers that do are those that report success and cannot be read. -/
theorem recoverable_of_read {base : String} {reply : StoreReply} {e : StoreError}
    (h : r.read base reply = .error e) (he : e.isRetryable = true) : Recoverable r (.ok reply) := by
  cases r with
  | get collection id =>
      rw [DocumentRequest.read] at h
      split at h
      · rename_i hstatus
        cases hread : reply.body.read Document.decoder with
        | ok d =>
            rw [hread] at h
            cases h
        | error e' =>
            rw [hread] at h
            cases h
            exact recoverable_of_garbled (by simp [hstatus, DocumentRequest.successes]) hread
              fun hr => hr
      · cases h
      · cases h
        exact .inl (transient_of_unexpected he)
  | create collection id fields =>
      rw [DocumentRequest.read] at h
      split at h
      · rename_i hstatus
        exact recoverable_of_garbled (by simp [hstatus, DocumentRequest.successes]) h fun hr => hr
      · rename_i hstatus
        exact recoverable_of_garbled (by simp [hstatus, DocumentRequest.successes]) h fun hr => hr
      · cases h
        cases he
      · cases h
        exact .inl (transient_of_unexpected he)
  | patch collection id fields mask precondition =>
      rw [DocumentRequest.read] at h
      split at h
      · rename_i hstatus
        exact recoverable_of_garbled (by simp [hstatus, DocumentRequest.successes]) h fun hr => hr
      · cases h
        cases he
      · cases h
        exact .inl (transient_of_unexpected he)
  | commit writes =>
      rw [DocumentRequest.read] at h
      split at h
      · rename_i hstatus
        exact recoverable_of_garbled (by simp [hstatus, DocumentRequest.successes]) h fun hr => hr
      · cases h
        exact .inl (transient_of_unexpected he)

theorem Recoverable.not_expired (h : Recoverable r a) : ¬ Expired a := by
  rintro ⟨reply, rfl, hstatus, -⟩
  rcases h with h | ⟨reply', hreply, hsuccess, -⟩
  · cases h with
    | failing _ hfailing => omega
  · cases hreply
    have := DocumentRequest.success_of_mem hsuccess
    omega

/-! ## One try -/

section Try

variable {β : Type} {own : DocumentRequest → Prop}
  {again : DocumentRequest → RequestAnswer → Prop}

/-- Another try may begin. -/
def Ready (again : DocumentRequest → RequestAnswer → Prop) (t : List ClientExchange) : Prop :=
  Sourced t → ∀ r a, (sends t).getLast? = some (r, a) → again r a ∧ ¬ Expired a

theorem ready_of_sends_eq_nil (h : sends t = []) : Ready again t := by
  intro _ r a hlast
  rw [h] at hlast
  cases hlast

theorem Ready.idle (h : Ready again t) (he : Idle e) : Ready again (t ++ [e]) := by
  intro hsourced r a hlast
  rw [sends_idle t he] at hlast
  exact h hsourced.of_append r a hlast

theorem Ready.maySend (h : Ready again t) (ht : Sourced t) : MaySend again t := by
  cases hlast : (sends t).getLast? with
  | none => exact .first (List.getLast?_eq_none_iff.mp hlast)
  | some sent => exact .again hlast (h ht _ _ hlast).1

/-- How sending a request ends after `n` requests: with the lack of a token, or with the answer to
the last request. -/
inductive Sent (r : DocumentRequest) (n : ℕ) :
    List ClientExchange → Except StoreError StoreReply → Prop
  | refused {u : List ClientExchange} (e : StoreError) (h : (sends u).length ≤ n + 2) :
      Sent r n (u ++ [⟨.token, .error e⟩]) (.error e)
  | answered {u : List ClientExchange} (token : String) (a : RequestAnswer)
      (h : (sends u).length ≤ n + 1) :
      Sent r n (u ++ [⟨.send r token, a⟩]) (a.mapError fun fault => .network fault.message)
  | unauthorized {u : List ClientExchange} (token : String) (reply : StoreReply)
      (h : (sends u).length ≤ n + 1) (hstatus : reply.status = 401) :
      Sent r n (u ++ [⟨.send r token, .ok reply⟩]) (.error (.ofStatus 401 reply.body.content))

/-- A request is sent once, and a second time if its token had expired. -/
theorem meets_send (hr : own r) (ht : Ready again t) :
    (send r).Meets (Sends own again) (Sent r (sends t).length) t := by
  refine (Program.meets_bind _ _).mpr ⟨trivial, fun (first : Except StoreError String) => ?_⟩
  cases first with
  | error e => exact .refused e (by omega)
  | ok first =>
      refine (Program.meets_bind _ _).mpr ⟨⟨hr, fun hsourced => ?_⟩,
        fun (a : RequestAnswer) => ?_⟩
      · exact ⟨t, rfl, ht.maySend hsourced.of_append⟩
      cases a with
      | error fault => exact .answered first (.error fault) (by simp)
      | ok reply =>
          change Program.Meets _ _ (if reply.status ≠ 401 then _ else _) _
          by_cases hstatus : reply.status = 401
          · rw [if_neg (not_not.mpr hstatus)]
            by_cases hexpired : saysExpired reply.body.content = true
            · rw [hexpired]
              -- the token is forgotten, and the request sent again with another one
              refine (Program.meets_bind _ _).mpr ⟨trivial, fun forgotten => ?_⟩
              refine (Program.meets_bind _ _).mpr
                ⟨trivial, fun (second : Except StoreError String) => ?_⟩
              have hsent : sends (t ++ [⟨.token, .ok first⟩] ++ [⟨.send r first, .ok reply⟩] ++
                  [⟨.invalidateToken, forgotten⟩]) = sends t ++ [(r, .ok reply)] := by
                rw [sends_idle (e := ⟨.invalidateToken, forgotten⟩) _ trivial, sends_send,
                  sends_token]
              cases second with
              | error e => exact .refused e (by rw [hsent, List.length_append]; simp)
              | ok second =>
                  refine (Program.meets_bind _ _).mpr
                    ⟨⟨hr, fun hsourced => ⟨_, rfl, ?_⟩⟩, fun a => ?_⟩
                  · refine .renewed (sends_send _ _ _ _) ⟨reply, rfl, hstatus, hexpired⟩ ?_
                    intro r' b hlast
                    rw [sends_token] at hlast
                    have ht' := hsourced.of_append.of_append.of_append.of_append
                    exact (ht ht' r' b hlast).2
                  · exact .answered second a (by rw [sends_token, hsent, List.length_append]; simp)
            · rw [Bool.eq_false_iff.mpr hexpired]
              exact .unauthorized first reply (by simp) hstatus
          · rw [if_pos hstatus]
            exact .answered first (.ok reply) (by simp)

/-- What is known after a try that began after `n` requests: it sent at most two requests, its
result is that of the last answer, and if it is worth another try then the answer may have been bad
luck. -/
structure Tried (settles : DocumentRequest → RequestAnswer → Except StoreError β → Prop) (n : ℕ)
    (u : List ClientExchange) (result : Except StoreError β) : Prop where
  grown : (sends u).length ≤ n + 2
  concluded : Sourced u → Concluded settles u result
  ready : ∀ e, result = .error e → e.isRetryable = true → Ready Recoverable u

theorem Tried.weaken
    {settles settles' : DocumentRequest → RequestAnswer → Except StoreError β → Prop} {n : ℕ}
    {result : Except StoreError β} (h : Tried settles n u result)
    (hsettles : ∀ r a, settles r a result → settles' r a result) : Tried settles' n u result where
  grown := h.grown
  concluded hsourced := (h.concluded hsourced).map (f := id) (fun _ => rfl) hsettles
  ready := h.ready

theorem Tried.idle {settles : DocumentRequest → RequestAnswer → Except StoreError β → Prop} {n : ℕ}
    {result : Except StoreError β} (h : Tried settles n u result) (he : Idle e) :
    Tried settles n (u ++ [e]) result where
  grown := (congrArg List.length (sends_idle u he)).trans_le h.grown
  concluded hsourced := (h.concluded hsourced.of_append).idle he
  ready e hresult hretry := (h.ready e hresult hretry).idle he

/-- How the answer to a request `r` is taken, and of no other. -/
def Settles (r : DocumentRequest) (read : StoreReply → Except StoreError β) (r' : DocumentRequest)
    (a : RequestAnswer) (result : Except StoreError β) : Prop := r' = r ∧ Settled read a result

theorem Sent.tried {base : String} {n : ℕ} {reply : Except StoreError StoreReply}
    (h : Sent r n u reply) : Tried (Settles r (r.read base)) n u (reply >>= r.read base) := by
  have hlast : ∀ {u : List ClientExchange} {token : String} {a : RequestAnswer},
      (sends (u ++ [⟨.send r token, a⟩])).getLast? = some (r, a) := by simp
  cases h with
  | refused e h =>
      refine ⟨?_, fun hsourced => ?_, fun e' he' hretry hsourced => ?_⟩
      · rwa [sends_token]
      · obtain ⟨reason, rfl⟩ := hsourced e (by simp)
        exact .refused rfl
      · obtain ⟨reason, rfl⟩ := hsourced e (by simp)
        cases he'
        cases hretry
  | answered token a h =>
      refine ⟨?_, fun _ => .answered hlast ⟨rfl, .read a⟩, fun e he hretry _ r' a' hlast' => ?_⟩
      · rw [sends_send, List.length_append]
        exact Nat.succ_le_succ h
      · cases hlast.symm.trans hlast'
        have hrecoverable : Recoverable r a := by
          cases a with
          | error fault => exact .inl (.unanswered fault)
          | ok reply => exact recoverable_of_read he hretry
        exact ⟨hrecoverable, hrecoverable.not_expired⟩
  | unauthorized token reply h hstatus =>
      refine ⟨?_, fun _ => .answered hlast ⟨rfl, .unauthorized reply hstatus⟩, ?_⟩
      · rw [sends_send, List.length_append]
        exact Nat.succ_le_succ h
      · rintro e he hretry
        cases he
        obtain ⟨hstatus', -⟩ := transient_of_ofStatus hretry
        omega

/-- A request is sent, and its answer is read and counted. -/
theorem meets_request (base : String) (hr : own r) (ht : Ready again t) :
    (request r (r.read base)).Meets (Sends own again)
      (Tried (Settles r (r.read base)) (sends t).length) t := by
  refine (Program.meets_bind _ _).mpr ((meets_send hr ht).mono (fun _ _ _ h => h) ?_)
  intro u reply _ hsent
  exact (Program.meets_bind _ _).mpr ⟨trivial, fun _ => hsent.tried.idle trivial⟩

/-! ## All tries -/

variable {settles : DocumentRequest → RequestAnswer → Except StoreError β → Prop}
  {attempt : Asking (Except StoreError β)}

theorem meets_jitter (limit : ℕ) (ht : Ready again t) :
    ((Retry.jitter (β := β) limit).expand (answerRetry attempt)).Meets (Sends own again)
      (fun u _ => sends u = sends t ∧ Ready again u) t := by
  by_cases hlimit : limit = 0
  · rw [Retry.jitter_eq_done hlimit]
    exact ⟨rfl, ht⟩
  · rw [Retry.jitter_eq_ask hlimit]
    exact ⟨trivial, fun drawn =>
      ⟨sends_idle (e := ⟨.jitter limit, drawn⟩) t trivial,
        ht.idle (e := ⟨.jitter limit, drawn⟩) trivial⟩⟩

theorem meets_delay (p : RetryPolicy) (k : ℕ) (e : StoreError) (ht : Ready again t) :
    ((Retry.delay (β := β) p k e).expand (answerRetry attempt)).Meets (Sends own again)
      (fun u _ => sends u = sends t ∧ Ready again u) t := by
  rw [Retry.delay]
  cases e.retryAfterMs? with
  | some after => exact ⟨rfl, ht⟩
  | none =>
      rw [Program.expand_bind, Program.meets_bind]
      exact meets_jitter _ ht

/-- What one try does all tries do: the induction is on the tries left, and a further try begins
where `again` allows a request after what was answered to the last one. -/
theorem meets_attempts {p : RetryPolicy} {operation : String}
    (hattempt : ∀ t, Ready again t →
      attempt.Meets (Sends own again) (Tried settles (sends t).length) t) (left : ℕ)
    (hagain : left = 0 ∨ ∀ r a, Recoverable r a → again r a) (k : ℕ) (ht : Ready again t) :
    ((Retry.attempts p operation k left).expand (answerRetry attempt)).Meets (Sends own again)
      (fun u result => (sends u).length ≤ (sends t).length + 2 * (left + 1) ∧
        (Sourced u → Concluded settles u result)) t := by
  induction left generalizing k t with
  | zero =>
      rw [Retry.attempts, expand_attempt]
      exact (hattempt t ht).mono (fun _ _ _ h => h) fun u result _ h => ⟨h.grown, h.concluded⟩
  | succ left ih =>
      rw [Retry.attempts, Program.expand_bind, expand_attempt, Program.meets_bind]
      refine (hattempt t ht).mono (fun _ _ _ h => h) fun u result _ h => ?_
      have hgrown := h.grown
      cases result with
      | ok b => exact ⟨by omega, h.concluded⟩
      | error e =>
          simp only
          split
          case isFalse => exact ⟨by omega, h.concluded⟩
          case isTrue hretry =>
            have hagain' := hagain.resolve_left (Nat.succ_ne_zero left)
            have hu : Ready again u := fun hsourced r a hlast =>
              (h.ready e rfl hretry hsourced r a hlast).imp_left (hagain' r a)
            rw [Program.expand_bind, Program.meets_bind]
            refine (meets_delay p k e hu).mono (fun _ _ _ h => h) fun v ms _ hv => ?_
            refine ⟨trivial, fun counted => ⟨trivial, fun waited => ?_⟩⟩
            have hcounted : Idle ⟨.count (Retry.retries operation), counted⟩ := trivial
            have hwaited : Idle ⟨.wait ms, waited⟩ := trivial
            refine (ih (.inr hagain') (k + 1) ((hv.2.idle hcounted).idle hwaited)).mono
              (fun _ _ _ h => h) fun w result _ hw => ⟨?_, hw.2⟩
            have hlength := hw.1
            rw [sends_idle _ hwaited, sends_idle _ hcounted, hv.1] at hlength
            omega

theorem meets_retrying {p : RetryPolicy} {operation : String}
    (hattempt : ∀ t, Ready again t →
      attempt.Meets (Sends own again) (Tried settles (sends t).length) t)
    (hagain : p.maxRetries = 0 ∨ ∀ r a, Recoverable r a → again r a) (ht : sends t = []) :
    (retrying p operation attempt).Meets (Sends own again)
      (fun u result => (sends u).length ≤ 2 * (p.maxRetries + 1) ∧
        (Sourced u → Concluded settles u result)) t := by
  refine (meets_attempts hattempt p.maxRetries hagain 0 (ready_of_sends_eq_nil ht)).mono
    (fun _ _ _ h => h) fun u result _ h => ⟨?_, h.2⟩
  simpa [ht] using h.1

end Try

end StoreClient

end Slideshow
