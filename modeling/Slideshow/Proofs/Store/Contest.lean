import Slideshow.Proofs.Store.Claim

/-! # A contest for a join

Only batches that claim the join of an open job write to its record, and nothing gets lost. Then a
record changes but once, so that a claim which finds it changed will find it taken: every claim is
answered, and one batch is told to join. -/

namespace Slideshow

namespace DocumentServer

variable {x y z : DocumentServer} {name : String} {who : ℕ → Prop}

/-- The record is what it was, or it was open and one of the batches has taken it over. -/
structure Taken (who : ℕ → Prop) (name : String) (x y : DocumentServer) : Prop where
  evolves : Evolves name x y
  readable : (∀ d, x.document name = some d → d.Readable) →
    ∀ d, y.document name = some d → d.Readable
  changed : y.document name = x.document name ∨ x.status? name = some .processing ∧
    y.status? name = some .joining ∧ ∃ batch, who batch ∧ y.joiner? name = some batch

theorem status?_congr (h : y.document name = x.document name) :
    y.status? name = x.status? name ∧ y.joiner? name = x.joiner? name := by
  simp [status?, joiner?, fields, h]

namespace Taken

theorem refl (who : ℕ → Prop) (name : String) (x : DocumentServer) : Taken who name x x :=
  ⟨.refl name x, fun h => h, .inl rfl⟩

theorem trans (h : Taken who name x y) (h' : Taken who name y z) : Taken who name x z where
  evolves := h.evolves.trans h'.evolves
  readable := h'.readable ∘ h.readable
  changed := by
    rcases h.changed with hxy | ⟨hopen, hjoining, hbatch⟩
    · rcases h'.changed with hyz | ⟨hopen, hrest⟩
      · exact .inl (hyz.trans hxy)
      · rw [(status?_congr hxy).1] at hopen
        exact .inr ⟨hopen, hrest⟩
    · rcases h'.changed with hyz | ⟨hopen', -⟩
      · rw [← (status?_congr hyz).1] at hjoining
        rw [← (status?_congr hyz).2] at hbatch
        exact .inr ⟨hopen, hjoining, hbatch⟩
      · cases hjoining.symm.trans hopen'

theorem mono {who' : ℕ → Prop} (h : Taken who name x y) (hwho : ∀ batch, who batch → who' batch) :
    Taken who' name x y where
  evolves := h.evolves
  readable := h.readable
  changed := h.changed.imp_right fun ⟨hopen, hjoining, batch, hbatch, hjoiner⟩ =>
    ⟨hopen, hjoining, batch, hwho batch hbatch, hjoiner⟩

/-- A record that is joined stays as it is. -/
theorem document_eq (h : Taken who name x y) (hx : x.status? name = some .joining) :
    y.document name = x.document name := by
  rcases h.changed with hsame | ⟨hopen, -⟩
  · exact hsame
  · cases hx.symm.trans hopen

/-- A record that has changed is joined. -/
theorem joining (h : Taken who name x y) (hne : y.document name ≠ x.document name) :
    y.status? name = some .joining := by
  rcases h.changed with hsame | ⟨-, hjoining, -⟩
  · exact (hne hsame).elim
  · exact hjoining

end Taken

/-- A record for whose join batches may contend: open, or joined by one of them. -/
structure Contested (name : String) (x : DocumentServer) : Prop where
  dated : x.Dated name
  readable : ∀ d, x.document name = some d → d.Readable
  open_or_joined : x.status? name = some .processing ∨
    x.status? name = some .joining ∧ ∃ batch, x.joiner? name = some batch

theorem Contested.later (hx : Contested name x) (h : Taken who name x y) : Contested name y where
  dated := h.evolves.dated hx.dated
  readable := h.readable hx.readable
  open_or_joined := by
    rcases h.changed with hsame | ⟨-, hjoining, batch, -, hjoiner⟩
    · rw [(status?_congr hsame).1, (status?_congr hsame).2]
      exact hx.open_or_joined
    · exact .inr ⟨hjoining, batch, hjoiner⟩

/-- The record is joined, and a batch was told whether by itself. -/
def Told (name : String) (batch : ℕ) (yes : Bool) (x : DocumentServer) : Prop :=
  x.status? name = some .joining ∧ ∃ joiner, x.joiner? name = some joiner ∧
    (yes = true ↔ joiner = batch)

theorem Told.later {batch : ℕ} {yes : Bool} (h : Told name batch yes x) (hxy : Taken who name x y) :
    Told name batch yes y := by
  obtain ⟨hstatus, hjoiner⟩ := status?_congr (hxy.document_eq h.1)
  rw [Told, hstatus, hjoiner]
  exact h

end DocumentServer

namespace RecordStore

open StoreClient DocumentServer

variable {s : RecordStore} {id : JobId} {x y : DocumentServer} {batch : ℕ} {who : ℕ → Prop}

/-- What anyone who claims the join does. -/
abbrev Anyone (s : RecordStore) (id : JobId) : DocumentServer → DocumentServer → Prop :=
  Taken (fun _ => True) (s.nameOf id)

/-- What one batch does. -/
abbrev Alone (s : RecordStore) (id : JobId) (batch : ℕ) : DocumentServer → DocumentServer → Prop :=
  Taken (fun n => n = batch) (s.nameOf id)

theorem among_taken (s : RecordStore) (id : JobId) (batch : ℕ) :
    Among (Anyone s id) (Alone s id batch) where
  refl := Taken.refl _ _
  trans := Taken.trans
  idle := Taken.refl _ _

theorem stable_taken (s : RecordStore) (id : JobId) (x : DocumentServer) :
    Stable (Anyone s id) (Anyone s id x) :=
  fun _ _ hyz hy => hy.trans hyz

/-- A record that can be read is loaded. -/
theorem assures_load_none (hx : Contested (s.nameOf id) x) :
    (s.load id).Assures (ClientCall.Answered s.config .none) (Anyone s id) (Alone s id batch)
      (fun result z => ∃ y d stored, Anyone s id x y ∧ Anyone s id y z ∧ result = .ok (some stored) ∧
        y.document (s.nameOf id) = some d ∧ stored.version = d.updateTime ∧
        y.status? (s.nameOf id) = some stored.record.status ∧
        y.joiner? (s.nameOf id) = stored.record.joiner) x := by
  refine assures_load (I := Anyone s id x) (among_taken s id batch) (stable_taken s id x) ?_ ?_ ?_ ?_
    (Taken.refl _ _ x)
  · rintro result y z hyz ⟨y', d, stored, hx, hy', hd⟩
    exact ⟨y', d, stored, hx, hy'.trans hyz, hd⟩
  · exact fun y hy => .inr (DocumentRequest.exists_served_get (hx.later hy).readable)
  · intro y now hy
    have hcontested := hx.later hy
    obtain ⟨d, v, hd, -⟩ := hcontested.dated
    have hstatus : ∃ status, y.status? (s.nameOf id) = some status := by
      rcases hcontested.open_or_joined with h | ⟨h, -⟩ <;> exact ⟨_, h⟩
    obtain ⟨status, hstatus⟩ := hstatus
    rw [DocumentServer.status?, fields_of_document hd] at hstatus
    obtain ⟨r, hr⟩ := JobRecord.exists_ofDocument hstatus id now
    obtain ⟨hstatus, hjoiner⟩ := JobRecord.of_ofDocument hr
    rw [← fields_of_document hd] at hstatus hjoiner
    refine ⟨y, d, ⟨r, d.updateTime⟩, hy, .refl _ _ y, ?_, hd, rfl, hstatus, hjoiner⟩
    rw [hd, loaded, hr]
    rfl
  · rintro y e - (h | h) <;> exact h.elim

/-- A record that was taken over is joined by the batch that did. -/
theorem joined_claimWrite (hbatch : batch < UInt32.size) (name version : String) (now : Timestamp)
    (time : String) :
    (x.write name (claimWrite batch version now) time).status? name = some .joining ∧
      (x.write name (claimWrite batch version now) time).joiner? name = some batch := by
  rw [DocumentServer.status?, DocumentServer.joiner?, fields_write, status?_claimWrite,
    joiner?_claimWrite hbatch]
  exact ⟨rfl, rfl⟩

/-- To take an open record over is what a batch does. -/
theorem taken_claimWrite (hbatch : batch < UInt32.size)
    (hopen : x.status? (s.nameOf id) = some .processing) {time : String} (htime : time ∉ x.times)
    (version : String) (now : Timestamp) :
    Alone s id batch x (x.write (s.nameOf id) (claimWrite batch version now) time) := by
  obtain ⟨hstatus, hjoiner⟩ := joined_claimWrite (x := x) hbatch (s.nameOf id) version now time
  refine ⟨.of_write htime fun hclosed => (hclosed hopen).elim, fun hreadable => ?_,
    .inr ⟨hopen, hstatus, batch, rfl, hjoiner⟩⟩
  rw [document_write]
  rintro _ ⟨⟩
  exact readable_written hreadable (fun _ h => readable_claimWrite h batch version now) time

/-- A write for the version in which a record was open takes it over, unless another batch has. -/
theorem writes_claim_none {d : Document} {v : String} (hbatch : batch < UInt32.size)
    (hx : Contested (s.nameOf id) x) (hd : x.document (s.nameOf id) = some d)
    (hv : d.updateTime = some v) (hgiven : v ∈ x.times)
    (hopen : x.status? (s.nameOf id) = some .processing) (hxy : Anyone s id x y) (now : Timestamp) :
    Writes s.config .none (Anyone s id) (Alone s id batch)
      (.patch s.config.jobs id
        ([("status", .string JobStatus.joining.text), ("joiner", .ofNat batch)] ++
          [("updated_at", .ofTimestamp now)]) (["status", "joiner"] ++ ["updated_at"])
        (some { updateTime := some v }))
      (s.nameOf id) (claimWrite batch v now) (fun e => e.isPreconditionFailed = true)
      (Anyone s id y) (fun (result : Except StoreError Unit) z => Anyone s id y z ∧
        (result = .ok () → Told (s.nameOf id) batch true z) ∧
        ∀ e, result = .error e →
          e.isPreconditionFailed = true ∧ z.status? (s.nameOf id) = some .joining) where
  write := rfl
  answered z hz := by
    have hreadable := (hx.later (hxy.trans hz)).readable
    exact .inr (DocumentRequest.exists_served rfl
      (readable_written hreadable fun _ h => readable_claimWrite h batch v now))
  written z time hz hadmitted htime := by
    have hd' := document_of_claimWrite (hxy.trans hz).evolves hd hgiven hadmitted
    obtain ⟨hstatus, -⟩ := status?_congr (hd'.trans hd.symm)
    have hwrite : Alone s id batch z (z.write (s.nameOf id) (claimWrite batch v now) time) :=
      taken_claimWrite hbatch (hstatus.trans hopen) htime v now
    obtain ⟨hstatus', hjoiner'⟩ := joined_claimWrite (x := z) hbatch (s.nameOf id) v now time
    refine ⟨hwrite, fun _ => ⟨hz.trans (hwrite.mono fun _ _ => trivial), fun _ => ?_, ?_⟩, ?_⟩
    · exact ⟨hstatus', batch, hjoiner', by simp⟩
    · exact fun _ h => nomatch h
    · exact fun h => h.elim
  refused z e hz hadmitted he := by
    refine ⟨hz, fun h => (nomatch h), fun e' he' => ?_⟩
    cases he'
    -- the document has changed since it was loaded, which it does only by being joined
    refine ⟨he, (hxy.trans hz).joining fun hsame => hadmitted ?_⟩
    rintro p ⟨⟩
    refine ⟨fun _ h => (nomatch h), ?_⟩
    rintro t ⟨⟩
    exact ⟨d, hsame.trans hd, hv⟩
  lost z e _ h := by
    rcases h with h | ⟨h, -⟩ <;> exact h.elim

/-- A claim that finds the record open takes it over, or somebody else has and it begins again. -/
theorem assures_takeOver_none {left : ℕ} {d : Document} {v : String} (hbatch : batch < UInt32.size)
    (hx : Contested (s.nameOf id) x) (hd : x.document (s.nameOf id) = some d)
    (hv : d.updateTime = some v) (hgiven : v ∈ x.times)
    (hopen : x.status? (s.nameOf id) = some .processing) (hxy : Anyone s id x y)
    (hclaim : ∀ {z}, Contested (s.nameOf id) z → z.status? (s.nameOf id) = some .joining →
      (s.claim id batch left).Assures (ClientCall.Answered s.config .none) (Anyone s id)
        (Alone s id batch)
        (fun result z => ∃ yes, result = .ok yes ∧ Told (s.nameOf id) batch yes z) z) :
    (s.takeOver id batch left v).Assures (ClientCall.Answered s.config .none) (Anyone s id)
      (Alone s id batch)
      (fun result z => ∃ yes, result = .ok yes ∧ Told (s.nameOf id) batch yes z) y := by
  refine assures_takeOver (among_taken s id batch) (stable_taken s id y) ?_
    (writes_claim_none hbatch hx hd hv hgiven hopen hxy) ?_ ?_ ?_ (.refl _ _ y)
  · rintro result z z' hzz' ⟨hz, htold, herror⟩
    refine ⟨hz.trans hzz', fun h => (htold h).later hzz', fun e he => ?_⟩
    obtain ⟨hfailed, hjoining⟩ := herror e he
    exact ⟨hfailed, (status?_congr (hzz'.document_eq hjoining)).1.trans hjoining⟩
  · exact fun z hz => ⟨true, rfl, hz.2.1 rfl⟩
  · exact fun e z hz _ => hclaim (hx.later (hxy.trans hz.1)) (hz.2.2 e rfl).2
  · exact fun e z hz hfailed => (hfailed (hz.2.2 e rfl).1).elim

/-- A record that is joined tells a batch whether it is its own. -/
theorem told_of_joining {stored : StoredRecord} (hy : Contested (s.nameOf id) y)
    (hstatus : y.status? (s.nameOf id) = some stored.record.status)
    (hjoiner : y.joiner? (s.nameOf id) = stored.record.joiner)
    (hclosed : stored.record.status ≠ .processing) :
    Told (s.nameOf id) batch (stored.record.joinOwnedBy batch) y := by
  obtain ⟨hjoining, joiner, hjoined⟩ := hy.open_or_joined.resolve_left fun h =>
    hclosed (Option.some.inj (hstatus.symm.trans h))
  have hrecord : stored.record.status = .joining := Option.some.inj (hstatus.symm.trans hjoining)
  refine ⟨hjoining, joiner, hjoined, ?_⟩
  rw [hjoined] at hjoiner
  simp [JobRecord.joinOwnedBy, hrecord, ← hjoiner]

/-- A claim is told whether its batch joins. The induction is on the tries that are left: a try that
finds the record open may find it taken when it writes, and then one more is enough. -/
theorem assures_claim_none (hbatch : batch < UInt32.size) (left : ℕ)
    (hx : Contested (s.nameOf id) x)
    (hleft : x.status? (s.nameOf id) = some .joining ∧ 0 < left ∨ 1 < left) :
    (s.claim id batch left).Assures (ClientCall.Answered s.config .none) (Anyone s id)
      (Alone s id batch)
      (fun result z => ∃ yes, result = .ok yes ∧ Told (s.nameOf id) batch yes z) x := by
  induction left generalizing x with
  | zero => omega
  | succ left ih =>
      rw [claim_succ, Program.assures_bind]
      refine (assures_load_none hx).weaken ?_
      rintro _ z ⟨y, d, stored, hxy, hyz, rfl, hd, hversion, hstatus, hjoiner⟩
      have hy := hx.later hxy
      rw [goOn]
      by_cases hopen : stored.record.status = .processing
      · have hleft' : 0 < left := by
          rcases hleft with ⟨hjoining, -⟩ | hleft
          · rw [(status?_congr (hxy.document_eq hjoining)).1, hjoining, hopen] at hstatus
            cases hstatus
          · omega
        rw [hopen] at hstatus
        have howned : ¬ stored.record.joinOwnedBy batch = true := by
          simp [JobRecord.joinOwnedBy, hopen]
        rw [if_neg howned, if_neg (not_not_intro hopen)]
        obtain ⟨d', v, hd', hv, hgiven⟩ := hy.dated
        cases hd.symm.trans hd'
        rw [hversion, hv]
        exact assures_takeOver_none hbatch hy hd hv hgiven hstatus hyz
          fun hz hjoining => ih hz (.inl ⟨hjoining, hleft'⟩)
      · have htold : Told (s.nameOf id) batch (stored.record.joinOwnedBy batch) z :=
          (told_of_joining hy hstatus hjoiner hopen).later hyz
        by_cases howned : stored.record.joinOwnedBy batch = true
        · rw [if_pos howned]
          exact ⟨true, rfl, howned ▸ htold⟩
        · rw [if_neg howned, if_pos hopen]
          rw [Bool.not_eq_true] at howned
          exact ⟨false, rfl, howned ▸ htold⟩

end RecordStore

/-! ## How many calls a claim makes -/

/-- How many calls are made at most while something that makes `n` calls is tried again and again. -/
def RetryPolicy.calls (p : RetryPolicy) (n : ℕ) : ℕ := n + p.maxRetries * (n + 3)

namespace StoreClient

variable {β : Type}

theorem within_send (r : DocumentRequest) : (send r).Within 5 := by
  have hsend : ∀ t, (sendWith r t).Within 1 := fun t => ⟨Nat.one_pos, fun _ => trivial⟩
  refine (Program.within_ask ClientCall.token).bind (n := 4) fun a => ?_
  cases a with
  | error e => trivial
  | ok first =>
      refine (hsend first).bind (n := 3) fun result => ?_
      cases result with
      | error e => trivial
      | ok reply =>
          simp only
          split
          · trivial
          · split
            · trivial
            · refine (Program.within_ask ClientCall.invalidateToken).bind (n := 2) fun _ => ?_
              refine (Program.within_ask ClientCall.token).bind (n := 1) fun a => ?_
              cases a with
              | error e => trivial
              | ok second => exact hsend second

theorem within_request (r : DocumentRequest) (read : StoreReply → Except StoreError β) :
    (request r read).Within 6 :=
  (within_send r).bind (n := 1) fun _ => ⟨Nat.one_pos, fun _ => trivial⟩

theorem within_delay {attempt : Asking (Except StoreError β)} (p : RetryPolicy) (k : ℕ)
    (e : StoreError) :
    ((Retry.delay (β := β) p k e).expand (answerRetry attempt)).Within 1 := by
  rw [Retry.delay]
  split
  · trivial
  · rw [Program.expand_bind]
    refine Program.Within.bind (m := 1) (n := 0) ?_ fun _ => trivial
    by_cases hlimit : p.backoff k = 0
    · have hjitter : Retry.jitter (β := β) (p.backoff k) = .done (0 : ℕ) := if_pos hlimit
      rw [hjitter]
      trivial
    · have hjitter : Retry.jitter (β := β) (p.backoff k) = Retry.ask (.jitter (p.backoff k)) :=
        if_neg hlimit
      rw [hjitter]
      exact ⟨Nat.one_pos, fun _ => trivial⟩

theorem within_attempts {attempt : Asking (Except StoreError β)} {n : ℕ} (h : attempt.Within n)
    (p : RetryPolicy) (operation : String) (k left : ℕ) :
    ((Retry.attempts p operation k left).expand (answerRetry attempt)).Within
      (n + left * (n + 3)) := by
  have htry : ((Retry.attempt (β := β)).expand (answerRetry attempt)) = attempt :=
    Program.expand_ask RetryCall.attempt
  induction left generalizing k with
  | zero =>
      rw [Retry.attempts, htry]
      exact h.mono (by omega)
  | succ left ih =>
      rw [Retry.attempts, Program.expand_bind, htry, Nat.succ_mul]
      refine (h.bind (n := 3 + (n + left * (n + 3))) fun result => ?_).mono (by omega)
      cases result with
      | ok b => trivial
      | error e =>
          simp only
          split
          · rw [Program.expand_bind]
            refine ((within_delay p k e).bind (n := 2 + (n + left * (n + 3))) fun _ => ?_).mono
              (by omega)
            rw [Program.expand_bind]
            refine ((Program.within_ask (ClientCall.count _)).bind
              (n := 1 + (n + left * (n + 3))) fun _ => ?_).mono (by omega)
            rw [Program.expand_bind]
            exact (Program.within_ask (ClientCall.wait _)).bind fun _ => ih (k + 1)
          · trivial

theorem within_retrying {attempt : Asking (Except StoreError β)} {n : ℕ} (h : attempt.Within n)
    (p : RetryPolicy) (operation : String) :
    (StoreClient.retrying p operation attempt).Within (p.calls n) :=
  within_attempts h p operation 0 p.maxRetries

end StoreClient

namespace RecordStore

/-- How many calls a claim makes at most, each of which is answered once. -/
def claimCalls (s : RecordStore) : ℕ := maxClaims * (2 * s.config.retry.calls 6 + 3)

theorem within_load (s : RecordStore) (id : JobId) :
    (s.load id).Within (s.config.retry.calls 6 + 1) := by
  refine (StoreClient.within_retrying (StoreClient.within_request _ _) _ _).bind fun result => ?_
  cases result with
  | error e => trivial
  | ok found =>
      cases found with
      | none => trivial
      | some d => exact ⟨Nat.one_pos, fun _ => trivial⟩

theorem within_patch (s : RecordStore) (operation : String) (id : JobId) (fields : Fields)
    (mask : List String) (p : Option Precondition) :
    (s.patch operation id fields mask p).Within (1 + s.config.retry.calls 6) :=
  (Program.within_ask ClientCall.now).bind fun _ =>
    StoreClient.within_retrying (StoreClient.within_request _ _) _ _

theorem within_claim (s : RecordStore) (id : JobId) (batch left : ℕ) :
    (s.claim id batch left).Within (left * (2 * s.config.retry.calls 6 + 3)) := by
  induction left with
  | zero => trivial
  | succ left ih =>
      rw [claim, Nat.succ_mul]
      refine ((within_load s id).bind (n := s.config.retry.calls 6 + 2 +
        left * (2 * s.config.retry.calls 6 + 3)) fun result => ?_).mono (by omega)
      cases result with
      | error e => trivial
      | ok found =>
          cases found with
          | none => trivial
          | some stored =>
              simp only
              split
              · trivial
              · split
                · trivial
                · split
                  · trivial
                  · refine ((within_patch s _ id _ _ _).bind
                      (n := 1 + left * (2 * s.config.retry.calls 6 + 3)) fun result => ?_).mono
                        (by omega)
                    cases result with
                    | ok d => trivial
                    | error e =>
                        simp only
                        split
                        · exact (Program.within_ask (ClientCall.count _)).bind fun _ => ih
                        · trivial

theorem within_perform_claimJoin (s : RecordStore) (id : JobId) (batch : ℕ) :
    (s.perform (.claimJoin id batch)).Within s.claimCalls := by
  have hanswer : (forWorker (s.claimJoin id batch)).Within s.claimCalls :=
    (within_claim s id batch maxClaims).bind (n := 0) fun _ => trivial
  exact Program.Within.bind (n := 0) hanswer fun _ => trivial

/-! ## Any number of claims -/

section Contest

open DocumentServer

variable {s : RecordStore} {id : JobId} {x : DocumentServer}

/-- The call is a claim by a batch with a 32-bit number. -/
def Claims (id : JobId) (c : StoreCall) : Prop :=
  ∃ batch, c = .claimJoin id batch ∧ batch < UInt32.size

/-- The claims of a contest share a record that is taken once; every claim is told by whom. -/
def contest (s : RecordStore) (id : JobId) :
    Sharing s.perform (ClientCall.Answered s.config .none) where
  Evolves := Anyone s id
  refl := .refl _ _
  trans := .trans
  own c := Taken (fun batch => c = .claimJoin id batch) (s.nameOf id)
  evolves_of_own h := h.mono fun _ _ => trivial
  ends c r x := ∃ batch yes, c = .claimJoin id batch ∧ r = ⟨.claimJoin id batch, .ok yes⟩ ∧
    Told (s.nameOf id) batch yes x
  ends_later := by
    rintro c r x y ⟨batch, yes, hc, hr, htold⟩ hxy
    exact ⟨batch, yes, hc, hr, htold.later hxy⟩

theorem contest_starts {c : StoreCall} (hc : Claims id c) (hx : Contested (s.nameOf id) x) :
    (contest s id).Starts c x := by
  obtain ⟨batch, rfl, hbatch⟩ := hc
  rw [Sharing.Starts, perform, Program.assures_bind]
  have hclaim := assures_claim_none hbatch maxClaims hx (.inr (by decide))
  refine assures_forWorker.mpr (hclaim.mono (fun y z hyz => ?_) ?_)
  · exact hyz.mono fun n hn => by rw [hn]
  · rintro _ z ⟨yes, rfl, htold⟩
    exact ⟨batch, yes, rfl, rfl, htold⟩

/-- A record that was taken over was so by a run. -/
theorem exists_taker (hx : Contested (s.nameOf id) x)
    (hopen : x.status? (s.nameOf id) = some .processing) {t : System s.perform DocumentServer}
    (h : System.Reaches (ClientCall.Answered s.config .none) (fun _ => Claims id) ⟨x, []⟩ t)
    (ht : t.shared.status? (s.nameOf id) = some .joining) :
    ∃ d ∈ t.attempts, ∃ batch, d.message = .claimJoin id batch ∧
      t.shared.joiner? (s.nameOf id) = some batch := by
  induction h with
  | refl => cases hopen.symm.trans ht
  | @tail t₁ t₂ hreach hstep ih =>
      have hsound := (Sharing.sound_start (S := contest s id) x).reaches
        (fun _ m hm => contest_starts hm hx) hreach
      -- the run that took it over is still there, whoever made the step
      have hkept : ∀ d ∈ t₁.attempts, ∃ d' ∈ t₂.attempts, d'.message = d.message := by
        intro d hd
        obtain ⟨d', hd', hmessage, -⟩ := hstep.attempt_after hd
        exact ⟨d', hd', hmessage⟩
      have hbefore : t₂.shared.document (s.nameOf id) = t₁.shared.document (s.nameOf id) →
          ∃ d ∈ t₂.attempts, ∃ batch, d.message = .claimJoin id batch ∧
            t₂.shared.joiner? (s.nameOf id) = some batch := by
        intro hsame
        obtain ⟨hstatus, hjoiner⟩ := status?_congr hsame
        obtain ⟨d, hd, batch, hbatch, hjoined⟩ := ih (hstatus ▸ ht)
        obtain ⟨d', hd', hmessage⟩ := hkept d hd
        exact ⟨d', hd', batch, hmessage.trans hbatch, hjoiner.trans hjoined⟩
      rcases hsound.own_step hstep with hshared | ⟨d, hd, htaken⟩
      · exact hbefore (by rw [hshared])
      · rcases htaken.changed with hsame | ⟨-, -, batch, hbatch, hjoined⟩
        · exact hbefore hsame
        · obtain ⟨d', hd', hmessage⟩ := hkept d hd
          exact ⟨d', hd', batch, hmessage.trans hbatch, hjoined⟩

/-- The number of claims that are made and what they are told. -/
theorem contest_settles (hx : Contested (s.nameOf id) x)
    (hopen : x.status? (s.nameOf id) = some .processing) {t : System s.perform DocumentServer}
    (h : System.Reaches (ClientCall.Answered s.config .none) (fun _ => Claims id) ⟨x, []⟩ t)
    (hsome : t.attempts ≠ []) (hover : ∀ d ∈ t.attempts, ∃ r, d.rest = .done r) :
    ∃! batch, ∃ d ∈ t.attempts, d.rest = .done ⟨.claimJoin id batch, .ok true⟩ := by
  have hsound := (Sharing.sound_start (S := contest s id) x).reaches
    (fun _ _ hc => contest_starts hc hx) h
  have htold : ∀ d ∈ t.attempts, ∃ batch yes, d.message = .claimJoin id batch ∧
      d.rest = .done ⟨.claimJoin id batch, .ok yes⟩ ∧ Told (s.nameOf id) batch yes t.shared := by
    intro d hd
    obtain ⟨r, hr⟩ := hover d hd
    obtain ⟨batch, yes, hm, rfl, htold⟩ := hsound.ends hd hr
    exact ⟨batch, yes, hm, hr, htold⟩
  obtain ⟨d, hd⟩ := List.exists_mem_of_ne_nil _ hsome
  obtain ⟨-, -, -, -, hjoining, -⟩ := htold d hd
  obtain ⟨d, hd, batch, hm, hjoined⟩ := exists_taker hx hopen h hjoining
  refine ⟨batch, ⟨d, hd, ?_⟩, ?_⟩
  · obtain ⟨batch', yes, hm', hr, -, joiner, hjoiner, hyes⟩ := htold d hd
    cases hm.symm.trans hm'
    cases hjoined.symm.trans hjoiner
    rw [hr, hyes.mpr rfl]
  · rintro batch' ⟨d', hd', hr'⟩
    obtain ⟨batch'', yes, -, hr, -, joiner, hjoiner, hyes⟩ := htold d' hd'
    cases hr.symm.trans hr'
    cases hjoined.symm.trans hjoiner
    exact (hyes.mp rfl).symm

/-- A claim is over after a number of calls, all of which can be answered. -/
theorem contest_proceeds (hx : Contested (s.nameOf id) x) {t : System s.perform DocumentServer}
    (h : System.Reaches (ClientCall.Answered s.config .none) (fun _ => Claims id) ⟨x, []⟩ t)
    {d : Attempt s.perform} (hd : d ∈ t.attempts) :
    d.trace.length ≤ s.claimCalls ∧
      (∀ request next, d.rest = .call request next →
        ∃ a y, ClientCall.Answered s.config .none request t.shared a y) ∧
      ∀ r, d.rest = .done r → ∃ batch yes, r = ⟨.claimJoin id batch, .ok yes⟩ := by
  have hsound := (Sharing.sound_start (S := contest s id) x).reaches
    (fun _ _ hc => contest_starts hc hx) h
  refine ⟨?_, fun request next hrest => hsound.exists_answer hd hrest, fun r hr => ?_⟩
  · obtain ⟨batch, hm, -⟩ := h.message hd
    have hwithin := within_perform_claimJoin s id batch
    rw [← hm] at hwithin
    exact hwithin.length_le d.leads
  · obtain ⟨batch, yes, -, hr, -⟩ := hsound.ends hd hr
    exact ⟨batch, yes, hr⟩

/-- A step of calls that contend for a join, where anything may get lost. -/
abbrev ContentionStep (s : RecordStore) (id : JobId) :
    System s.perform DocumentServer → System s.perform DocumentServer → Prop :=
  System.Step (ClientCall.Answered s.config .any) fun _ => StoreCall.Contends id

/-- A step of claims only, where nothing gets lost. -/
abbrev ContestStep (s : RecordStore) (id : JobId) :
    System s.perform DocumentServer → System s.perform DocumentServer → Prop :=
  System.Step (ClientCall.Answered s.config .none) fun _ => Claims id

/-- An open record is handed over. -/
def Joins (s : RecordStore) (id : JobId) (t t' : System s.perform DocumentServer) : Prop :=
  t.shared.status? (s.nameOf id) = some .processing ∧
    t'.shared.status? (s.nameOf id) = some .joining

/-- Claims swap the owner of a join at most once, and whoever is told to join owns it, in every
order of claims, other calls, losses and crashes. Where only claims are made and nothing gets lost,
all of them are answered within a number of calls, and one batch is told to join. -/
theorem claims_agree (s : RecordStore) (id : JobId) (x : DocumentServer)
    (hx : x.Dated (s.nameOf id)) :
    (∀ t, Relation.ReflTransGen (ContentionStep s id) ⟨x, []⟩ t →
      (∀ d ∈ t.attempts, ∀ batch, d.rest = .done ⟨.claimJoin id batch, .ok true⟩ →
        t.shared.joiner? (s.nameOf id) = some batch) ∧
      ∀ t₁ t₂ t₃, ContentionStep s id t t₁ → Joins s id t t₁ →
        Relation.ReflTransGen (ContentionStep s id) t₁ t₂ → ContentionStep s id t₂ t₃ →
        ¬ Joins s id t₂ t₃) ∧
    ((∀ d, x.document (s.nameOf id) = some d → d.Readable) →
      x.status? (s.nameOf id) = some .processing →
      ∀ t, Relation.ReflTransGen (ContestStep s id) ⟨x, []⟩ t →
        (∀ d ∈ t.attempts,
          d.trace.length ≤ s.claimCalls ∧
          (∀ request next, d.rest = .call request next →
            ∃ a y, ClientCall.Answered s.config .none request t.shared a y) ∧
          ∀ r, d.rest = .done r → ∃ batch yes, r = ⟨.claimJoin id batch, .ok yes⟩) ∧
        (t.attempts ≠ [] → (∀ d ∈ t.attempts, ∃ r, d.rest = .done r) →
          ∃! batch, ∃ d ∈ t.attempts, d.rest = .done ⟨.claimJoin id batch, .ok true⟩)) := by
  refine ⟨fun t ht => ?_, fun hreadable hopen t ht => ?_⟩
  · have hstarts : ∀ (t : System s.perform DocumentServer) (c : StoreCall), c.Contends id →
        (contention s id).Starts c x := fun _ c hc => contention_starts hc hx
    have hsound := (Sharing.sound_start (S := contention s id) x).reaches hstarts ht
    refine ⟨fun d hd batch hr => (hsound.ends hd hr batch rfl).2, ?_⟩
    intro t₁ t₂ t₃ hstep hjoins hreach _ hagain
    have hevolves := (hsound.step hstarts hstep).evolves_reaches hstarts hreach
    refine (hevolves.closed ?_).1 hagain.1
    rw [hjoins.2]
    exact fun h => nomatch h
  · have hcontested : Contested (s.nameOf id) x := ⟨hx, hreadable, .inl hopen⟩
    exact ⟨fun d hd => contest_proceeds hcontested ht hd, contest_settles hcontested hopen ht⟩

end Contest

/-! ## An open job that one batch claims -/

/-- The record of an open job. -/
def openDocument : Document where
  name := some (jobStore.nameOf "holiday")
  fields := some [("status", .string "processing")]
  updateTime := some "10:00"

/-- A server that has one document. -/
def openServer : DocumentServer where
  document name := if name = jobStore.nameOf "holiday" then some openDocument else none
  times := ["10:00"]

theorem document_openServer :
    openServer.document (jobStore.nameOf "holiday") = some openDocument := by
  simp [openServer]

theorem openServer_dated : openServer.Dated (jobStore.nameOf "holiday") :=
  ⟨_, "10:00", document_openServer, rfl, List.mem_singleton_self _⟩

theorem openServer_readable :
    ∀ d, openServer.document (jobStore.nameOf "holiday") = some d → d.Readable := by
  rw [document_openServer]
  rintro _ ⟨⟩ _ ⟨⟩
  exact ⟨List.pairwise_singleton _ _, by simp [StoreValue.Readable, Json.maxDepth]⟩

theorem status?_openServer :
    openServer.status? (jobStore.nameOf "holiday") = some .processing := by
  simp [DocumentServer.status?, DocumentServer.fields, document_openServer]
  rfl

/-- A batch that claims the open job alone is told to join. -/
theorem claims_agree_lone :
    openServer.Dated (jobStore.nameOf "holiday") ∧
      ∃ t, Relation.ReflTransGen (ContestStep jobStore "holiday") ⟨openServer, []⟩ t ∧
        ∃ d ∈ t.attempts, d.rest = .done ⟨.claimJoin "holiday" 3, .ok true⟩ := by
  have hclaim : Claims "holiday" (.claimJoin "holiday" 3) := ⟨3, rfl, by decide⟩
  have hstarts := contest_starts hclaim
    ⟨openServer_dated, openServer_readable, .inl status?_openServer⟩
  obtain ⟨u, y, r, hu, hr, batch, yes, hbatch, rfl, -⟩ :=
    (Program.Assures.alone hstarts (.refl _ _)).exists_run
  cases hbatch
  have hreach : Relation.ReflTransGen (ContestStep jobStore "holiday") ⟨openServer, []⟩
      ⟨y, [⟨_, _, _, hr, false⟩]⟩ := System.Reaches.deliver hclaim hr hu
  obtain ⟨-, hsettles⟩ := (claims_agree jobStore "holiday" openServer openServer_dated).2
    openServer_readable status?_openServer _ hreach
  obtain ⟨batch, ⟨d, hd, htrue⟩, -⟩ := hsettles (List.cons_ne_nil _ _) fun d hd => by
    obtain rfl := List.mem_singleton.mp hd
    exact ⟨_, rfl⟩
  obtain rfl := List.mem_singleton.mp hd
  cases htrue
  exact ⟨openServer_dated, _, hreach, _, hd, rfl⟩

end RecordStore

end Slideshow
