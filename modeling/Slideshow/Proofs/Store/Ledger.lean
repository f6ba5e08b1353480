import Slideshow.Store.Ledger
import Slideshow.Proofs.Program.Trace
import Mathlib.Data.List.Infix

/-! # What a call does to a record

On a job that is known, every call of the record store is answered with `StoreCall.reply` and
replaces the record by `StoreCall.change`. Nothing a worker calls ever takes back an output, a
status or an owner of the join: the record only evolves. -/

namespace Slideshow

/-! ## One record of the ledger -/

namespace Ledger

theorem id_of_get? {l : Ledger} {id : JobId} {r : JobRecord} (h : l.get? id = some r) :
    r.id = id := by
  simpa using List.find?_some h

theorem get?_insert {l : Ledger} {id : JobId} {r r' : JobRecord} (h : l.get? id = some r)
    (hid : r'.id = id) : (l.insert r').get? id = some r' := by
  subst hid
  have hknown : (l.get? r'.id).isSome = true := by rw [h, Option.isSome_some]
  rw [insert, if_pos hknown]
  simp only [get?] at h ⊢
  generalize l.records = records at h
  induction records with
  | nil => cases h
  | cons first rest ih =>
      by_cases hfirst : first.id = r'.id
      · simp [hfirst]
      · have hrest : rest.find? (fun r => r.id == r'.id) = some r := by
          simpa [hfirst] using h
        simpa [hfirst] using ih hrest

theorem get?_insert_of_ne {l : Ledger} {id : JobId} {r' : JobRecord} (hid : r'.id ≠ id) :
    (l.insert r').get? id = l.get? id := by
  rw [insert]
  split
  · simp only [get?]
    generalize l.records = records
    induction records with
    | nil => rfl
    | cons first rest ih =>
        by_cases hfirst : first.id = r'.id
        · simpa [hfirst, hid] using ih
        · by_cases hfound : first.id = id
          · subst hfound
            simp [hfirst]
          · simpa [hfirst, hfound] using ih
  · simp [get?, List.find?_append, hid]

end Ledger

theorem JobRecord.outputs_withOutput (r : JobRecord) (output : BatchOutput) :
    (r.withOutput output).outputs =
      if output ∈ r.outputs then r.outputs else r.outputs ++ [output] := by
  cases h : r.batches with
  | none => simp [withOutput, outputs, h]
  | some summary =>
      simp only [withOutput, outputs, h, Option.getD_some, Option.map_some, List.contains_iff_mem]
      split <;> rfl

theorem JobRecord.expectedBatches_withOutput (r : JobRecord) (output : BatchOutput) :
    (r.withOutput output).expectedBatches = r.expectedBatches := by
  cases h : r.batches with
  | none => simp [withOutput, expectedBatches, h]
  | some summary =>
      simp only [withOutput, expectedBatches, h, Option.getD_some, Option.map_some]
      split <;> rfl

namespace StoreCall

/-- The answer to a call about a record. -/
def reply : (c : StoreCall) → JobRecord → c.Reply
  | load _, r => some r
  | claimJoin _ batch, r => r.joinOwnedBy batch || r.status == .processing
  | setBatchCount _ _, _ | setStatus _ _ _, _ | appendOutput _ _, _ | markFailed _ _, _ => ()

/-- The record after a call. -/
def change : StoreCall → JobRecord → JobRecord
  | load _, r => r
  | setBatchCount _ count, r => r.withBatchCount count
  | setStatus _ status video, r => r.withStatus status video
  | appendOutput _ output, r => r.withOutput output
  | claimJoin _ batch, r => if r.status = .processing then r.withJoiner batch else r
  | markFailed _ reason, r => r.withFailure reason

/-- Whether a call hands the join of an open job to a batch. -/
def swaps : StoreCall → JobRecord → Bool
  | claimJoin _ _, r => r.status == .processing
  | _, _ => false

@[simp] theorem id_change (c : StoreCall) (r : JobRecord) : (c.change r).id = r.id := by
  cases c with
  | claimJoin id batch =>
      simp only [change]
      split <;> rfl
  | _ => rfl

/-- A join that is handed over is handed over by an open job, which then is closed and has an
owner. -/
theorem of_swaps {c : StoreCall} {r : JobRecord} (h : c.swaps r = true) :
    r.status = .processing ∧ (c.change r).status ≠ .processing ∧
      (c.change r).joiner.isSome = true := by
  cases c with
  | claimJoin id batch =>
      have hopen : r.status = .processing := by simpa [swaps] using h
      simp [change, hopen, JobRecord.withJoiner]
  | _ => cases h

theorem swaps_eq_false {c : StoreCall} {r : JobRecord}
    (h : r.status ≠ .processing ∨ (c.change r).status = .processing) : c.swaps r = false := by
  cases hswaps : c.swaps r with
  | true =>
      obtain ⟨hopen, hclosed, -⟩ := of_swaps hswaps
      exact (h.elim (fun h => h hopen) hclosed).elim
  | false => rfl

theorem mem_outputs_change {c : StoreCall} {r : JobRecord} {x : BatchOutput}
    (h : x ∈ (c.change r).outputs) : x ∈ r.outputs ∨ ∃ id, c = .appendOutput id x := by
  cases c with
  | appendOutput id output =>
      rw [change, JobRecord.outputs_withOutput] at h
      split at h
      · exact .inl h
      · rcases List.mem_append.mp h with h | h
        · exact .inl h
        · exact .inr ⟨id, congrArg _ (List.mem_singleton.mp h).symm⟩
  | claimJoin id batch =>
      simp only [change] at h
      split at h <;> exact .inl h
  | setBatchCount id count =>
      cases hbatches : r.batches with
      | none => simp [change, JobRecord.withBatchCount, JobRecord.outputs, hbatches] at h
      | some summary =>
          refine .inl ?_
          simpa [change, JobRecord.withBatchCount, JobRecord.outputs, hbatches] using h
  | _ => exact .inl h

/-- Once asked for, the join of a job is no longer to be had. -/
theorem closed_claimJoin (id : JobId) (batch : ℕ) (r : JobRecord) :
    ((claimJoin id batch).change r).status ≠ .processing := by
  simp only [change]
  split
  · exact fun h => nomatch h
  · assumption

theorem reply_claimJoin (id : JobId) (batch : ℕ) {r : JobRecord} (h : r.status = .processing) :
    (claimJoin id batch).reply r = true := by
  rw [reply, h]
  exact Bool.or_true _

/-- A batch that asks for a join is told whether it owns the join now. -/
theorem joinOwnedBy_claimJoin (id : JobId) (batch : ℕ) (r : JobRecord) :
    ((claimJoin id batch).change r).joinOwnedBy batch = (claimJoin id batch).reply r := by
  by_cases hopen : r.status = .processing
  · simp [change, reply, hopen, JobRecord.withJoiner, JobRecord.joinOwnedBy]
  · have hclosed : (r.status == .processing) = false := by simpa using hopen
    simp only [change, reply, if_neg hopen, hclosed, Bool.or_false]

end StoreCall

theorem StoreCall.expectedBatches_change (c : StoreCall) (r : JobRecord) :
    (∃ id count, c = .setBatchCount id count ∧ (c.change r).expectedBatches = count) ∨
      (∀ id count, c ≠ .setBatchCount id count) ∧
        (c.change r).expectedBatches = r.expectedBatches := by
  cases c with
  | setBatchCount id count => exact .inl ⟨id, count, rfl, rfl⟩
  | appendOutput id output =>
      exact .inr ⟨(fun _ _ h => nomatch h), r.expectedBatches_withOutput output⟩
  | claimJoin id batch =>
      refine .inr ⟨(fun _ _ h => nomatch h), ?_⟩
      simp only [change]
      split <;> rfl
  | _ => exact .inr ⟨(fun _ _ h => nomatch h), rfl⟩

/-- A call about a known job gets its reply and changes the record of that job. -/
theorem Ledger.answer_of_get? {l : Ledger} {c : StoreCall} {r : JobRecord}
    (h : l.get? c.jobId = some r) :
    ∃ l', Ledger.answer c l = (.ok (c.reply r), l') ∧ l'.get? c.jobId = some (c.change r) ∧
      l'.claims = l.claims + (c.swaps r).toNat := by
  have hid : r.id = c.jobId := id_of_get? h
  have hinsert : (l.insert (c.change r)).get? c.jobId = some (c.change r) :=
    get?_insert h (by simp [hid])
  have hclaims : (l.insert (c.change r)).claims = l.claims := by
    simp only [insert]
    split <;> rfl
  cases c with
  | load id =>
      refine ⟨l, ?_, h, rfl⟩
      simp only [StoreCall.jobId] at h
      simp only [answer, h]
      rfl
  | claimJoin id batch =>
      simp only [StoreCall.jobId] at h hid hinsert
      by_cases hopen : r.status = .processing
      · simp only [StoreCall.change, if_pos hopen] at hinsert hclaims ⊢
        refine ⟨{ l.insert (r.withJoiner batch) with claims := l.claims + 1 }, ?_, hinsert, ?_⟩
        · simp [answer, claimJoin, h, JobRecord.joinOwnedBy, hopen, StoreCall.reply]
          rfl
        · simp [StoreCall.swaps, hopen]
      · simp only [StoreCall.change, if_neg hopen]
        refine ⟨l, ?_, h, by simp [StoreCall.swaps, hopen]⟩
        have hclosed : (r.status == .processing) = false := by simpa using hopen
        simp only [answer, claimJoin, h, if_neg hopen, StoreCall.reply, hclosed, Bool.or_false]
        cases r.joinOwnedBy batch <;> rfl
  | _ =>
      refine ⟨_, ?_, hinsert, by simpa [StoreCall.swaps] using hclaims⟩
      simp only [StoreCall.jobId] at h
      simp only [answer, update, h]
      rfl

/-- A call about one job leaves the records of all others alone. -/
theorem Ledger.get?_answer_of_ne {l : Ledger} {c : StoreCall} {id : JobId} (h : c.jobId ≠ id) :
    (Ledger.answer c l).2.get? id = l.get? id := by
  have hinsert : ∀ r r' : JobRecord, l.get? c.jobId = some r → r'.id = r.id →
      (l.insert r').get? id = l.get? id := by
    intro r r' hr hr'
    refine get?_insert_of_ne ?_
    rwa [hr', id_of_get? hr]
  cases c with
  | load _ => rfl
  | claimJoin id' batch =>
      simp only [StoreCall.jobId] at hinsert
      simp only [answer, claimJoin]
      cases hr : l.get? id' with
      | none => rfl
      | some r =>
          dsimp only
          split
          · rfl
          · split
            · exact hinsert r _ hr rfl
            · rfl
  | _ id' =>
      simp only [StoreCall.jobId] at hinsert
      simp only [answer, update]
      cases hr : l.get? id' with
      | none => rfl
      | some r => exact hinsert r _ hr rfl

theorem Ledger.answer_of_get?_eq_none {l : Ledger} {c : StoreCall} (h : l.get? c.jobId = none) :
    (Ledger.answer c l).2 = l := by
  cases c with
  | load id => rfl
  | claimJoin id batch =>
      simp only [StoreCall.jobId] at h
      simp only [answer, claimJoin, h]
  | _ =>
      simp only [StoreCall.jobId] at h
      simp only [answer, update, h]

/-- What a call leaves of a record: the one it is about is changed. -/
theorem Ledger.get?_answer (c : StoreCall) (l : Ledger) (id : JobId) :
    (Ledger.answer c l).2.get? id =
      if c.jobId = id then (l.get? id).map c.change else l.get? id := by
  split
  · rename_i hid
    subst hid
    cases h : l.get? c.jobId with
    | none => rw [answer_of_get?_eq_none h, h, Option.map_none]
    | some r =>
        obtain ⟨l', hanswer, hr, -⟩ := answer_of_get? h
        rw [hanswer, hr, Option.map_some]
  · rename_i hid
    exact get?_answer_of_ne hid

theorem StoreCall.video_change {c : StoreCall} {r : JobRecord} {url : String}
    (h : (c.change r).video = some url) :
    r.video = some url ∨ ∃ id status, c = .setStatus id status (some url) := by
  cases c with
  | setStatus id status video =>
      cases h
      exact .inr ⟨id, status, rfl⟩
  | claimJoin id batch =>
      simp only [change] at h
      split at h <;> exact .inl h
  | load id | setBatchCount id count | appendOutput id output | markFailed id reason => exact .inl h

/-! ## Records evolve -/

/-- What never goes back in the record of a job: its outputs only become more, an open job was never
anything else, the owner of a join stays, and an ended job stays ended. -/
structure JobRecord.Evolves (r r' : JobRecord) : Prop where
  id_eq : r'.id = r.id
  expected_eq : r'.expectedBatches = r.expectedBatches
  outputs_prefix : r.outputs <+: r'.outputs
  was_open : r'.status = .processing → r.status = .processing
  joiner_eq : r.status ≠ .processing → r'.joiner = r.joiner
  stays_ended : r.status.isTerminal = true → r'.status.isTerminal = true

namespace JobRecord.Evolves

variable {r r' r'' : JobRecord}

theorem refl (r : JobRecord) : r.Evolves r where
  id_eq := rfl
  expected_eq := rfl
  outputs_prefix := List.prefix_refl _
  was_open h := h
  joiner_eq _ := rfl
  stays_ended h := h

theorem trans (h : r.Evolves r') (h' : r'.Evolves r'') : r.Evolves r'' where
  id_eq := h'.id_eq.trans h.id_eq
  expected_eq := h'.expected_eq.trans h.expected_eq
  outputs_prefix := h.outputs_prefix.trans h'.outputs_prefix
  was_open := h.was_open ∘ h'.was_open
  joiner_eq hr := (h'.joiner_eq (hr ∘ h.was_open)).trans (h.joiner_eq hr)
  stays_ended := h'.stays_ended ∘ h.stays_ended

theorem hasReceived (h : r.Evolves r') {b : ℕ} (hb : r.hasReceived b = true) :
    r'.hasReceived b = true := by
  simp only [JobRecord.hasReceived, List.any_eq_true] at hb ⊢
  obtain ⟨x, hx, hxb⟩ := hb
  exact ⟨x, h.outputs_prefix.subset hx, hxb⟩

theorem was_joining (h : r.Evolves r') (hr : r'.status = .joining) :
    r.status = .processing ∨ r.status = .joining := by
  have hended := h.stays_ended
  cases hs : r.status with
  | processing => exact .inl rfl
  | joining => exact .inr rfl
  | processed | failed => simp [hs, hr, JobStatus.isTerminal] at hended

/-- A batch that does not own a join that is no longer to be had will not own it. -/
theorem not_joinOwnedBy (h : r.Evolves r') {b : ℕ} (hopen : r.status ≠ .processing)
    (hb : r.joinOwnedBy b = false) : r'.joinOwnedBy b = false := by
  by_contra hb'
  simp only [Bool.not_eq_false, joinOwnedBy, Bool.and_eq_true, beq_iff_eq] at hb'
  have hjoining := (h.was_joining hb'.1).resolve_left hopen
  rw [h.joiner_eq hopen] at hb'
  simp [joinOwnedBy, hjoining, hb'.2] at hb

end JobRecord.Evolves

/-- The calls of a worker that handles a batch: all but setting the number of batches, and the only
status it sets is that of a finished job. -/
def StoreCall.OfBatch : StoreCall → Prop
  | setBatchCount _ _ => False
  | setStatus _ status _ => status = .processed
  | _ => True

theorem StoreCall.evolves_change {c : StoreCall} (hc : c.OfBatch) (r : JobRecord) :
    r.Evolves (c.change r) := by
  cases c with
  | load id => exact .refl r
  | setBatchCount id count => exact hc.elim
  | setStatus id status video =>
      cases hc
      exact ⟨rfl, rfl, List.prefix_refl _, fun h => (nomatch h), fun _ => rfl, fun _ => rfl⟩
  | appendOutput id output =>
      refine ⟨rfl, r.expectedBatches_withOutput output, ?_, fun h => h, fun _ => rfl,
        fun h => h⟩
      simp only [change, JobRecord.outputs_withOutput]
      split
      · exact List.prefix_refl _
      · exact List.prefix_append _ _
  | claimJoin id batch =>
      simp only [change]
      split
      · rename_i hopen
        exact ⟨rfl, rfl, List.prefix_refl _, fun h => (nomatch h), fun h => (h hopen).elim,
          fun h => by simp [hopen, JobStatus.isTerminal] at h⟩
      · exact .refl r
  | markFailed id reason =>
      exact ⟨rfl, rfl, List.prefix_refl _, fun h => (nomatch h), fun _ => rfl, fun _ => rfl⟩

theorem StoreCall.joining_change {c : StoreCall} {r : JobRecord} (hc : c.OfBatch)
    (h : (c.change r).status = .joining) :
    (r.status = .joining ∧ (c.change r).joiner = r.joiner) ∨
      r.status = .processing ∧ ∃ id batch, c = .claimJoin id batch := by
  have hevolves := evolves_change hc r
  rcases hevolves.was_joining h with hopen | hjoining
  · refine .inr ⟨hopen, ?_⟩
    cases c with
    | claimJoin id batch => exact ⟨id, batch, rfl⟩
    | setBatchCount id count => exact hc.elim
    | setStatus id status video =>
        cases hc
        cases h
    | load id => cases hopen.symm.trans h
    | appendOutput id output => cases hopen.symm.trans h
    | markFailed id reason => cases h
  · exact .inl ⟨hjoining, hevolves.joiner_eq (by simp [hjoining])⟩

end Slideshow
