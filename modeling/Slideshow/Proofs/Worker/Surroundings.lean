import Slideshow.Proofs.Store.Ledger

/-! # The surroundings of a worker

What may happen when a worker makes a call: the record store answers and changes the ledger as it
should, or fails; uploads may have fixed addresses; anything else is answered in any way. -/

namespace Slideshow

variable {α : Type}

/-! ## Answers -/

/-- The store answers as the ledger does, or with an error, whether or not the call took effect. -/
def StoreCall.Answered (c : StoreCall) (l : Ledger) (a : c.Answer) (l' : Ledger) : Prop :=
  (a, l') = Ledger.answer c l ∨ (∃ e, a = .error e) ∧ (l' = l ∨ l' = (Ledger.answer c l).2)

theorem StoreCall.Answered.changes {c : StoreCall} {l l' : Ledger} {a : c.Answer} {r : JobRecord}
    (h : c.Answered l a l') (hr : l.get? c.jobId = some r) :
    l' = l ∨
      l'.get? c.jobId = some (c.change r) ∧ l'.claims = l.claims + (c.swaps r).toNat := by
  obtain ⟨l'', hanswer, hchange⟩ := Ledger.answer_of_get? hr
  have hsnd : (Ledger.answer c l).2 = l'' := congrArg Prod.snd hanswer
  rcases h with h | ⟨-, h | h⟩
  · cases (congrArg Prod.snd h).trans hsnd
    exact .inr hchange
  · exact .inl h
  · cases h.trans hsnd
    exact .inr hchange

/-- The record of a job is what it was, or what a call about the job made of it. -/
theorem StoreCall.Answered.get?_cases {c : StoreCall} {l l' : Ledger} {a : c.Answer} {id : JobId}
    {r : JobRecord} (h : c.Answered l a l') (hr : l.get? id = some r) :
    l'.get? id = some r ∨ c.jobId = id ∧ l'.get? id = some (c.change r) := by
  by_cases hid : c.jobId = id
  · subst hid
    rcases h.changes hr with rfl | ⟨hr', -⟩
    · exact .inl hr
    · exact .inr ⟨rfl, hr'⟩
  · refine .inl ?_
    have hother := (Ledger.get?_answer_of_ne (l := l) hid).trans hr
    rcases h with h | ⟨-, rfl | rfl⟩
    · have hl' : l' = (Ledger.answer c l).2 := congrArg Prod.snd h
      rwa [hl']
    · exact hr
    · exact hother

/-- A call that went well took effect. -/
theorem StoreCall.Answered.get?_of_ok {c : StoreCall} {l l' : Ledger} {reply : c.Reply}
    {r : JobRecord} (h : c.Answered l (.ok reply) l') (hr : l.get? c.jobId = some r) :
    l'.get? c.jobId = some (c.change r) := by
  obtain ⟨l'', hanswer, hr', -⟩ := Ledger.answer_of_get? hr
  rcases h with h | ⟨⟨e, he⟩, -⟩
  · have hl' : l' = l'' := congrArg Prod.snd (h.trans hanswer)
    rwa [hl']
  · cases he

namespace WorkerCall

/-- Every call is a single step, and only those to the store change the ledger. Otherwise any answer
may be given. -/
def Atomic : (c : WorkerCall α) → Ledger → c.Answer → Ledger → Prop
  | .store c, l, a, l' => c.Answered l a l'
  | _, l, _, l' => l' = l

/-- A store that never fails. -/
def Reliable : (c : WorkerCall α) → Ledger → c.Answer → Ledger → Prop
  | .store c, l, a, l' => (a, l') = Ledger.answer c l
  | _, l, _, l' => l' = l

/-- Where an upload goes depends on the job and on the name of the part only. -/
def Placed (address : JobId → String → String) : (c : WorkerCall α) → c.Answer → Prop
  | .upload id segment _, a => ∀ url, a = Except.ok url → url = address id segment
  | _, _ => True

/-- Single steps, where uploads have fixed addresses. -/
def Addressed (address : JobId → String → String) (c : WorkerCall α) (l : Ledger) (a : c.Answer)
    (l' : Ledger) : Prop :=
  c.Atomic l a l' ∧ c.Placed address a

/-- A store that never fails, and fixed addresses. -/
def Faultless (address : JobId → String → String) (c : WorkerCall α) (l : Ledger) (a : c.Answer)
    (l' : Ledger) : Prop :=
  c.Reliable l a l' ∧ c.Placed address a

theorem Reliable.atomic {c : WorkerCall α} {l l' : Ledger} {a : c.Answer}
    (h : c.Reliable l a l') : c.Atomic l a l' := by
  cases c with
  | store c => exact .inl h
  | _ => exact h

/-- A store that never fails replies to a call about a known job. -/
theorem Reliable.eq_ok {c : StoreCall} {l l' : Ledger} {a : c.Answer} {r : JobRecord}
    (h : (store c : WorkerCall α).Reliable l a l') (hr : l.get? c.jobId = some r) :
    a = .ok (c.reply r) := by
  obtain ⟨l'', hanswer, -⟩ := Ledger.answer_of_get? hr
  exact congrArg Prod.fst (h.trans hanswer)

theorem Faultless.addressed {address : JobId → String → String} {c : WorkerCall α} {l l' : Ledger}
    {a : c.Answer} (h : c.Faultless address l a l') : c.Addressed address l a l' :=
  ⟨h.1.atomic, h.2⟩

/-! ## There is always an answer -/

theorem exists_faultless (address : JobId → String → String) (c : WorkerCall α) (l : Ledger) :
    ∃ a l', c.Faultless address l a l' := by
  cases c with
  | store c => exact ⟨_, _, rfl, trivial⟩
  | upload id segment path =>
      exact ⟨.ok (address id segment), l, rfl, fun url h => (Except.ok.inj h).symm⟩
  | filterValid urls => exact ⟨[], l, rfl, trivial⟩
  | _ => exact ⟨.error (.jobNotFound ""), l, rfl, trivial⟩

theorem exists_told (address : JobId → String → String) {c : StoreCall} {l : Ledger} {r : JobRecord}
    (h : l.get? c.jobId = some r) :
    ∃ l', (store c : WorkerCall α).Faultless address l (Except.ok (c.reply r)) l' ∧
      l'.get? c.jobId = some (c.change r) := by
  obtain ⟨l', hanswer, hknown, -⟩ := Ledger.answer_of_get? h
  exact ⟨l', ⟨hanswer.symm, trivial⟩, hknown⟩

end WorkerCall

end Slideshow
