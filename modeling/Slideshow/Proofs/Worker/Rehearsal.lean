import Slideshow.Worker.Rehearsal
import Slideshow.Proofs.Program.System
import Slideshow.Proofs.Worker.Memory
import Slideshow.Proofs.Worker.Task

/-! # Rehearsals without mishaps

Where no call is made to fail, a delivery does to the memory what its calls do one after another,
and the journal lists them. -/

namespace Slideshow

open Program

variable {α : Type} {s : Surroundings α}

/-- No call is made to fail. -/
def Script.quiet : Script := fun _ _ => none

namespace WorkerCall

/-- How a journal lists a call: files are fetched one by one. -/
def listed : WorkerCall α → List (WorkerCall α)
  | fetchAll urls directory => urls.map fun url => fetch url directory
  | c => [c]

/-- The calls of a trace, as a journal lists them. -/
def listing (t : List (WorkerExchange α)) : List (WorkerCall α) := t.flatMap fun e => e.call.listed

/-- The plan that is rendered, if that is what is asked for. -/
def rendered? : WorkerCall α → Option (RenderPlan α)
  | render plan _ => some plan
  | _ => none

/-- The address under which a part is stored. -/
def uploaded? : WorkerCall α → Option String
  | upload id segment _ => some (Memory.address id segment)
  | _ => none

/-- The address from which a part is fetched back. -/
def downloaded? : WorkerCall α → Option String
  | download url _ => some url
  | _ => none

/-- A call that neither renders nor moves a part. -/
def Plain : WorkerCall α → Prop
  | render _ _ | upload _ _ _ | download _ _ => False
  | _ => True

theorem Plain.of_mem_listed {c c' : WorkerCall α} (h : c.Plain) (hc' : c' ∈ c.listed) :
    c'.Plain := by
  cases c with
  | fetchAll urls directory =>
      obtain ⟨url, -, rfl⟩ := List.mem_map.mp hc'
      trivial
  | _ =>
      cases List.mem_singleton.mp hc'
      exact h

theorem Plain.eq_none {c : WorkerCall α} (h : c.Plain) :
    c.rendered? = none ∧ c.uploaded? = none ∧ c.downloaded? = none := by
  cases c with
  | render _ _ | upload _ _ _ | download _ _ => exact h.elim
  | _ => exact ⟨rfl, rfl, rfl⟩

@[simp]
theorem listing_nil : listing ([] : List (WorkerExchange α)) = [] := rfl

@[simp]
theorem listing_cons (e : WorkerExchange α) (t : List (WorkerExchange α)) :
    listing (e :: t) = e.call.listed ++ listing t := rfl

@[simp]
theorem listing_append (t u : List (WorkerExchange α)) :
    listing (t ++ u) = listing t ++ listing u := List.flatMap_append

end WorkerCall

open WorkerCall

namespace Rehearsal

/-- All calls so far. -/
def calls (r : Rehearsal α) : List (WorkerCall α) := r.journal.map JournalEntry.call

/-- All plans that were rendered. -/
def renders (r : Rehearsal α) : List (RenderPlan α) := r.calls.filterMap rendered?

/-- All addresses under which parts were stored. -/
def uploads (r : Rehearsal α) : List String := r.calls.filterMap uploaded?

/-- All addresses from which parts were fetched back. -/
def downloads (r : Rehearsal α) : List String := r.calls.filterMap downloaded?

/-- What is added to the work that was done. -/
structure Adds (r r' : Rehearsal α) (plans : List (RenderPlan α)) (stored fetched : List String) :
    Prop where
  calls : r.calls <+: r'.calls
  renders : r'.renders = r.renders ++ plans
  uploads : r'.uploads = r.uploads ++ stored
  downloads : r'.downloads = r.downloads ++ fetched

theorem adds_of_calls {r r' : Rehearsal α} {cs : List (WorkerCall α)}
    (h : r'.calls = r.calls ++ cs) :
    r.Adds r' (cs.filterMap rendered?) (cs.filterMap uploaded?) (cs.filterMap downloaded?) := by
  refine ⟨⟨cs, h.symm⟩, ?_, ?_, ?_⟩ <;> simp [renders, uploads, downloads, h]

theorem adds_nil_of_plain {r r' : Rehearsal α} {t : List (WorkerExchange α)}
    (h : r'.calls = r.calls ++ listing t) (ht : ∀ e ∈ t, e.call.Plain) : r.Adds r' [] [] [] := by
  have hplain : ∀ c ∈ listing t, c.Plain := by
    intro c hc
    obtain ⟨e, he, hc⟩ := List.mem_flatMap.mp hc
    exact (ht e he).of_mem_listed hc
  have hadds := adds_of_calls h
  rwa [List.filterMap_eq_nil_iff.mpr fun c hc => (hplain c hc).eq_none.1,
    List.filterMap_eq_nil_iff.mpr fun c hc => (hplain c hc).eq_none.2.1,
    List.filterMap_eq_nil_iff.mpr fun c hc => (hplain c hc).eq_none.2.2] at hadds

theorem answerOne_quiet (c : WorkerCall α) (r : Rehearsal α) :
    ∃ r', answerOne s .quiet c r = ((Memory.answer s c r.memory).1, r') ∧
      r'.memory = (Memory.answer s c r.memory).2 ∧ r'.calls = r.calls ++ [c] :=
  ⟨_, rfl, rfl, by simp [calls]⟩

/-- Files are fetched one by one as they would be at once, where none fails. -/
theorem fetchAll_quiet (hs : s.failing = []) (directory : String) (urls : List String)
    (r : Rehearsal α) :
    ∃ r', fetchAll s .quiet directory urls r = ((Memory.fetchAll s directory urls r.memory).1, r') ∧
      r'.memory = (Memory.fetchAll s directory urls r.memory).2 ∧
      r'.calls = r.calls ++ (WorkerCall.fetchAll urls directory).listed := by
  induction urls generalizing r with
  | nil => exact ⟨r, rfl, rfl, by simp [listed]⟩
  | cons url rest ih =>
      obtain ⟨path, files, fetched, hfetch⟩ := Memory.fetch_eq_ok hs url directory r.memory
      obtain ⟨r₁, hrun₁, hmemory₁, hcalls₁⟩ := answerOne_quiet (s := s) (.fetch url directory) r
      obtain ⟨r₂, hrun₂, hmemory₂, hcalls₂⟩ := ih r₁
      rw [Memory.answer, hfetch] at hrun₁ hmemory₁
      rw [hmemory₁] at hrun₂ hmemory₂
      refine ⟨r₂, ?_, ?_, ?_⟩
      · rw [Memory.fetchAll_cons hfetch]
        simp only [fetchAll, bind, StateT.bind, hrun₁, hrun₂]
        rfl
      · rw [Memory.fetchAll_cons hfetch, hmemory₂]
      · rw [hcalls₂, hcalls₁, List.append_assoc]
        rfl

theorem answer_quiet (hs : s.failing = []) (c : WorkerCall α) (r : Rehearsal α) :
    ∃ r', answer s .quiet c r = ((Memory.answer s c r.memory).1, r') ∧
      r'.memory = (Memory.answer s c r.memory).2 ∧ r'.calls = r.calls ++ c.listed := by
  cases c with
  | fetchAll urls directory => exact fetchAll_quiet hs directory urls r
  | _ => exact answerOne_quiet _ r

variable (job : QueueJob α) {r : Rehearsal α} {m' : Memory α} {t : List (WorkerExchange α)}

theorem answerCounted_quiet (hs : s.failing = []) {c : WorkerCall α} {a : c.Answer}
    (h : c.Remembered s r.memory a m') :
    ∃ r', answerCounted s .quiet job c r = (a, r') ∧ r'.memory = m' ∧
      r'.calls = r.calls ++ c.listed := by
  obtain ⟨r', hanswer, hmemory, hcalls⟩ := answer_quiet hs c r
  have h : Memory.answer s c r.memory = (a, m') := h
  rw [h] at hanswer hmemory
  by_cases hdone : c.countsAsDone a = true
  · refine ⟨{ r' with counters := r'.counters ++ Worker.callCounters job c }, ?_, hmemory, hcalls⟩
    simp only [answerCounted, bind, StateT.bind, hanswer, hdone, if_true]
    rfl
  · refine ⟨r', ?_, hmemory, hcalls⟩
    simp only [answerCounted, bind, StateT.bind, hanswer, hdone]
    rfl

/-- A program that goes on as the memory answers ends as it does in the rehearsal. -/
theorem run_of_leads (hs : s.failing = []) {β : Type}
    {p : Program (WorkerCall.Answer (α := α)) β} {b : β} (h : p.Leads t (.done b))
    (ht : System.Allowed (Remembered s) t r.memory m') :
    ∃ r', p.run (answerCounted s .quiet job) r = (b, r') ∧ r'.memory = m' ∧
      r'.calls = r.calls ++ listing t := by
  generalize hq : Program.done b = q at h
  induction h generalizing r with
  | start p =>
      subst hq
      cases ht
      exact ⟨r, rfl, rfl, by simp⟩
  | answered hrest ih =>
      cases ht with
      | cons ha ht =>
          obtain ⟨r₁, hrun₁, rfl, hcalls₁⟩ := answerCounted_quiet job hs ha
          obtain ⟨r₂, hrun₂, hmemory₂, hcalls₂⟩ := ih ht hq
          refine ⟨r₂, ?_, hmemory₂, ?_⟩
          · simp only [Program.run, bind, StateT.bind, hrun₁, hrun₂]
          · rw [hcalls₂, hcalls₁, List.append_assoc]
            rfl

variable {job} [Scalar α]

/-- A delivery that is answered by the memory. -/
theorem deliver_of_leads (hs : s.failing = []) {limits : WorkerLimits} {w : Workplace}
    {result : Except WorkerError Unit}
    (h : (Worker.handle limits w job).Leads t (.done result))
    (ht : System.Allowed (Remembered s) t r.memory m') :
    ∃ r', deliver limits w s .quiet job r = (result, r') ∧
      r'.memory = { m' with files := [] } ∧
      r'.calls = r.calls ++ listing t := by
  obtain ⟨r', hrun, rfl, hcalls⟩ := run_of_leads job hs h ht
  refine ⟨{ r' with
    counters := r'.counters ++ Worker.outcomeCounters job result.toBool
    memory := { r'.memory with files := [] } }, ?_, rfl, hcalls⟩
  simp only [deliver, bind, StateT.bind, hrun]
  rfl

end Rehearsal

end Slideshow
