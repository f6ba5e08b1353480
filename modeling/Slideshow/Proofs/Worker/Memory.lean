import Slideshow.Worker.Memory
import Slideshow.Proofs.Store.Ledger

/-! # What the surroundings in memory answer

Where nothing fails, every call is answered well if the file or the object it asks for is there, and
changes one thing. -/

namespace Slideshow

variable {α : Type} {s : Surroundings α} {m : Memory α}

namespace Memory

theorem lookup_put_self (name : String) (content : Content α) (store : List (String × Content α)) :
    (put name content store).lookup name = some content := by
  simp [put]

/-- Nothing is lost when something is put. -/
theorem isSome_lookup_put {name other : String} {content : Content α}
    {store : List (String × Content α)} (h : (store.lookup other).isSome = true) :
    ((put name content store).lookup other).isSome = true := by
  by_cases hname : other = name
  · rw [hname, lookup_put_self]
    rfl
  · rw [List.lookup_isSome_iff] at h ⊢
    obtain ⟨entry, hentry, hother⟩ := h
    refine ⟨entry, List.mem_cons_of_mem _ (List.mem_filter.mpr ⟨hentry, ?_⟩), hother⟩
    rw [← eq_of_beq hother]
    simpa using hname

theorem fetch_eq_ok (hs : s.failing = []) (url directory : String) (m : Memory α) :
    ∃ path files fetched, fetch s url directory m = (.ok path, { m with files, fetched }) :=
  ⟨_, _, _, by simp [fetch, hs]; rfl⟩

theorem fetchAll_cons {url directory path : String} {rest : List String} {m' : Memory α}
    (h : fetch s url directory m = (.ok path, m')) :
    fetchAll s directory (url :: rest) m =
      ((fetchAll s directory rest m').1.map (path :: ·), (fetchAll s directory rest m').2) := by
  simp only [fetchAll, bind, StateT.bind, h]
  rfl

theorem fetchAll_eq_ok (hs : s.failing = []) (directory : String) (urls : List String)
    (m : Memory α) :
    ∃ paths files fetched, fetchAll s directory urls m = (.ok paths, { m with files, fetched }) ∧
      paths.length = urls.length := by
  induction urls generalizing m with
  | nil => exact ⟨[], m.files, m.fetched, rfl, rfl⟩
  | cons url rest ih =>
      obtain ⟨path, files, fetched, hfetch⟩ := fetch_eq_ok hs url directory m
      obtain ⟨paths, files', fetched', hrest, hlength⟩ := ih { m with files, fetched }
      refine ⟨path :: paths, files', fetched', ?_, by simp [hlength]⟩
      rw [fetchAll_cons hfetch, hrest]
      rfl

end Memory

namespace WorkerCall

/-- The memory answers a call. -/
def Remembered (s : Surroundings α) (c : WorkerCall α) (m : Memory α) (a : c.Answer)
    (m' : Memory α) : Prop :=
  Memory.answer s c m = (a, m')

theorem remembered_store {c : StoreCall} {r : JobRecord} (h : m.ledger.get? c.jobId = some r) :
    ∃ ledger, (store c).Remembered s m (.ok (c.reply r)) { m with ledger } ∧
      ledger.get? c.jobId = some (c.change r) ∧
      ledger.claims = m.ledger.claims + (c.swaps r).toNat := by
  obtain ⟨ledger, hanswer, hknown, hclaims⟩ := Ledger.answer_of_get? h
  refine ⟨ledger, ?_, hknown, hclaims⟩
  have hrun : (Ledger.answer c).run m.ledger = (.ok (c.reply r), ledger) := hanswer
  simp only [Remembered, Memory.answer, Memory.answerStore, hrun]
  rfl

/-- The join of an open job is free to the first batch that asks for it. -/
theorem remembered_claimJoin {id : JobId} {r : JobRecord} (h : m.ledger.get? id = some r)
    (hopen : r.status = .processing) (batch : ℕ) :
    ∃ ledger, (store (.claimJoin id batch)).Remembered s m (.ok true) { m with ledger } ∧
      ledger.get? id = some (r.withJoiner batch) ∧ ledger.claims = m.ledger.claims + 1 := by
  obtain ⟨ledger, hclaim, hknown, hclaims⟩ :=
    remembered_store (s := s) (m := m) (c := .claimJoin id batch) h
  rw [StoreCall.reply_claimJoin id batch hopen] at hclaim
  simp only [StoreCall.change, if_pos hopen] at hknown
  simp only [StoreCall.swaps, hopen] at hclaims
  exact ⟨ledger, hclaim, hknown, hclaims⟩

theorem remembered_load {id : JobId} {r : JobRecord} (h : m.ledger.get? id = some r) :
    (store (.load id)).Remembered s m (.ok (some r)) m := by
  change ((.ok (m.ledger.get? id) : Except WorkerError (Option JobRecord)), m) = _
  rw [h]
  rfl

theorem remembered_upload {id : JobId} {segment path : String} {content : Content α}
    (h : m.files.lookup path = some content) :
    (upload id segment path).Remembered s m (.ok (Memory.address id segment))
      { m with objects := Memory.put (Memory.address id segment) content m.objects } := by
  simp only [Remembered, Memory.answer, Memory.upload, h]
  rfl

theorem remembered_download {url : String} (path : String) {content : Content α}
    (h : m.objects.lookup url = some content) :
    (download url path).Remembered s m (.ok ())
      { m with files := Memory.put path content m.files } := by
  simp only [Remembered, Memory.answer, Memory.download, h]
  rfl

theorem remembered_render (hs : s.rendererFails = false) (plan : RenderPlan α) (path : String) :
    (render plan path).Remembered s m (.ok ()) { m with
      files := Memory.put path (.video (plan.duration.getD s.joinedDuration)) m.files } := by
  simp [Remembered, Memory.answer, Memory.render, hs]
  rfl

theorem remembered_duration {path : String} {seconds : α}
    (h : m.files.lookup path = some (.video seconds)) :
    (duration path : WorkerCall α).Remembered s m (.ok seconds) m := by
  simp only [Remembered, Memory.answer, Memory.duration, h]
  rfl

theorem remembered_fetch (hs : s.failing = []) (url directory : String) :
    ∃ path files fetched,
      (fetch url directory).Remembered s m (.ok path) { m with files, fetched } :=
  Memory.fetch_eq_ok hs url directory m

theorem remembered_fetchAll (hs : s.failing = []) (urls : List String) (directory : String) :
    ∃ paths files fetched, paths.length = urls.length ∧
      (fetchAll urls directory).Remembered s m (.ok paths) { m with files, fetched } := by
  obtain ⟨paths, files, fetched, hfetch, hlength⟩ := Memory.fetchAll_eq_ok hs directory urls m
  exact ⟨paths, files, fetched, hlength, hfetch⟩

end WorkerCall

end Slideshow
