import Slideshow.Proofs.Store.Fields
import Mathlib.Data.Fintype.EquivFin
import Mathlib.Logic.Function.Basic

/-! # The document server

What the server promises of every request: a write takes effect as a whole and only if its
precondition holds, sets the fields of its mask that are given and deletes the others, appends what
an array does not have yet, and gives the document a time that no write had before. `Served` says
how requests are answered by a server that is at hand, `ClientCall.Answered` what else may happen to
them on the way. -/

namespace Slideshow

/-! ## Writes -/

namespace DocumentWrite

def given (w : DocumentWrite) : Fields := (w.update.bind Document.fields).getD []

/-- What a write makes of the fields of a document. Without a mask all of them are replaced. -/
noncomputable def apply (w : DocumentWrite) (fields : Fields) : Fields :=
  let written := match w.mask with
    | none => w.given.foldl (fun sorted f => Json.insertSorted f.1 f.2 sorted) []
    | some mask => Fields.writeMask w.given mask fields
  w.transforms.foldl (fun changed t => Fields.transform t changed) written

end DocumentWrite

/-- The documents by their names, and the times that writes have been given. -/
structure DocumentServer where
  document : String → Option Document
  times : List String

/-- Whether a document is as a write asks. -/
def Precondition.Holds (p : Precondition) (found : Option Document) : Prop :=
  (∀ b, p.present = some b → found.isSome = b) ∧
    ∀ t, p.updateTime = some t → ∃ d, found = some d ∧ d.updateTime = some t

/-- A write happens if its precondition holds, or if it has none. -/
def DocumentWrite.Admitted (w : DocumentWrite) (found : Option Document) : Prop :=
  ∀ p, w.precondition = some p → p.Holds found

namespace DocumentServer

/-- The fields of a document; none if it is not there. -/
def fields (x : DocumentServer) (name : String) : Fields :=
  ((x.document name).bind Document.fields).getD []

/-- The document that a write makes of the one with a name. -/
noncomputable def written (x : DocumentServer) (name : String) (w : DocumentWrite) (time : String) :
    Document where
  name := some name
  fields := some (w.apply (x.fields name))
  createTime := some (((x.document name).bind Document.createTime).getD time)
  updateTime := some time

/-- The server after a write. -/
noncomputable def write (x : DocumentServer) (name : String) (w : DocumentWrite) (time : String) :
    DocumentServer where
  document := Function.update x.document name (some (x.written name w time))
  times := time :: x.times

end DocumentServer

/-! ## Answers -/

/-- An answer that holds a document. -/
def StoreReply.Holds (reply : StoreReply) (d : Document) : Prop :=
  reply.status = 200 ∧ reply.body.read Document.decoder = .ok d

/-- An answer that says that a precondition does not hold. -/
def StoreReply.Refuses (reply : StoreReply) : Prop :=
  reply.status ∈ [400, 409, 412] ∧
    StoreError.occursIn "FAILED_PRECONDITION" reply.body.content = true

namespace DocumentRequest

/-- The write of a new document. -/
def createWrite (fields : Fields) : DocumentWrite where
  update := some { fields := some fields }
  precondition := some { present := some false }

/-- The write of some fields of a document. -/
def patchWrite (fields : Fields) (mask : List String) (precondition : Option Precondition) :
    DocumentWrite where
  update := some { fields := some fields }
  mask := if mask.isEmpty then none else some mask
  precondition := precondition

/-- The document that a request writes, and the write; several writes at once are never asked
for. -/
def write? (c : StoreConfig) : DocumentRequest → Option (String × DocumentWrite)
  | get _ _ => none
  | create collection id fields => some (c.documentName collection id, createWrite fields)
  | patch collection id fields mask precondition =>
    some (c.documentName collection id, patchWrite fields mask precondition)
  | commit [w] => (w.update.bind Document.name).map fun name => (name, w)
  | commit _ => none

/-- How it is said that a write took effect. -/
def Confirmed : DocumentRequest → Document → StoreReply → Prop
  | get _ _, _, _ => False
  | create _ _ _, d, reply | patch _ _ _ _ _, d, reply => reply.Holds d
  | commit _, _, reply => reply.status = 200 ∧ ∃ r, reply.body.read CommitReply.decoder = .ok r

/-- How it is said that a write did not take place. -/
def Refused : DocumentRequest → StoreReply → Prop
  | create _ _ _, reply => reply.status = 409
  | _, reply => reply.Refuses

/-- How a server at hand serves a request. -/
inductive Served (c : StoreConfig) :
    DocumentRequest → DocumentServer → StoreReply → DocumentServer → Prop where
  | found {collection id x reply d} (hd : x.document (c.documentName collection id) = some d)
      (hreply : reply.Holds d) : Served c (get collection id) x reply x
  | missing {collection id x reply} (hd : x.document (c.documentName collection id) = none)
      (hreply : reply.status = 404) : Served c (get collection id) x reply x
  | written {r name w x reply time} (hr : r.write? c = some (name, w))
      (hw : w.Admitted (x.document name)) (htime : time ∉ x.times)
      (hreply : r.Confirmed (x.written name w time) reply) :
      Served c r x reply (x.write name w time)
  | refused {r name w x reply} (hr : r.write? c = some (name, w))
      (hw : ¬ w.Admitted (x.document name)) (hreply : r.Refused reply) : Served c r x reply x

end DocumentRequest

/-- Which requests may get lost before the server sees them, and which answers after it has. -/
structure Faults where
  drops : DocumentRequest → Prop
  loses : DocumentRequest → Prop

namespace Faults

/-- Nothing gets lost. -/
def none : Faults := ⟨fun _ => False, fun _ => False⟩

/-- Everything may get lost. -/
def any : Faults := ⟨fun _ => True, fun _ => True⟩

end Faults

/-- An answer of somebody on the way, or one that broke off. -/
def StoreReply.Lost (reply : StoreReply) : Prop :=
  reply.status ∉ [200, 201, 404] ∨ reply.status ≠ 404 ∧ reply.body = .broken

/-- What a request that gets lost on its way or whose answer does leaves behind. -/
def DocumentRequest.Mishap (c : StoreConfig) (f : Faults) (r : DocumentRequest)
    (x y : DocumentServer) : Prop :=
  f.drops r ∧ y = x ∨ f.loses r ∧ ∃ reply, r.Served c x reply y

/-- How a request is answered: by the server, or else not by it or not at all. -/
def DocumentRequest.Answered (c : StoreConfig) (f : Faults) (r : DocumentRequest)
    (x : DocumentServer) (a : Except Http.Fault StoreReply) (y : DocumentServer) : Prop :=
  (∃ reply, a = .ok reply ∧ r.Served c x reply y) ∨
    (∀ reply, a = .ok reply → reply.Lost) ∧ r.Mishap c f x y

/-- How a call made while asking the store is answered. Tokens are always issued; times, random
numbers and waits are whatever they are. -/
def ClientCall.Answered (c : StoreConfig) (f : Faults) :
    (call : ClientCall) → DocumentServer → call.Answer → DocumentServer → Prop
  | .token, x, a, y => (∃ t, a = .ok t) ∧ y = x
  | .send r _, x, a, y => r.Answered c f x a y
  | _, x, _, y => y = x

/-! ## There is an answer -/

theorem StoreReply.exists_holds {d : Document} (h : d.Readable) :
    ∃ reply : StoreReply, reply.Holds d := by
  obtain ⟨body, hbody⟩ := h.exists_body
  exact ⟨⟨200, body⟩, rfl, hbody⟩

theorem StoreReply.exists_refuses : ∃ reply : StoreReply, reply.Refuses := by
  refine ⟨⟨400, .text "FAILED_PRECONDITION"⟩, by simp, ?_⟩
  exact StoreError.occursIn_iff.mpr (List.infix_refl _)

namespace DocumentServer

variable {x : DocumentServer} {name : String} {w : DocumentWrite}

theorem readable_fields (h : ∀ d, x.document name = some d → d.Readable) :
    (x.fields name).Readable Json.maxDepth := by
  rw [fields]
  cases hd : x.document name with
  | none => exact Fields.readable_nil _
  | some d =>
      cases hfields : d.fields with
      | none => simpa [hfields] using Fields.readable_nil _
      | some found => simpa [hfields] using h d hd found hfields

/-- A write that leaves fields that can be read back leaves a document that can. -/
theorem readable_written (h : ∀ d, x.document name = some d → d.Readable)
    (hw : ∀ fields : Fields, fields.Readable Json.maxDepth →
      (w.apply fields).Readable Json.maxDepth) (time : String) :
    (x.written name w time).Readable := by
  rintro _ ⟨⟩
  exact hw _ (readable_fields h)

theorem exists_new_time (x : DocumentServer) : ∃ time, time ∉ x.times := by
  obtain ⟨time, htime⟩ := Infinite.exists_notMem_finset x.times.toFinset
  exact ⟨time, fun h => htime (List.mem_toFinset.mpr h)⟩

end DocumentServer

namespace DocumentRequest

variable {c : StoreConfig} {x y : DocumentServer} {reply : StoreReply} {r : DocumentRequest}
  {w : DocumentWrite} {name : String}

theorem exists_served_get {collection id : String}
    (h : ∀ d, x.document (c.documentName collection id) = some d → d.Readable) :
    ∃ reply y, (get collection id).Served c x reply y := by
  cases hd : x.document (c.documentName collection id) with
  | none => exact ⟨⟨404, .text ""⟩, x, .missing hd rfl⟩
  | some d =>
      obtain ⟨reply, hreply⟩ := StoreReply.exists_holds (h d hd)
      exact ⟨reply, x, .found hd hreply⟩

theorem exists_confirmed (hr : r.write? c = some (name, w)) {d : Document} (hd : d.Readable) :
    ∃ reply, r.Confirmed d reply := by
  cases r with
  | get collection id => cases hr
  | create collection id fields => exact StoreReply.exists_holds hd
  | patch collection id fields mask precondition => exact StoreReply.exists_holds hd
  | commit writes => exact ⟨⟨200, .json (.object [])⟩, rfl, _, rfl⟩

theorem exists_refused (r : DocumentRequest) : ∃ reply, r.Refused reply := by
  cases r with
  | create collection id fields => exact ⟨⟨409, .text ""⟩, rfl⟩
  | _ => exact StoreReply.exists_refuses

theorem exists_served (hr : r.write? c = some (name, w))
    (h : ∀ time, (x.written name w time).Readable) : ∃ reply y, r.Served c x reply y := by
  by_cases hw : w.Admitted (x.document name)
  · obtain ⟨time, htime⟩ := x.exists_new_time
    obtain ⟨reply, hreply⟩ := exists_confirmed hr (h time)
    exact ⟨reply, _, .written hr hw htime hreply⟩
  · obtain ⟨reply, hreply⟩ := exists_refused r
    exact ⟨reply, x, .refused hr hw hreply⟩

/-- The server itself never says that a token has expired. -/
theorem Served.status_ne (h : r.Served c x reply y) : reply.status ≠ 401 := by
  cases h with
  | found _ h => simp [h.1]
  | missing _ h => simp [h]
  | written hr _ _ h =>
      cases r with
      | get collection id => cases hr
      | create collection id fields => simp [h.1]
      | patch collection id fields mask precondition => simp [h.1]
      | commit writes => simp [h.1]
  | refused hr _ h =>
      have hrefuses : reply.Refuses → reply.status ≠ 401 := by
        rintro ⟨hstatus, -⟩ h
        simp [h] at hstatus
      cases r with
      | create collection id fields =>
          have hstatus : reply.status = 409 := h
          simp [hstatus]
      | _ => exact hrefuses h

end DocumentRequest

end Slideshow
