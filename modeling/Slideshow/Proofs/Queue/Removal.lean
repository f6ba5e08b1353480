import Slideshow.Proofs.Program.Trace
import Slideshow.Queue.Basic

/-! # Messages that leave the queue

The operations on the queue send their commands in a fixed order and stop at the first one that the
server refuses. Whoever reads messages passes on all that can be handled, and takes only the others
out of the queue. -/

namespace Slideshow

open Program

/-- A call to the queue server and its answer. -/
abbrev QueueExchange := Exchange QueueCall.Answer

/-- The call succeeded. -/
def QueueExchange.Granted : QueueExchange → Prop
  | ⟨.connect, a⟩ => ∃ reply, a = (.ok reply : Except String Unit)
  | ⟨.send command, a⟩ => ∃ reply, a = (.ok reply : Except String command.Reply)

/-- The entries were handed out in answer to this call. -/
def QueueExchange.Hands (entries : List StreamEntry) : QueueExchange → Prop
  | ⟨.send (.read _ _), a⟩ => a = (.ok entries : Except String (List StreamEntry))
  | ⟨.send (.claim _ _), a⟩ => a = (.ok entries : Except String (List StreamEntry))
  | _ => False

/-- The call takes a message out of the queue. -/
def QueueCall.Removes (id : String) (c : QueueCall) : Prop :=
  c = .send (.acknowledge id) ∨ c = .send (.delete id)

namespace Queue

variable {β γ : Type} {p : Queuing β} {cs cs' : List QueueCall} {t u : List QueueExchange}

/-! ## Commands in a fixed order -/

/-- The calls that were made. -/
def calls (t : List QueueExchange) : List QueueCall := t.map Exchange.call

/-- All calls succeeded. -/
def Granted (t : List QueueExchange) : Prop := ∀ e ∈ t, e.Granted

theorem calls_append (t u : List QueueExchange) : calls (t ++ u) = calls t ++ calls u :=
  List.map_append

theorem Granted.append_iff (h : Granted t) : Granted (t ++ u) ↔ Granted u := by
  simp only [Granted, List.mem_append, or_imp, forall_and]
  exact and_iff_right h

/-- A program that makes calls one after another is done with all of them, or one has failed. -/
def Sent (cs : List QueueCall) (t : List QueueExchange) : Except QueueError β → Prop
  | .ok _ => Granted t ∧ calls t = cs
  | .error _ => ¬ Granted t ∧ calls t <+: cs

/-- The program makes these calls one after another, up to the first one that fails. -/
def Sends (p : Queuing β) (cs : List QueueCall) : Prop :=
  p.run.Meets (fun t c => Granted t ∧ calls t ++ [c] <+: cs) (Sent cs) []

theorem Sends.bind {f : β → Queuing γ} (hp : Sends p cs) (hf : ∀ b, Sends (f b) cs') :
    Sends (p >>= f) (cs ++ cs') := by
  rw [Sends, ExceptT.run_bind, meets_bind]
  refine hp.mono (fun u c _ h => ⟨h.1, h.2.trans (List.prefix_append _ _)⟩) fun u result _ h => ?_
  cases result with
  | error e => exact ⟨h.1, h.2.trans (List.prefix_append _ _)⟩
  | ok b =>
      obtain ⟨hgranted, rfl⟩ := h
      refine (hf b).after (fun v c h => ?_) fun v result h => ?_
      · rw [hgranted.append_iff, calls_append, List.append_assoc, List.prefix_append_right_inj]
        exact h
      · cases result with
        | ok _ => exact ⟨hgranted.append_iff.mpr h.1, by rw [calls_append, h.2]⟩
        | error _ =>
            refine ⟨fun hv => h.1 (hgranted.append_iff.mp hv), ?_⟩
            rw [calls_append, List.prefix_append_right_inj]
            exact h.2

theorem sends_send (command : QueueCommand) : Sends (send command) [.send command] := by
  refine ⟨⟨nofun, List.prefix_rfl⟩, fun (a : Except String command.Reply) => ?_⟩
  cases a with
  | ok _ => exact ⟨fun e he => List.mem_singleton.mp he ▸ ⟨_, rfl⟩, rfl⟩
  | error reason =>
      refine ⟨fun h => ?_, List.prefix_rfl⟩
      obtain ⟨_, ⟨⟩⟩ := h _ (List.mem_singleton_self _)

/-- The server has handed out these entries. -/
def Handed (t : List QueueExchange) (entries : List StreamEntry) : Prop := ∃ e ∈ t, e.Hands entries

/-- No worker can handle the entry. -/
def Unreadable (entry : StreamEntry) : Prop := ∀ job, decode? entry ≠ some (.ok job)

/-- The calls that are made to read messages. None of them takes a message out of the queue, unless it
was handed out and cannot be handled. -/
def Reads (t : List QueueExchange) (c : QueueCall) : Prop :=
  ∀ id, c.Removes id →
    ∃ entries, Handed t entries ∧ ∃ entry ∈ entries, entry.id = id ∧ Unreadable entry

theorem Handed.mono {entries : List StreamEntry} (h : Handed t entries) (u : List QueueExchange) :
    Handed (t ++ u) entries :=
  h.imp fun _ he => ⟨List.mem_append_left u he.1, he.2⟩

end Queue

end Slideshow
