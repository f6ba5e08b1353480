import Slideshow.Queue.Basic
import Slideshow.Proofs.Program.Assurance
import Mathlib.Data.Set.Insert

/-! # The queue server

Every command takes effect at once and as a whole. A command that is answered with an error may or
may not have been carried out. Keys that were claimed stay so until they are removed, and `added`
keeps every entry that was ever added, also those that were read and acknowledged since. -/

namespace Slideshow

/-- The keys that are claimed, and the entries that were added to streams. -/
structure QueueServer where
  claimed : Set String
  added : List (String × List (String × String))

/-- How a command that is carried out is answered, and what it leaves behind. -/
def QueueCommand.Served :
    (command : QueueCommand) → QueueServer → command.Reply → QueueServer → Prop
  | .claimKey key _, x, fresh, y =>
    (fresh = false ∧ key ∈ x.claimed ∧ y = x) ∨
      (fresh = true ∧ key ∉ x.claimed ∧ y = { x with claimed := insert key x.claimed })
  | .removeKey key, x, _, y => y = { x with claimed := x.claimed \ {key} }
  | .append stream fields, x, _, y => y = { x with added := x.added ++ [(stream, fields)] }
  | .createGroup, x, _, y | .ping, x, _, y | .acknowledge _, x, _, y | .delete _, x, _, y
  | .length _, x, _, y | .read _ _, x, _, y | .listIdle _, x, _, y | .claim _ _, x, _, y => y = x

/-- How a call is answered. -/
def QueueCall.Answered : (call : QueueCall) → QueueServer → call.Answer → QueueServer → Prop
  | .connect, x, _, y => y = x
  | .send command, x, a, y =>
    (∃ reply, a = .ok reply ∧ command.Served x reply y) ∨
      (∃ reason, a = .error reason) ∧ (y = x ∨ ∃ reply, command.Served x reply y)

variable {x y : QueueServer}

theorem QueueCommand.exists_served (command : QueueCommand) (x : QueueServer) :
    ∃ reply y, command.Served x reply y := by
  cases command with
  | claimKey key seconds =>
      by_cases hkey : key ∈ x.claimed
      · exact ⟨false, x, .inl ⟨rfl, hkey, rfl⟩⟩
      · exact ⟨true, _, .inr ⟨rfl, hkey, rfl⟩⟩
  | removeKey key => exact ⟨(), _, rfl⟩
  | append stream fields => exact ⟨"", _, rfl⟩
  | length stream => exact ⟨(0 : ℕ), x, rfl⟩
  | read consumer count => exact ⟨[], x, rfl⟩
  | listIdle count => exact ⟨[], x, rfl⟩
  | claim consumer ids => exact ⟨[], x, rfl⟩
  | createGroup => exact ⟨(), x, rfl⟩
  | ping => exact ⟨(), x, rfl⟩
  | acknowledge id => exact ⟨(), x, rfl⟩
  | delete id => exact ⟨(), x, rfl⟩

theorem QueueCall.exists_answered (call : QueueCall) (x : QueueServer) :
    ∃ a y, call.Answered x a y := by
  cases call with
  | connect => exact ⟨.ok (), x, rfl⟩
  | send command =>
      obtain ⟨reply, y, h⟩ := command.exists_served x
      exact ⟨.ok reply, y, .inl ⟨reply, rfl, h⟩⟩

/-- An answer that is no error comes from a command that was carried out. -/
theorem QueueCall.Answered.served {command : QueueCommand} {reply : command.Reply}
    (h : (send command).Answered x (.ok reply) y) : command.Served x reply y := by
  rcases h with ⟨reply', hreply, h⟩ | ⟨⟨reason, hreason⟩, -⟩
  · cases hreply
    exact h
  · cases hreason

/-! ## Adding a message -/

namespace Queue

/-- The commands that add a message. -/
theorem run_enqueue (c : QueueConfig) (job : QueueJob Float) :
    (enqueue c job).run = .call .connect fun (a : Except String Unit) => match a with
      | .error reason => .done (.error (.server reason))
      | .ok () => .call (.send (.claimKey (dedupKey job) c.dedupSecs))
        fun (a : Except String Bool) => match a with
        | .error reason => .done (.error (.server reason))
        | .ok false => .done (.error (.duplicate job.idempotencyKey))
        | .ok true => .call (.send (.append c.stream (entryFields job)))
          fun (a : Except String String) => match a with
          | .ok id => .done (.ok id)
          | .error reason => .call (.send (.removeKey (dedupKey job))) fun _ =>
            .done (.error (.enqueueFailed reason)) := by
  refine congrArg (Program.call QueueCall.connect) (funext fun a => ?_)
  cases a with
  | error reason => rfl
  | ok _ =>
      refine congrArg (Program.call _) (funext fun a => ?_)
      cases a with
      | error reason => rfl
      | ok fresh =>
          cases fresh with
          | false => rfl
          | true =>
              refine congrArg (Program.call _) (funext fun a => ?_)
              cases a <;> rfl

/-- A message whose entry has got a name was added, and nothing else was. -/
theorem assures_enqueue (c : QueueConfig) (job : QueueJob Float) (x : QueueServer) :
    (enqueue c job).run.Alone QueueCall.Answered
      (fun result y => ∀ id, result = .ok id → y.added = x.added ++ [(c.stream, entryFields job)])
      x := by
  rw [run_enqueue]
  rintro x rfl
  refine ⟨QueueCall.exists_answered _ _, fun a y ha => ⟨trivial, ?_⟩⟩
  obtain rfl : y = x := ha
  cases a with
  | error reason => exact fun id h => nomatch h
  | ok _ =>
      rintro y rfl
      refine ⟨QueueCall.exists_answered _ _, fun a z ha => ⟨trivial, ?_⟩⟩
      cases a with
      | error reason => exact fun id h => nomatch h
      | ok fresh =>
          cases fresh with
          | false => exact fun id h => nomatch h
          | true =>
              rintro z rfl
              refine ⟨QueueCall.exists_answered _ _, fun a w hw => ⟨trivial, ?_⟩⟩
              cases a with
              | ok id =>
                  rintro _ -
                  obtain ⟨hfresh, -⟩ | ⟨-, -, rfl⟩ := ha.served
                  · cases hfresh
                  · obtain rfl : w = _ := hw.served
                    rfl
              | error reason =>
                  rintro w rfl
                  refine ⟨QueueCall.exists_answered _ _, fun a v hv => ⟨trivial, ?_⟩⟩
                  exact fun id h => nomatch h

end Queue

end Slideshow
