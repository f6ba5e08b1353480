import Slideshow.Proofs.Queue.Server

/-! # Dispatching a batch again and again

A batch is dispatched by every delivery of the request it is a part of, and a worker may crash in
between. A key that is claimed is taken to say that the message was added; it says so only if no
dispatch has left it behind. -/

namespace Slideshow

namespace Queue

variable {c : QueueConfig} {batch : BatchJob Float} {x y z : QueueServer}

/-- The key of a batch. -/
def batchKey (batch : BatchJob Float) : String := dedupKey (.renderBatch batch)

/-- The entry of a batch. -/
def batchEntry (batch : BatchJob Float) : List (String × String) := entryFields (.renderBatch batch)

/-- The message of a batch was added to the stream. -/
def Queued (c : QueueConfig) (batch : BatchJob Float) (x : QueueServer) : Prop :=
  (c.stream, batchEntry batch) ∈ x.added

/-- The key of a batch is claimed, but its message was never added. -/
def Lost (c : QueueConfig) (batch : BatchJob Float) (x : QueueServer) : Prop :=
  batchKey batch ∈ x.claimed ∧ ¬ Queued c batch x

/-! ## One dispatch -/

/-- A dispatch, as far as it came. -/
structure Dispatching (c : QueueConfig) (batch : BatchJob Float) where
  trace : List (Exchange QueueCall.Answer)
  rest : Program QueueCall.Answer (Except QueueError Unit)
  leads : (dispatch c batch).run.Leads trace rest

/-- The key may be claimed by this. -/
def MayClaim (batch : BatchJob Float) : Exchange QueueCall.Answer → Prop
  | ⟨.send (.claimKey key _), a⟩ => key = batchKey batch ∧ a ≠ (.ok false : Except String Bool)
  | _ => False

/-- The message is known to be added. -/
def Adds (c : QueueConfig) (batch : BatchJob Float) : Exchange QueueCall.Answer → Prop
  | ⟨.send (.append stream fields), a⟩ =>
    stream = c.stream ∧ fields = batchEntry batch ∧ ∃ id, a = (.ok id : Except String String)
  | _ => False

/-- The key is known to be given back. -/
def GivesBack (batch : BatchJob Float) : Exchange QueueCall.Answer → Prop
  | ⟨.send (.removeKey key), a⟩ => key = batchKey batch ∧ a = (.ok () : Except String Unit)
  | _ => False

/-- The key may have been claimed, and it is neither known that the message was added nor that the
key was given back. -/
def Unsettled (c : QueueConfig) (batch : BatchJob Float) (t : List (Exchange QueueCall.Answer)) :
    Prop :=
  (∃ e ∈ t, MayClaim batch e) ∧ (∀ e ∈ t, ¬ Adds c batch e) ∧ ∀ e ∈ t, ¬ GivesBack batch e

/-- The commands of a dispatch. -/
theorem run_dispatch (c : QueueConfig) (batch : BatchJob Float) :
    (dispatch c batch).run = .call .connect fun (a : Except String Unit) => match a with
      | .error reason => .done (.error (.server reason))
      | .ok () => .call (.send (.claimKey (batchKey batch) c.dedupSecs))
        fun (a : Except String Bool) => match a with
        | .error reason => .done (.error (.server reason))
        | .ok false => .done (.ok ())
        | .ok true => .call (.send (.append c.stream (batchEntry batch)))
          fun (a : Except String String) => match a with
          | .ok _ => .done (.ok ())
          | .error reason => .call (.send (.removeKey (batchKey batch))) fun _ =>
            .done (.error (.enqueueFailed reason)) := by
  refine congrArg (Program.call QueueCall.connect) (funext fun a => ?_)
  cases a with
  | error reason => rfl
  | ok _ =>
      refine congrArg (Program.call _) (funext fun a => ?_)
      cases a with
      | error reason => rfl
      | ok fresh =>
          cases fresh with
          | false => rfl
          | true =>
              refine congrArg (Program.call _) (funext fun a => ?_)
              cases a <;> rfl

section Progress

variable (c batch)

/-- The key is asked for. -/
abbrev claiming (a : Except String Bool) : Exchange QueueCall.Answer :=
  ⟨.send (.claimKey (batchKey batch) c.dedupSecs), a⟩

/-- The message is added. -/
abbrev adding (a : Except String String) : Exchange QueueCall.Answer :=
  ⟨.send (.append c.stream (batchEntry batch)), a⟩

/-- The key is given back. -/
abbrev removing (a : Except String Unit) : Exchange QueueCall.Answer :=
  ⟨.send (.removeKey (batchKey batch)), a⟩

/-- What was done by a dispatch that may have left the key behind. -/
inductive Leaves : List (Exchange QueueCall.Answer) → Prop where
  | unclaimed (reason) : Leaves [⟨.connect, .ok ()⟩, claiming c batch (.error reason)]
  | claimed : Leaves [⟨.connect, .ok ()⟩, claiming c batch (.ok true)]
  | failed (reason) :
      Leaves [⟨.connect, .ok ()⟩, claiming c batch (.ok true), adding c batch (.error reason)]
  | stuck (reason reason') :
      Leaves [⟨.connect, .ok ()⟩, claiming c batch (.ok true), adding c batch (.error reason),
        removing batch (.error reason')]

/-- How far a dispatch may come: it asked for nothing, was told that the key is taken, added its
message, gave the key back, or may have left the key behind. -/
inductive Progress :
    List (Exchange QueueCall.Answer) → Program QueueCall.Answer (Except QueueError Unit) → Prop where
  | idle {t rest} (ht : ∀ e ∈ t, e.call = .connect) (hrest : rest ≠ .done (.ok ())) :
      Progress t rest
  | taken : Progress [⟨.connect, .ok ()⟩, claiming c batch (.ok false)] (.done (.ok ()))
  | added (id) :
      Progress [⟨.connect, .ok ()⟩, claiming c batch (.ok true), adding c batch (.ok id)]
        (.done (.ok ()))
  | undone (reason) :
      Progress [⟨.connect, .ok ()⟩, claiming c batch (.ok true), adding c batch (.error reason),
        removing batch (.ok ())] (.done (.error (.enqueueFailed reason)))
  | left {t rest} (ht : Leaves c batch t) (hrest : rest ≠ .done (.ok ())) : Progress t rest

end Progress

theorem Dispatching.progress (d : Dispatching c batch) : Progress c batch d.trace d.rest := by
  obtain ⟨t, rest, hleads⟩ := d
  rw [run_dispatch] at hleads
  cases hleads with
  | start => exact .idle (by simp) (fun h => nomatch h)
  | @answered _ _ a _ _ hleads =>
      cases a with
      | error reason =>
          cases hleads
          exact .idle (by simp) (fun h => nomatch h)
      | ok _ =>
          cases hleads with
          | start => exact .idle (by simp) (fun h => nomatch h)
          | @answered _ _ a _ _ hleads =>
              cases a with
              | error reason =>
                  cases hleads
                  exact .left (.unclaimed reason) (fun h => nomatch h)
              | ok fresh =>
                  cases fresh with
                  | false =>
                      cases hleads
                      exact .taken
                  | true =>
                      cases hleads with
                      | start => exact .left .claimed (fun h => nomatch h)
                      | @answered _ _ a _ _ hleads =>
                          cases a with
                          | ok id =>
                              cases hleads
                              exact .added id
                          | error reason =>
                              cases hleads with
                              | start => exact .left (.failed reason) (fun h => nomatch h)
                              | @answered _ _ a _ _ hleads =>
                                  cases hleads
                                  cases a with
                                  | ok _ => exact .undone reason
                                  | error reason' =>
                                      exact .left (.stuck reason reason') (fun h => nomatch h)

theorem Leaves.unsettled {t : List (Exchange QueueCall.Answer)} (h : Leaves c batch t) :
    Unsettled c batch t := by
  refine ⟨?_, ?_, ?_⟩
  · cases h <;> exact ⟨_, List.mem_cons_of_mem _ List.mem_cons_self, rfl, fun h => nomatch h⟩
  · cases h <;> simp [Adds]
  · cases h <;> simp [GivesBack]

variable {t : List (Exchange QueueCall.Answer)}
  {rest : Program QueueCall.Answer (Except QueueError Unit)}

theorem Progress.leaves (h : Progress c batch t rest) (hunsettled : Unsettled c batch t) :
    Leaves c batch t := by
  obtain ⟨⟨e, he, hclaim⟩, hadds, hback⟩ := hunsettled
  cases h with
  | idle ht hrest =>
      obtain ⟨call, a⟩ := e
      cases ht _ he
      exact hclaim.elim
  | taken =>
      rcases List.mem_pair.mp he with rfl | rfl
      · exact hclaim.elim
      · exact (hclaim.2 rfl).elim
  | added id => exact (hadds (adding c batch (.ok id)) (by simp) ⟨rfl, rfl, id, rfl⟩).elim
  | undone reason => exact (hback (removing batch (.ok ())) (by simp) ⟨rfl, rfl⟩).elim
  | left ht hrest => exact ht

theorem allowed_connect (h : System.Allowed QueueCall.Answered t x y)
    (ht : ∀ e ∈ t, e.call = .connect) : y = x := by
  induction h with
  | nil x => rfl
  | @cons e t x y z ha _ ih =>
      obtain ⟨call, a⟩ := e
      obtain rfl : call = .connect := ht _ List.mem_cons_self
      rw [ih fun e he => ht e (List.mem_cons_of_mem _ he)]
      exact ha

/-- A caller who is told that the batch was dispatched is told so because its message was added just
now, or because the key is taken. -/
theorem Progress.ends (h : Progress c batch t (.done (.ok ())))
    (ht : System.Allowed QueueCall.Answered t x y) :
    Queued c batch y ∨ batchKey batch ∈ x.claimed ∧ y = x := by
  cases h with
  | idle _ hrest | left _ hrest => exact (hrest rfl).elim
  | taken =>
      obtain _ | ⟨rfl, _ | ⟨hclaim, ⟨⟩⟩⟩ := ht
      obtain ⟨-, hkey, rfl⟩ | ⟨hfresh, -⟩ := hclaim.served
      · exact .inr ⟨hkey, rfl⟩
      · cases hfresh
  | added id =>
      obtain _ | ⟨rfl, _ | ⟨-, _ | ⟨hadd, ⟨⟩⟩⟩⟩ := ht
      obtain rfl : y = _ := hadd.served
      exact .inl (List.mem_append_right _ (List.mem_singleton_self _))

/-- A batch gets lost only by a dispatch that may have left the key behind. -/
theorem Progress.lost (h : Progress c batch t rest) (ht : System.Allowed QueueCall.Answered t x y)
    (hlost : Lost c batch y) : Lost c batch x ∨ Unsettled c batch t := by
  -- a dispatch that ends well has added the message or changed nothing
  have hended : Progress c batch t (.done (.ok ())) → Lost c batch x := by
    intro h
    rcases h.ends ht with hqueued | ⟨-, rfl⟩
    · exact (hlost.2 hqueued).elim
    · exact hlost
  cases h with
  | idle hidle hrest =>
      cases allowed_connect ht hidle
      exact .inl hlost
  | taken => exact .inl (hended .taken)
  | added id => exact .inl (hended (.added id))
  | undone reason =>
      obtain _ | ⟨rfl, _ | ⟨-, _ | ⟨-, _ | ⟨hremove, ⟨⟩⟩⟩⟩⟩ := ht
      obtain rfl : y = _ := hremove.served
      exact (hlost.1.2 rfl).elim
  | left hleaves hrest => exact .inr hleaves.unsettled

/-- Every dispatch that may have left the key behind may have lost the batch. -/
theorem Leaves.exists_lost (h : Leaves c batch t) (hkey : batchKey batch ∉ x.claimed)
    (hqueued : ¬ Queued c batch x) :
    ∃ y, System.Allowed QueueCall.Answered t x y ∧ Lost c batch y := by
  refine ⟨{ x with claimed := insert (batchKey batch) x.claimed }, ?_, Set.mem_insert _ _, hqueued⟩
  have hserved : (QueueCommand.claimKey (batchKey batch) c.dedupSecs).Served x true
      { x with claimed := insert (batchKey batch) x.claimed } := .inr ⟨rfl, hkey, rfl⟩
  cases h with
  | unclaimed reason =>
      exact .cons rfl (.cons (.inr ⟨⟨reason, rfl⟩, .inr ⟨true, hserved⟩⟩) (.nil _))
  | claimed => exact .cons rfl (.cons (.inl ⟨true, rfl, hserved⟩) (.nil _))
  | failed reason =>
      exact .cons rfl (.cons (.inl ⟨true, rfl, hserved⟩)
        (.cons (.inr ⟨⟨reason, rfl⟩, .inl rfl⟩) (.nil _)))
  | stuck reason reason' =>
      exact .cons rfl (.cons (.inl ⟨true, rfl, hserved⟩) (.cons (.inr ⟨⟨reason, rfl⟩, .inl rfl⟩)
        (.cons (.inr ⟨⟨reason', rfl⟩, .inl rfl⟩) (.nil _))))

/-! ## One dispatch after another -/

/-- Dispatches of a batch after one another, each as far as it came before its worker crashed. -/
inductive Tried (c : QueueConfig) (batch : BatchJob Float) (x : QueueServer) :
    List (Dispatching c batch) → QueueServer → Prop where
  | none : Tried c batch x [] x
  | again {before y z} (h : Tried c batch x before y) (d : Dispatching c batch)
      (hd : System.Allowed QueueCall.Answered d.trace y z) : Tried c batch x (before ++ [d]) z

theorem Tried.lost {before : List (Dispatching c batch)} (h : Tried c batch x before y)
    (hlost : Lost c batch y) : Lost c batch x ∨ ∃ d ∈ before, Unsettled c batch d.trace := by
  induction h with
  | none => exact .inl hlost
  | again h d hd ih =>
      rcases d.progress.lost hd hlost with hlost | hunsettled
      · exact (ih hlost).imp_right fun ⟨d, hd, hunsettled⟩ =>
          ⟨d, List.mem_append_left _ hd, hunsettled⟩
      · exact .inr ⟨d, List.mem_append_right _ (List.mem_singleton_self d), hunsettled⟩

/-- Whoever is told by the next dispatch that the batch was dispatched can rely on it. -/
def Reliable (c : QueueConfig) (batch : BatchJob Float) (x : QueueServer) : Prop :=
  ∀ (d : Dispatching c batch) (y : QueueServer), System.Allowed QueueCall.Answered d.trace x y →
    d.rest = .done (.ok ()) → Queued c batch y

/-- A dispatch that finds the key taken. -/
def refused (c : QueueConfig) (batch : BatchJob Float) : Dispatching c batch where
  trace := [⟨.connect, .ok ()⟩, claiming c batch (.ok false)]
  rest := .done (.ok ())
  leads := by
    rw [run_dispatch]
    exact .answered (.answered (.start _))

theorem reliable_iff : Reliable c batch x ↔ ¬ Lost c batch x := by
  refine ⟨fun h hlost => ?_, fun h d y hd hends => ?_⟩
  · exact hlost.2 (h (refused c batch) x
      (.cons rfl (.cons (.inl ⟨false, rfl, .inl ⟨rfl, hlost.1, rfl⟩⟩) (.nil x))) rfl)
  · have hprogress := d.progress
    rw [hends] at hprogress
    rcases hprogress.ends hd with hqueued | ⟨hkey, rfl⟩
    · exact hqueued
    · exact Classical.byContradiction fun hqueued => h ⟨hkey, hqueued⟩

/-- After dispatches of a batch that were all settled, it can be relied on that it was dispatched. In
general it can exactly if the batch is not lost; it may get lost by every dispatch that is not
settled. -/
theorem dispatch_reliable (c : QueueConfig) (batch : BatchJob Float) {x y : QueueServer}
    (hx : ¬ Lost c batch x) {before : List (Dispatching c batch)} (h : Tried c batch x before y) :
    ((∀ d ∈ before, ¬ Unsettled c batch d.trace) → Reliable c batch y) ∧
      (Reliable c batch y ↔ ¬ Lost c batch y) ∧
      ∀ d : Dispatching c batch, Unsettled c batch d.trace → batchKey batch ∉ y.claimed →
        ¬ Queued c batch y → ∃ z, Tried c batch x (before ++ [d]) z ∧ ¬ Reliable c batch z := by
  refine ⟨fun hsettled => reliable_iff.mpr fun hlost => ?_, reliable_iff, ?_⟩
  · rcases h.lost hlost with hlost | ⟨d, hd, hunsettled⟩
    · exact hx hlost
    · exact hsettled d hd hunsettled
  · intro d hunsettled hkey hqueued
    obtain ⟨z, hz, hlost⟩ := (d.progress.leaves hunsettled).exists_lost hkey hqueued
    exact ⟨z, .again h d hz, fun hreliable => reliable_iff.mp hreliable hlost⟩

/-! ## A batch whose worker crashes -/

/-- A batch of one slide. -/
def slideBatch : BatchJob Float := ⟨"holiday", 1, ["https://img/0.jpg"], .standard⟩

/-- A dispatch whose worker crashes once the key is claimed. -/
def crashed : Dispatching {} slideBatch where
  trace := [⟨.connect, .ok ()⟩, claiming {} slideBatch (.ok true)]
  rest := _
  leads := by
    rw [run_dispatch]
    exact .answered (.answered (.start _))

/-- A dispatch that adds the message. -/
def undisturbed : Dispatching {} slideBatch where
  trace := [⟨.connect, .ok ()⟩, claiming {} slideBatch (.ok true), adding {} slideBatch (.ok "1-0")]
  rest := .done (.ok ())
  leads := by
    rw [run_dispatch]
    exact .answered (.answered (.answered (.start _)))

/-- Once a dispatch has added the message, all others that find the key taken can be relied on. -/
theorem dispatch_reliable_undisturbed :
    ¬ Lost {} slideBatch ⟨∅, []⟩ ∧ ∃ y, Tried {} slideBatch ⟨∅, []⟩ [undisturbed] y ∧
      Reliable {} slideBatch y := by
  have hx : ¬ Lost {} slideBatch ⟨∅, []⟩ := fun h => h.1
  have htried : Tried {} slideBatch ⟨∅, []⟩ ([] ++ [undisturbed]) _ := .again .none undisturbed
    (.cons rfl (.cons (.inl ⟨true, rfl, .inr ⟨rfl, fun h => h, rfl⟩⟩)
      (.cons (.inl ⟨"1-0", rfl, rfl⟩) (.nil _))))
  refine ⟨hx, _, htried, (dispatch_reliable {} slideBatch hx htried).1 fun d hd hunsettled => ?_⟩
  obtain rfl := List.mem_singleton.mp hd
  exact hunsettled.2.1 (adding {} slideBatch (.ok "1-0")) (by simp [undisturbed])
    ⟨rfl, rfl, "1-0", rfl⟩

/-- A worker crashes between claiming the key and adding the message; the next dispatch is told that
the message was added, although none was. -/
theorem not_queued_after_crash :
    ¬ ∀ (before : List (Dispatching {} slideBatch)) (d : Dispatching {} slideBatch) (y : QueueServer),
      Tried {} slideBatch ⟨∅, []⟩ (before ++ [d]) y → d.rest = .done (.ok ()) →
        Queued {} slideBatch y := by
  intro h
  have hcrashed : Tried {} slideBatch ⟨∅, []⟩ ([] ++ [crashed]) _ := .again .none crashed
    (.cons rfl (.cons (.inl ⟨true, rfl, .inr ⟨rfl, fun h => h, rfl⟩⟩) (.nil _)))
  have hrefused := Tried.again hcrashed (refused {} slideBatch)
    (.cons rfl (.cons (.inl ⟨false, rfl, .inl ⟨rfl, Set.mem_insert _ _, rfl⟩⟩) (.nil _)))
  exact List.not_mem_nil (h _ _ _ hrefused rfl)

end Queue

end Slideshow
