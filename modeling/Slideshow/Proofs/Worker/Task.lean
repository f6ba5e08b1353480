import Slideshow.Worker.Handle
import Slideshow.Proofs.Program.Trace

/-! # What tasks of a worker call

`Program.Meets` for programs that may fail: one rule for each way of putting tasks together, and
which tasks leave the record store and the queue alone. `Completes` tells what a task comes to when
every call succeeds. -/

namespace Slideshow

open Program

/-- A call of a worker and its answer. -/
abbrev WorkerExchange (α : Type) := Exchange (WorkerCall.Answer (α := α))

/-- A call past the record store and the queue. -/
def WorkerCall.Aside {α : Type} : WorkerCall α → Prop
  | .store _ | .dispatch _ => False
  | _ => True

namespace Task

variable {α β γ : Type} {issues : List (WorkerExchange α) → WorkerCall α → Prop}
  {t : List (WorkerExchange α)}

section Composition

variable {ends : List (WorkerExchange α) → Except WorkerError β → Prop}

theorem meets_bind (x : Task α γ) (f : γ → Task α β) :
    (x >>= f).run.Meets issues ends t ↔
      x.run.Meets issues (fun t result => match result with
        | .ok c => (f c).run.Meets issues ends t
        | .error e => ends t (.error e)) t := by
  rw [ExceptT.run_bind, Program.meets_bind]
  apply iff_of_eq
  congr 1
  funext t result
  cases result <;> rfl

/-- Where nothing is asked of failures, the second task may take the first to have succeeded. -/
theorem meets_bind_of_ok {x : Task α γ} {f : γ → Task α β} (herror : ∀ u e, ends u (.error e))
    (h : x.run.Meets issues
      (fun u result => ∀ c, result = .ok c → (f c).run.Meets issues ends u) t) :
    (x >>= f).run.Meets issues ends t := by
  rw [meets_bind]
  refine h.mono (fun _ _ _ h => h) ?_
  intro u result _ hresult
  cases result with
  | error e => exact herror u e
  | ok c => exact hresult c rfl

theorem leads_bind {x : Task α γ} {f : γ → Task α β} {c : γ} {u : List (WorkerExchange α)}
    {q : Program (WorkerCall.Answer (α := α)) (Except WorkerError β)}
    (hx : x.run.Leads t (.done (.ok c))) (hf : (f c).run.Leads u q) :
    (x >>= f).run.Leads (t ++ u) q := by
  rw [ExceptT.run_bind]
  exact (hx.bind _).append hf

theorem leads_ofMedia {result : Except MediaError β} {b : β} (h : result = .ok b) :
    (ofMedia result : Task α β).run.Leads [] (.done (.ok b)) := by
  rw [h]
  exact .start _

/-! ## Tasks that make calls of some kind only -/

/-- A task all of whose calls are of this kind. -/
def Only (P : WorkerCall α → Prop) (x : Task α β) : Prop :=
  ∀ t, x.run.Meets (fun _ c => P c) (fun _ _ => True) t

section Only

variable {P Q : WorkerCall α → Prop}

theorem Only.mono {x : Task α β} (hx : x.Only P) (h : ∀ c, P c → Q c) : x.Only Q :=
  fun t => (hx t).mono (fun _ c _ => h c) fun _ _ _ h => h

theorem Only.bind {x : Task α γ} {f : γ → Task α β} (hx : x.Only P) (hf : ∀ c, (f c).Only P) :
    (x >>= f).Only P := by
  intro t
  refine meets_bind_of_ok (fun _ _ => trivial) ((hx t).mono (fun _ _ _ h => h) ?_)
  intro u result _ _ c _
  exact hf c u

theorem only_pure (b : β) : (pure b : Task α β).Only P := fun _ => trivial

theorem only_throw (e : WorkerError) : (throw e : Task α β).Only P := fun _ => trivial

theorem only_ofMedia (result : Except MediaError β) : (ofMedia result : Task α β).Only P :=
  fun _ => trivial

/-- A task that is a single call. -/
theorem only_ask {c : WorkerCall α} {f : c.Answer → Except WorkerError β} {x : Task α β}
    (hx : x.run = f <$> WorkerCall.ask c) (h : P c) : x.Only P := by
  intro t
  rw [hx]
  exact ⟨h, fun _ => trivial⟩

/-- What comes after such a task has been told what was told before it, and answers to calls of this
kind. -/
theorem Only.meets_bind {x : Task α γ} {f : γ → Task α β} (hx : x.Only P)
    (hissues : ∀ u c, P c → issues u c)
    (herror : ∀ u e, (∀ y ∈ u, y ∈ t ∨ P y.call) → ends u (.error e))
    (hf : ∀ c u, t <+: u → (∀ y ∈ u, y ∈ t ∨ P y.call) → (f c).run.Meets issues ends u) :
    (x >>= f).run.Meets issues ends t := by
  rw [Task.meets_bind]
  refine (hx t).remember.mono (fun u c _ => hissues u c) ?_
  rintro u result hu ⟨-, htold⟩
  cases result with
  | error e => exact herror u e htold
  | ok c => exact hf c u hu htold

end Only

/-! ## Tasks that leave the record store and the queue alone -/

/-- A task that calls neither the record store nor the queue. -/
def Apart (x : Task α β) : Prop := ∀ t, x.run.Meets (fun _ c => c.Aside) (fun _ _ => True) t

theorem Apart.only {x : Task α β} {P : WorkerCall α → Prop} (hx : x.Apart)
    (h : ∀ c : WorkerCall α, c.Aside → P c) : x.Only P :=
  Only.mono (P := WorkerCall.Aside) hx h

theorem Apart.bind {x : Task α γ} {f : γ → Task α β} (hx : x.Apart) (hf : ∀ c, (f c).Apart) :
    (x >>= f).Apart := Only.bind (P := WorkerCall.Aside) hx hf

/-- What comes after such a task has been told at least as much as before it. -/
theorem Apart.meets_bind {x : Task α γ} {f : γ → Task α β} (hx : x.Apart)
    (haside : ∀ u c, WorkerCall.Aside c → issues u c) (herror : ∀ u e, ends u (.error e))
    (hf : ∀ c u, t <+: u → (f c).run.Meets issues ends u) :
    (x >>= f).run.Meets issues ends t :=
  Only.meets_bind (P := WorkerCall.Aside) hx haside (fun u e _ => herror u e)
    fun c u hu _ => hf c u hu

theorem apart_ofMedia (result : Except MediaError β) : (ofMedia result : Task α β).Apart :=
  fun _ => trivial

theorem apart_upload (id : JobId) (segment path : String) :
    (upload id segment path : Task α _).Apart := fun _ => ⟨trivial, fun _ => trivial⟩

theorem apart_render (plan : RenderPlan α) (path : String) : (render plan path).Apart :=
  fun _ => ⟨trivial, fun _ => trivial⟩

theorem apart_duration (path : String) : (duration path : Task α α).Apart :=
  fun _ => ⟨trivial, fun _ => trivial⟩

theorem apart_fetch (url directory : String) : (fetch url directory : Task α _).Apart :=
  fun _ => ⟨trivial, fun _ => trivial⟩

theorem apart_fetchAll (urls : List String) (directory : String) :
    (fetchAll urls directory : Task α _).Apart := fun _ => ⟨trivial, fun _ => trivial⟩

theorem apart_audioCatalog : (audioCatalog : Task α _).Apart := fun _ => ⟨trivial, fun _ => trivial⟩

end Composition

/-! ## Single calls -/

/-- A single call, and what comes after each of its answers. -/
theorem meets_bind_ask {ends : List (WorkerExchange α) → Except WorkerError β → Prop}
    {c : WorkerCall α} {x : Task α γ} {f : γ → Task α β} {g : c.Answer → Except WorkerError γ}
    (hx : x.run = g <$> WorkerCall.ask c) (hissues : issues t c)
    (herror : ∀ a e, g a = .error e → ends (t ++ [⟨c, a⟩]) (.error e))
    (hok : ∀ a b, g a = .ok b → (f b).run.Meets issues ends (t ++ [⟨c, a⟩])) :
    (x >>= f).run.Meets issues ends t := by
  rw [Task.meets_bind, hx, map_eq_pure_bind]
  refine ⟨hissues, fun a => ?_⟩
  change match g a with
    | .ok b => (f b).run.Meets issues ends (t ++ [⟨c, a⟩])
    | .error e => ends (t ++ [⟨c, a⟩]) (.error e)
  cases hga : g a with
  | error e => exact herror a e hga
  | ok b => exact hok a b hga

theorem meets_load (id : JobId) {ends} :
    (load id : Task α _).run.Meets issues ends t ↔
      issues t (.store (.load id)) ∧ ∀ a, ends (t ++ [⟨.store (.load id), a⟩]) a := Iff.rfl

theorem meets_claimJoin (id : JobId) (batch : ℕ) {ends} :
    (claimJoin id batch : Task α _).run.Meets issues ends t ↔
      issues t (.store (.claimJoin id batch)) ∧
        ∀ a, ends (t ++ [⟨.store (.claimJoin id batch), a⟩]) a := Iff.rfl

end Task

/-! ## When every call succeeds -/

/-- The call was answered with what was asked for. -/
def WorkerCall.Succeeds {α : Type} : (c : WorkerCall α) → c.Answer → Prop
  | store c, a => ∃ reply, (a : Except WorkerError c.Reply) = .ok reply
  | upload _ _ _, a => ∃ url, a = .ok url
  | dispatch _, a | download _ _, a | render _ _, a => a = .ok ()
  | duration _, a => ∃ seconds, a = .ok seconds
  | frameSize _, a => ∃ size, a = .ok size
  | filterValid _, _ => True
  | fetch _ _, a => ∃ path, a = .ok path
  | fetchAll urls _, a => ∃ paths, a = .ok paths ∧ paths.length = urls.length
  | audioCatalog, a => ∃ catalog, a = .ok catalog

theorem WorkerCall.exists_succeeds {α : Type} [Scalar α] (c : WorkerCall α) :
    ∃ a, c.Succeeds a := by
  cases c with
  | store c =>
      cases c with
      | load id => exact ⟨.ok none, none, rfl⟩
      | claimJoin id batch => exact ⟨.ok true, true, rfl⟩
      | _ => exact ⟨.ok (), (), rfl⟩
  | dispatch _ | download _ _ | render _ _ => exact ⟨.ok (), rfl⟩
  | upload _ _ _ | fetch _ _ => exact ⟨.ok "", "", rfl⟩
  | duration _ => exact ⟨.ok (Scalar.ofNat 0), _, rfl⟩
  | frameSize _ => exact ⟨.ok (1, 1), _, rfl⟩
  | filterValid _ => exact ⟨[], trivial⟩
  | fetchAll urls _ => exact ⟨.ok urls, urls, rfl, rfl⟩
  | audioCatalog => exact ⟨.ok none, none, rfl⟩

/-- All calls succeeded. -/
def Smooth {α : Type} (t : List (WorkerExchange α)) : Prop := ∀ e ∈ t, e.call.Succeeds e.answer

/-- Every program may find all its calls to succeed. -/
theorem exists_smooth {α β : Type} [Scalar α] (p : Program (WorkerCall.Answer (α := α)) β) :
    ∃ t b, p.Leads t (.done b) ∧ Smooth t := by
  induction p with
  | done b => exact ⟨[], b, .start _, by simp [Smooth]⟩
  | call request next ih =>
      obtain ⟨a, ha⟩ := request.exists_succeeds
      obtain ⟨t, b, hleads, ht⟩ := ih a
      exact ⟨_, b, .answered hleads, List.forall_mem_cons.mpr ⟨ha, ht⟩⟩

namespace Task

variable {α β γ : Type} {x : Task α β} {ends ends' : List (WorkerExchange α) → β → Prop}

/-- If all calls succeed, then so does the task, and this holds of its calls and its value. -/
def Completes (x : Task α β) (ends : List (WorkerExchange α) → β → Prop) : Prop :=
  ∀ t result, x.run.Leads t (.done result) → Smooth t → ∃ b, result = .ok b ∧ ends t b

namespace Completes

theorem mono (h : x.Completes ends) (hends : ∀ t b, ends t b → ends' t b) : x.Completes ends' := by
  intro t result hleads ht
  obtain ⟨b, hresult, hb⟩ := h t result hleads ht
  exact ⟨b, hresult, hends t b hb⟩

theorem bind {y : Task α γ} {f : γ → Task α β} {mid : List (WorkerExchange α) → γ → Prop}
    (hy : y.Completes mid)
    (hf : ∀ u c, mid u c → (f c).Completes fun v b => ends (u ++ v) b) :
    (y >>= f).Completes ends := by
  intro t result hleads ht
  rw [ExceptT.run_bind] at hleads
  obtain ⟨u, v, r, rfl, hu, hv⟩ := hleads.exists_of_bind
  obtain ⟨c, rfl, hc⟩ := hy u r hu fun e he => ht e (List.mem_append_left v he)
  exact hf u c hc v result hv fun e he => ht e (List.mem_append_right u he)

/-- A single call. -/
theorem of_ask {c : WorkerCall α} {f : c.Answer → Except WorkerError β}
    (hx : x.run = f <$> WorkerCall.ask c)
    (h : ∀ a, c.Succeeds a → ∃ b, f a = .ok b ∧ ends [⟨c, a⟩] b) : x.Completes ends := by
  intro t result hleads ht
  rw [hx, map_eq_pure_bind] at hleads
  obtain ⟨u, v, a, rfl, hu, hv⟩ := hleads.exists_of_bind
  obtain rfl := hu.eq_of_ask
  cases hv
  exact h a (ht _ List.mem_cons_self)

/-- A single call, and what comes after it. -/
theorem bind_ask {c : WorkerCall α} {y : Task α γ} {f : γ → Task α β}
    {g : c.Answer → Except WorkerError γ} (hy : y.run = g <$> WorkerCall.ask c)
    (h : ∀ a, c.Succeeds a →
      ∃ b, g a = .ok b ∧ (f b).Completes fun v result => ends (⟨c, a⟩ :: v) result) :
    (y >>= f).Completes ends := by
  have hcall : y.Completes fun u b => ∃ a, u = [⟨c, a⟩] ∧
      (f b).Completes fun v result => ends (⟨c, a⟩ :: v) result := by
    refine of_ask hy fun a ha => ?_
    obtain ⟨b, hb, hrest⟩ := h a ha
    exact ⟨b, hb, a, rfl, hrest⟩
  apply hcall.bind
  rintro _ b ⟨a, rfl, hrest⟩
  exact hrest

theorem bind_ofMedia {result : Except MediaError γ} {c : γ} {f : γ → Task α β}
    (hresult : result = .ok c) (h : (f c).Completes ends) :
    (ofMedia result >>= f).Completes ends := by
  subst hresult
  exact h

/-- A failure that is looked at does not occur. -/
theorem lift (h : x.Completes ends) : Completes (ExceptT.lift x.run : Task α (Except WorkerError β))
    fun t result => ∃ b, result = .ok b ∧ ends t b := by
  intro t result hleads ht
  change (Except.ok <$> x.run).Leads t _ at hleads
  rw [map_eq_pure_bind] at hleads
  obtain ⟨u, v, r, rfl, hu, hv⟩ := hleads.exists_of_bind
  cases hv
  rw [List.append_nil] at ht ⊢
  exact ⟨r, rfl, h u r hu ht⟩

end Completes

theorem completes_pure {b : β} (h : ends [] b) : (pure b : Task α β).Completes ends := by
  intro t result hleads _
  cases hleads
  exact ⟨b, rfl, h⟩

end Task

end Slideshow
