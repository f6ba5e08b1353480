import Slideshow.Program
import Mathlib.Data.List.Basic

/-! # Traces of programs

A trace lists the calls a program has made, each with its answer. `Leads` says what remains of a
program after a trace, and `Meets` what a program may call and how it may end, given what it has
been told. Both follow the tree of the program. -/

namespace Slideshow

/-- A call and what it was answered with. -/
structure Exchange {Call : Type} (Answer : Call → Type) where
  call : Call
  answer : Answer call

namespace Program

variable {Call : Type} {Answer : Call → Type} {β γ : Type}

/-! ## The monad laws -/

theorem map_id_eq (p : Program Answer β) : id <$> p = p := by
  induction p with
  | done b => rfl
  | call request next ih => exact congrArg (call request) (funext ih)

theorem bind_assoc_eq {δ : Type} (p : Program Answer β) (f : β → Program Answer γ)
    (g : γ → Program Answer δ) : p >>= f >>= g = p >>= fun b => f b >>= g := by
  induction p with
  | done b => rfl
  | call request next ih => exact congrArg (call request) (funext ih)

instance : LawfulMonad (Program Answer) :=
  LawfulMonad.mk' _ map_id_eq (fun _ _ => rfl) bind_assoc_eq

/-- What is run after a program is run with the value of its run. -/
theorem run_bind {m : Type → Type} [Monad m] [LawfulMonad m]
    (answer : (request : Call) → m (Answer request)) (p : Program Answer β)
    (f : β → Program Answer γ) :
    (p >>= f).run answer = p.run answer >>= fun b => (f b).run answer := by
  induction p with
  | done b => exact (pure_bind b fun b => (f b).run answer).symm
  | call request next ih => simp only [call_bind, run, ih, bind_assoc]

/-! ## What remains after a trace -/

/-- `p.Leads t q`: once the exchanges of `t` are over, `q` is what remains of `p`. -/
inductive Leads : Program Answer β → List (Exchange Answer) → Program Answer β → Prop where
  | start (p) : Leads p [] p
  | answered {request next a t q} :
      Leads (next a) t q → Leads (call request next) (⟨request, a⟩ :: t) q

theorem Leads.append {p q r : Program Answer β} {t u : List (Exchange Answer)}
    (h : p.Leads t q) (h' : q.Leads u r) : p.Leads (t ++ u) r := by
  induction h with
  | start p => exact h'
  | answered _ ih => exact .answered (ih h')

theorem Leads.proceed {p : Program Answer β} {t : List (Exchange Answer)} {request : Call}
    {next : Answer request → Program Answer β} (h : p.Leads t (call request next))
    (a : Answer request) : p.Leads (t ++ [⟨request, a⟩]) (next a) :=
  h.append (.answered (.start _))

theorem Leads.eq {p q r : Program Answer β} {t : List (Exchange Answer)}
    (h : p.Leads t q) (h' : p.Leads t r) : q = r := by
  induction h with
  | start p =>
      cases h'
      rfl
  | answered _ ih =>
      cases h' with
      | answered h' => exact ih h'

theorem Leads.bind {p q : Program Answer β} {t : List (Exchange Answer)} (h : p.Leads t q)
    (f : β → Program Answer γ) : (p >>= f).Leads t (q >>= f) := by
  induction h with
  | start p => exact .start _
  | answered _ ih => exact .answered ih

theorem Leads.of_append {p q r : Program Answer β} {t u : List (Exchange Answer)}
    (h : p.Leads t q) (h' : p.Leads (t ++ u) r) : q.Leads u r := by
  induction h with
  | start p => exact h'
  | answered _ ih =>
      cases h' with
      | answered h' => exact ih h'

/-- A run of two programs is a run of the one and then a run of the other. -/
theorem Leads.exists_of_bind {p : Program Answer β} {f : β → Program Answer γ}
    {t : List (Exchange Answer)} {c : γ} (h : (p >>= f).Leads t (done c)) :
    ∃ u v b, t = u ++ v ∧ p.Leads u (done b) ∧ (f b).Leads v (done c) := by
  induction p generalizing t with
  | done b => exact ⟨[], t, b, rfl, .start _, h⟩
  | call request next ih =>
      rw [call_bind] at h
      cases h with
      | answered h =>
          obtain ⟨u, v, b, rfl, hu, hv⟩ := ih _ h
          exact ⟨_ :: u, v, b, rfl, .answered hu, hv⟩

theorem Leads.eq_of_ask {request : Call} {t : List (Exchange Answer)} {a : Answer request}
    (h : (ask request).Leads t (done a)) : t = [⟨request, a⟩] := by
  cases h with
  | answered h =>
      cases h
      rfl

/-! ## What a program may do -/

/-- `p.Meets issues ends t`: where `p` goes on after the exchanges of `t`, `issues` allows every
call it makes, given the exchanges before that call, and `ends` every value it ends with. -/
def Meets (issues : List (Exchange Answer) → Call → Prop)
    (ends : List (Exchange Answer) → β → Prop) :
    Program Answer β → List (Exchange Answer) → Prop
  | done b, t => ends t b
  | call request next, t =>
    issues t request ∧ ∀ a, (next a).Meets issues ends (t ++ [⟨request, a⟩])

section Meets

variable {issues issues' : List (Exchange Answer) → Call → Prop}
  {ends ends' : List (Exchange Answer) → β → Prop} {t u : List (Exchange Answer)}

@[simp] theorem meets_done (b : β) :
    (done b : Program Answer β).Meets issues ends t ↔ ends t b := Iff.rfl

@[simp] theorem meets_call (request : Call) (next : Answer request → Program Answer β) :
    (call request next).Meets issues ends t ↔
      issues t request ∧ ∀ a, (next a).Meets issues ends (t ++ [⟨request, a⟩]) := Iff.rfl

/-- What a program does after another is part of how the other may end. -/
theorem meets_bind (p : Program Answer γ) (f : γ → Program Answer β) :
    (p >>= f).Meets issues ends t ↔
      p.Meets issues (fun t c => (f c).Meets issues ends t) t := by
  induction p generalizing t with
  | done c => rfl
  | call request next ih => simp only [call_bind, meets_call, ih]

theorem Meets.mono {p : Program Answer β} (h : p.Meets issues ends t)
    (hcalls : ∀ u request, t <+: u → issues u request → issues' u request)
    (hends : ∀ u b, t <+: u → ends u b → ends' u b) : p.Meets issues' ends' t := by
  induction p generalizing t with
  | done b => exact hends t b (List.prefix_refl t) h
  | call request next ih =>
      refine ⟨hcalls t request (List.prefix_refl t) h.1, fun a => ih a (h.2 a) ?_ ?_⟩
      · intro u request' hu
        exact hcalls u request' ((List.prefix_append t _).trans hu)
      · intro u b hu
        exact hends u b ((List.prefix_append t _).trans hu)

/-- What a program does from the start it does after other exchanges too, if these do not matter. -/
theorem Meets.after {p : Program Answer β} (h : p.Meets issues ends [])
    (hcalls : ∀ u request, issues u request → issues' (t ++ u) request)
    (hends : ∀ u b, ends u b → ends' (t ++ u) b) : p.Meets issues' ends' t := by
  have hlater : ∀ u, p.Meets issues ends u → p.Meets issues' ends' (t ++ u) := by
    clear h
    intro u h
    induction p generalizing u with
    | done b => exact hends u b h
    | call request next ih =>
        refine ⟨hcalls u request h.1, fun a => ?_⟩
        rw [List.append_assoc]
        exact ih a _ (h.2 a)
  simpa using hlater [] h

theorem Meets.and {p : Program Answer β} (h : p.Meets issues ends t)
    (h' : p.Meets issues' ends' t) :
    p.Meets (fun u request => issues u request ∧ issues' u request)
      (fun u b => ends u b ∧ ends' u b) t := by
  induction p generalizing t with
  | done b => exact ⟨h, h'⟩
  | call request next ih => exact ⟨⟨h.1, h'.1⟩, fun a => ih a (h.2 a) (h'.2 a)⟩

/-- Every exchange that a program adds is about a call that it was allowed. -/
theorem Meets.remember {P : Call → Prop} {p : Program Answer β}
    (h : p.Meets (fun _ request => P request) ends t) :
    p.Meets (fun _ request => P request)
      (fun u b => ends u b ∧ ∀ e ∈ u, e ∈ t ∨ P e.call) t := by
  induction p generalizing t with
  | done b => exact ⟨h, fun e he => .inl he⟩
  | call request next ih =>
      refine ⟨h.1, fun a => (ih a (h.2 a)).mono (fun _ _ _ h => h) ?_⟩
      rintro u b - ⟨hb, hu⟩
      refine ⟨hb, fun e he => ?_⟩
      rcases hu e he with he | he
      · rcases List.mem_append.mp he with he | he
        · exact .inl he
        · cases List.mem_singleton.mp he
          exact .inr h.1
      · exact .inr he

/-- A program that is cut off does what it did before, and has made the number of calls it was
granted. -/
theorem Meets.cutAfter {p : Program Answer β} (h : p.Meets issues ends t) (n : ℕ) :
    (p.cutAfter n).Meets issues
      (fun u result => (∃ b, result = some b) ∨ u.length = t.length + n) t := by
  induction p generalizing t n with
  | done b => simp [Program.cutAfter]
  | call request next ih =>
      cases n with
      | zero => simp [Program.cutAfter]
      | succ n =>
          refine ⟨h.1, fun a => (ih a (h.2 a) n).mono (fun _ _ _ h => h) ?_⟩
          rintro u result - (hdone | hlength)
          · exact .inl hdone
          · refine .inr ?_
            rw [hlength, List.length_append, List.length_singleton]
            omega

/-- Where everything is allowed from now on, no program does anything else. -/
theorem meets_of_forall (p : Program Answer β) (hcalls : ∀ u request, t <+: u → issues u request)
    (hends : ∀ u b, t <+: u → ends u b) : p.Meets issues ends t := by
  induction p generalizing t with
  | done b => exact hends t b (List.prefix_refl t)
  | call request next ih =>
      have hlonger : ∀ {a : Answer request} {u}, t ++ [⟨request, a⟩] <+: u → t <+: u :=
        fun hu => (List.prefix_append t _).trans hu
      refine ⟨hcalls t request (List.prefix_refl t), fun a => ih a ?_ ?_⟩
      · exact fun u request' hu => hcalls u request' (hlonger hu)
      · exact fun u b hu => hends u b (hlonger hu)

theorem Meets.issues_of_leads {p : Program Answer β} (h : p.Meets issues ends t)
    {request : Call} {next : Answer request → Program Answer β}
    (hp : p.Leads u (call request next)) : issues (t ++ u) request := by
  generalize hq : call request next = q at hp
  induction hp generalizing t with
  | start p =>
      subst hq
      simpa using h.1
  | @answered _ _ a _ _ _ ih => simpa using ih (h.2 a) hq

/-- A call that was made was allowed when it was made. -/
theorem Meets.issues_of_mem {p q : Program Answer β} (h : p.Meets issues ends t)
    (hp : p.Leads u q) {e : Exchange Answer} (he : e ∈ u) :
    ∃ v, v <+: u ∧ issues (t ++ v) e.call := by
  induction hp generalizing t with
  | start p => cases he
  | @answered request next a u q _ ih =>
      rcases List.mem_cons.mp he with rfl | he
      · exact ⟨[], List.nil_prefix, by simpa using h.1⟩
      · obtain ⟨v, hv, hissues⟩ := ih (h.2 a) he
        exact ⟨⟨request, a⟩ :: v, (List.prefix_cons_inj _).mpr hv, by simpa using hissues⟩

theorem Meets.ends_of_leads {p : Program Answer β} (h : p.Meets issues ends t) {b : β}
    (hp : p.Leads u (done b)) : ends (t ++ u) b := by
  generalize hq : done b = q at hp
  induction hp generalizing t with
  | start p =>
      subst hq
      simpa using h
  | @answered _ _ a _ _ _ ih => simpa using ih (h.2 a) hq

/-! A program ends where its exchanges have led it. -/

end Meets

end Program

end Slideshow
