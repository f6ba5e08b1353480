import Slideshow.Proofs.Program.Trace
import Mathlib.Logic.Relation

/-! # Programs that share their surroundings

Any number of runs of programs take turns, one call at a time, and a run may crash between two
calls. `Discipline` collects what must be shown of a single call; from it follows, for every order
of steps, that the shared state is sound and that every exchange of every run still counts. -/

namespace Slideshow

variable {Call M σ β : Type} {Answer : Call → Type}

/-! ## Runs -/

/-- The program that a message starts, as far as it has come. -/
structure Attempt (start : M → Program Answer β) where
  message : M
  trace : List (Exchange Answer)
  rest : Program Answer β
  leads : (start message).Leads trace rest
  crashed : Bool

namespace Attempt

variable {start : M → Program Answer β}

/-- A message on which no work has been done. -/
def fresh (m : M) : Attempt start := ⟨m, [], start m, .start _, false⟩

/-- One call further. -/
def proceed (d : Attempt start) {request : Call} {next : Answer request → Program Answer β}
    (h : d.rest = .call request next) (a : Answer request) : Attempt start where
  message := d.message
  trace := d.trace ++ [⟨request, a⟩]
  rest := next a
  leads := (h ▸ d.leads).proceed a
  crashed := d.crashed

/-- The worker dies. -/
def crash (d : Attempt start) : Attempt start := { d with crashed := true }

/-- An answer is awaited. -/
def InFlight (d : Attempt start) : Prop :=
  d.crashed = false ∧ ∃ request next, d.rest = .call request next

theorem not_inFlight_of_done {d : Attempt start} {b : β} (h : d.rest = .done b) : ¬ d.InFlight := by
  rintro ⟨-, request, next, hrest⟩
  cases h.symm.trans hrest

/-- A run that neither crashed nor awaits an answer has ended with a value. -/
theorem rest_eq_done {d : Attempt start} (hc : d.crashed = false) (hf : ¬ d.InFlight) :
    ∃ b, d.rest = .done b := by
  cases h : d.rest with
  | done b => exact ⟨b, rfl⟩
  | call request next => exact (hf ⟨hc, request, next, h⟩).elim

end Attempt

/-- A shared state and the runs that use it, in the order in which they began. -/
structure System (start : M → Program Answer β) (σ : Type) where
  shared : σ
  attempts : List (Attempt start)

namespace System

variable {start : M → Program Answer β}

/-- What may happen next: a message that `admits` allows is delivered, one run is answered as
`answers` allows, or one run crashes. -/
inductive Step (answers : (request : Call) → σ → Answer request → σ → Prop)
    (admits : System start σ → M → Prop) : System start σ → System start σ → Prop where
  | deliver (s : System start σ) (m : M) (h : admits s m) :
      Step answers admits s { s with attempts := s.attempts ++ [.fresh m] }
  | answer (s : System start σ) (i : ℕ) (d : Attempt start) {request : Call}
      {next : Answer request → Program Answer β} (a : Answer request) (after : σ)
      (hi : s.attempts[i]? = some d) (hc : d.crashed = false)
      (hrest : d.rest = .call request next) (ha : answers request s.shared a after) :
      Step answers admits s ⟨after, s.attempts.set i (d.proceed hrest a)⟩
  | crash (s : System start σ) (i : ℕ) (d : Attempt start) (hi : s.attempts[i]? = some d)
      (hf : d.InFlight) : Step answers admits s { s with attempts := s.attempts.set i d.crash }

/-- Messages are delivered when nobody works. -/
def Idle (s : System start σ) (_ : M) : Prop := ∀ d ∈ s.attempts, ¬ d.InFlight

/-- Any number of steps. -/
abbrev Reaches (answers : (request : Call) → σ → Answer request → σ → Prop)
    (admits : System start σ → M → Prop) : System start σ → System start σ → Prop :=
  Relation.ReflTransGen (Step answers admits)

variable {answers : (request : Call) → σ → Answer request → σ → Prop}
  {admits : System start σ → M → Prop} {s s' : System start σ}

theorem getElem?_set_cases {as : List (Attempt start)} {i j : ℕ} {d d' : Attempt start}
    (h : (as.set i d)[j]? = some d') : i = j ∧ d' = d ∨ as[j]? = some d' := by
  rw [List.getElem?_set] at h
  split at h
  · split at h
    · cases h
      exact .inl ⟨‹i = j›, rfl⟩
    · cases h
  · exact .inr h

theorem getElem?_concat_cases {as : List (Attempt start)} {j : ℕ} {d d' : Attempt start}
    (h : (as ++ [d])[j]? = some d') : j = as.length ∧ d' = d ∨ as[j]? = some d' := by
  rcases Nat.lt_or_ge j as.length with hlt | hge
  · rw [List.getElem?_append_left hlt] at h
    exact .inr h
  · rw [List.getElem?_append_right hge, List.getElem?_singleton] at h
    split at h
    · cases h
      exact .inl ⟨by omega, rfl⟩
    · cases h

theorem Step.length_attempts_le (h : Step answers admits s s') :
    s'.attempts.length ≤ s.attempts.length + 1 := by
  cases h <;> simp

/-- A run after a step was just begun, or it was there before the step and has been told at most one
thing since, in answer to a call it was waiting on. -/
theorem Step.attempt_before (h : Step answers admits s s') {j : ℕ} {d' : Attempt start}
    (hj : s'.attempts[j]? = some d') :
    (s.attempts.length ≤ j ∧ ∃ m, admits s m ∧ d' = .fresh m) ∨
    ∃ d, s.attempts[j]? = some d ∧ d'.message = d.message ∧ (d'.InFlight → d.InFlight) ∧
      (d'.trace = d.trace ∨
        d.InFlight ∧ ∃ e, d'.trace = d.trace ++ [e] ∧
          answers e.call s.shared e.answer s'.shared) := by
  cases h with
  | deliver m hm =>
      rcases getElem?_concat_cases hj with ⟨rfl, rfl⟩ | hj
      · exact .inl ⟨Nat.le_refl _, m, hm, rfl⟩
      · exact .inr ⟨d', hj, rfl, id, .inl rfl⟩
  | answer i d a after hi hc hrest ha =>
      rcases getElem?_set_cases hj with ⟨rfl, rfl⟩ | hj
      · have hf : d.InFlight := ⟨hc, _, _, hrest⟩
        exact .inr ⟨d, hi, rfl, fun _ => hf, .inr ⟨hf, _, rfl, ha⟩⟩
      · exact .inr ⟨d', hj, rfl, id, .inl rfl⟩
  | crash i d hi hf =>
      rcases getElem?_set_cases hj with ⟨rfl, rfl⟩ | hj
      · exact .inr ⟨d, hi, rfl, fun _ => hf, .inl rfl⟩
      · exact .inr ⟨d', hj, rfl, id, .inl rfl⟩

variable (answers) in
/-- One exchange after another is what `answers` allows between two states. -/
inductive Allowed : List (Exchange Answer) → σ → σ → Prop where
  | nil (x) : Allowed [] x x
  | cons {e t x y z} : answers e.call x e.answer y → Allowed t y z → Allowed (e :: t) x z

theorem Allowed.append {t u : List (Exchange Answer)} {x y z : σ} (h : Allowed answers t x y)
    (h' : Allowed answers u y z) : Allowed answers (t ++ u) x z := by
  induction h with
  | nil x => exact h'
  | cons ha _ ih => exact .cons ha (ih h')

theorem Allowed.mono {answers' : (request : Call) → σ → Answer request → σ → Prop}
    {t : List (Exchange Answer)} {x y : σ} (h : Allowed answers t x y)
    (hanswers : ∀ {request x a y}, answers request x a y → answers' request x a y) :
    Allowed answers' t x y := by
  induction h with
  | nil x => exact .nil x
  | cons ha _ ih => exact .cons (hanswers ha) ih

theorem Allowed.of_append {t u : List (Exchange Answer)} {x z : σ}
    (h : Allowed answers (t ++ u) x z) : ∃ y, Allowed answers t x y ∧ Allowed answers u y z := by
  induction t generalizing x with
  | nil => exact ⟨x, .nil x, h⟩
  | cons e t ih =>
      cases h with
      | cons ha h =>
          obtain ⟨y, ht, hu⟩ := ih h
          exact ⟨y, .cons ha ht, hu⟩

/-- A run that is given one answer after another comes to an end. -/
theorem exists_leads_done (h : ∀ request (x : σ), ∃ a y, answers request x a y)
    (p : Program Answer β) (x : σ) :
    ∃ t y b, Allowed answers t x y ∧ p.Leads t (.done b) := by
  induction p generalizing x with
  | done b => exact ⟨[], x, b, .nil x, .start _⟩
  | call request next ih =>
      obtain ⟨a, y, ha⟩ := h request x
      obtain ⟨t, z, b, ht, hleads⟩ := ih a y
      exact ⟨_, z, b, .cons ha ht, .answered hleads⟩

theorem Reaches.mono {answers' : (request : Call) → σ → Answer request → σ → Prop}
    {admits' : System start σ → M → Prop}
    (hanswers : ∀ {request x a y}, answers request x a y → answers' request x a y)
    (hadmits : ∀ {s m}, admits s m → admits' s m) (h : Reaches answers admits s s') :
    Reaches answers' admits' s s' := by
  refine Relation.ReflTransGen.mono (fun s s' hstep => ?_) s s' h
  cases hstep with
  | deliver m hm => exact .deliver s m (hadmits hm)
  | answer i d a after hi hc hrest ha => exact .answer s i d a after hi hc hrest (hanswers ha)
  | crash i d hi hf => exact .crash s i d hi hf

/-- The last run may take all its turns at once. -/
theorem Reaches.proceed {as : List (Attempt start)} {x y : σ} {m : M} {p q : Program Answer β}
    {t u : List (Exchange Answer)} (hp : (start m).Leads t p) (hq : p.Leads u q)
    (hu : Allowed answers u x y) :
    Reaches answers admits ⟨x, as ++ [⟨m, t, p, hp, false⟩]⟩
      ⟨y, as ++ [⟨m, t ++ u, q, hp.append hq, false⟩]⟩ := by
  -- for every trace before: it grows while the one that is left shrinks
  induction hq generalizing t x with
  | start p =>
      cases hu
      simp only [List.append_nil]
      exact .refl
  | @answered request next a u q hq ih =>
      cases hu with
      | @cons _ _ _ x' _ ha hu =>
          have hlast : (as ++ [(⟨m, t, _, hp, false⟩ : Attempt start)])[as.length]? =
              some ⟨m, t, _, hp, false⟩ := List.getElem?_concat_length
          have hstep : Step answers admits _ _ := Step.answer
            ⟨x, as ++ [(⟨m, t, _, hp, false⟩ : Attempt start)]⟩ as.length _ a x' hlast rfl rfl ha
          refine .head hstep ?_
          simpa [Attempt.proceed] using ih (hp.proceed a) hu

/-- A message may be delivered and the run take turns at once. -/
theorem Reaches.deliver {m : M} {q : Program Answer β} {t : List (Exchange Answer)} {y : σ}
    (hm : admits s m) (hq : (start m).Leads t q) (ht : Allowed answers t s.shared y) :
    Reaches answers admits s ⟨y, s.attempts ++ [⟨m, t, q, hq, false⟩]⟩ :=
  .head (.deliver s m hm) (Reaches.proceed (.start _) hq ht)

theorem Reaches.exists_ended (h : ∀ request (x : σ), ∃ a y, answers request x a y) {m : M}
    (hm : admits s m) :
    ∃ (y : σ) (d : Attempt start), Reaches answers admits s ⟨y, s.attempts ++ [d]⟩ ∧
      d.message = m ∧ d.crashed = false ∧ ¬ d.InFlight := by
  obtain ⟨t, y, b, ht, hleads⟩ := exists_leads_done h (start m) s.shared
  exact ⟨y, _, Reaches.deliver hm hleads ht, rfl, rfl, Attempt.not_inFlight_of_done rfl⟩

/-- A run is not forgotten, nor anything it was told. -/
theorem Step.attempt_after (h : Step answers admits s s') {d : Attempt start}
    (hd : d ∈ s.attempts) :
    ∃ d' ∈ s'.attempts, d'.message = d.message ∧
      (d'.trace = d.trace ∨ ∃ e, d'.trace = d.trace ++ [e]) := by
  obtain ⟨j, hj⟩ := List.mem_iff_getElem?.mp hd
  have hlen := (List.getElem?_eq_some_iff.mp hj).1
  have hset : ∀ (i : ℕ) (d₁ : Attempt start), i ≠ j → d ∈ s.attempts.set i d₁ := by
    intro i d₁ hij
    refine List.mem_of_getElem? (i := j) ?_
    rwa [List.getElem?_set_ne hij]
  cases h with
  | deliver m hm => exact ⟨d, List.mem_append_left _ hd, rfl, .inl rfl⟩
  | answer i d₁ a after hi hc hrest ha =>
      by_cases hij : i = j
      · subst hij
        cases hi.symm.trans hj
        exact ⟨_, List.mem_set hlen _, rfl, .inr ⟨_, rfl⟩⟩
      · exact ⟨d, hset i _ hij, rfl, .inl rfl⟩
  | crash i d₁ hi hf =>
      by_cases hij : i = j
      · subst hij
        cases hi.symm.trans hj
        exact ⟨_, List.mem_set hlen _, rfl, .inl rfl⟩
      · exact ⟨d, hset i _ hij, rfl, .inl rfl⟩

end System

/-! ## What single calls must guarantee -/

/-- The exchange took place in a sound state, and the state has only evolved since. -/
def Exchange.Happened (answers : (request : Call) → σ → Answer request → σ → Prop)
    (Holds : σ → Prop) (Evolves : σ → σ → Prop) (e : Exchange Answer) (now : σ) : Prop :=
  ∃ before after, Holds before ∧ answers e.call before e.answer after ∧ Evolves after now

/-- Rules that every call of every program keeps: `Holds` of the shared state at all times, and
`Evolves` between an earlier and a later state. A call may rely on what its own program was told. -/
structure Discipline (start : M → Program Answer β)
    (answers : (request : Call) → σ → Answer request → σ → Prop) where
  Holds : σ → Prop
  Evolves : σ → σ → Prop
  refl : ∀ x, Evolves x x
  trans : ∀ {x y z}, Evolves x y → Evolves y z → Evolves x z
  step : ∀ {m t request next x a y}, (start m).Leads t (.call request next) → Holds x →
    (∀ e ∈ t, e.Happened answers Holds Evolves x) → answers request x a y → Holds y ∧ Evolves x y

namespace Discipline

variable {start : M → Program Answer β}
  {answers : (request : Call) → σ → Answer request → σ → Prop}
  {admits : System start σ → M → Prop} (D : Discipline start answers) {s s' : System start σ}

/-- The exchange took place. -/
abbrev Happened (e : Exchange Answer) (now : σ) : Prop := e.Happened answers D.Holds D.Evolves now

/-- The second exchange took place when the first was over. -/
def Precedes (now : σ) (e e' : Exchange Answer) : Prop :=
  ∃ before after, D.Holds before ∧ answers e'.call before e'.answer after ∧
    D.Evolves after now ∧ D.Happened e before

variable {D} in
theorem Happened.later {e : Exchange Answer} {x y : σ} (h : D.Happened e x) (hxy : D.Evolves x y) :
    D.Happened e y := by
  obtain ⟨before, after, hb, ha, hx⟩ := h
  exact ⟨before, after, hb, ha, D.trans hx hxy⟩

variable {D} in
theorem Precedes.later {e e' : Exchange Answer} {x y : σ} (h : D.Precedes x e e')
    (hxy : D.Evolves x y) : D.Precedes y e e' := by
  obtain ⟨before, after, hb, ha, hx, he⟩ := h
  exact ⟨before, after, hb, ha, D.trans hx hxy, he⟩

/-- The state is sound, every exchange took place, and those of one run in the order of its
trace. -/
structure Sound (s : System start σ) : Prop where
  holds : D.Holds s.shared
  happened : ∀ d ∈ s.attempts, ∀ e ∈ d.trace, D.Happened e s.shared
  ordered : ∀ d ∈ s.attempts, d.trace.Pairwise (D.Precedes s.shared)

variable {D}

theorem Sound.step (hs : D.Sound s) (h : System.Step answers admits s s') :
    D.Sound s' ∧ D.Evolves s.shared s'.shared := by
  have hshared : D.Holds s'.shared ∧ D.Evolves s.shared s'.shared := by
    cases h with
    | deliver m hm => exact ⟨hs.holds, D.refl _⟩
    | answer i d a after hi hc hrest ha =>
        exact D.step (hrest ▸ d.leads) hs.holds (hs.happened d (List.mem_of_getElem? hi)) ha
    | crash i d hi hf => exact ⟨hs.holds, D.refl _⟩
  obtain ⟨hholds, hevolves⟩ := hshared
  refine ⟨⟨hholds, ?_, ?_⟩, hevolves⟩
  · intro d' hd' e he
    obtain ⟨j, hj⟩ := List.mem_iff_getElem?.mp hd'
    rcases h.attempt_before hj with ⟨-, m, -, rfl⟩ | ⟨d, hd, -, -, htrace⟩
    · cases he
    · have hbefore := hs.happened d (List.mem_of_getElem? hd)
      rcases htrace with htrace | ⟨-, e', htrace, ha⟩
      · exact (hbefore e (htrace ▸ he)).later hevolves
      · rw [htrace] at he
        rcases List.mem_append.mp he with he | he
        · exact (hbefore e he).later hevolves
        · cases List.mem_singleton.mp he
          exact ⟨s.shared, s'.shared, hs.holds, ha, D.refl _⟩
  · intro d' hd'
    obtain ⟨j, hj⟩ := List.mem_iff_getElem?.mp hd'
    rcases h.attempt_before hj with ⟨-, m, -, rfl⟩ | ⟨d, hd, -, -, htrace⟩
    · exact List.Pairwise.nil
    · have hmem := List.mem_of_getElem? hd
      have hbefore := (hs.ordered d hmem).imp fun h => h.later hevolves
      rcases htrace with htrace | ⟨-, e', htrace, ha⟩
      · rwa [htrace]
      · rw [htrace]
        refine List.pairwise_append.mpr ⟨hbefore, List.pairwise_singleton _ _, ?_⟩
        intro e he e'' he''
        cases List.mem_singleton.mp he''
        exact ⟨s.shared, s'.shared, hs.holds, ha, D.refl _, hs.happened d hmem e he⟩

theorem Sound.reaches (hs : D.Sound s) (h : System.Reaches answers admits s s') :
    D.Sound s' ∧ D.Evolves s.shared s'.shared := by
  induction h with
  | refl => exact ⟨hs, D.refl _⟩
  | tail _ hstep ih =>
      obtain ⟨hsound, hevolves⟩ := ih.1.step hstep
      exact ⟨hsound, D.trans ih.2 hevolves⟩

theorem sound_of_holds {x : σ} (h : D.Holds x) : D.Sound ⟨x, []⟩ := ⟨h, by simp, by simp⟩

/-- What is true of the state because of a call is shown by the trace of some run. -/
theorem Sound.traced (hs : D.Sound s) (Mark : σ → Prop)
    (Shown : M → List (Exchange Answer) → Prop) (hgrow : ∀ {m t e}, Shown m t → Shown m (t ++ [e]))
    (hmark : ∀ {m t request next x a y}, (start m).Leads t (.call request next) → D.Holds x →
      (∀ e ∈ t, D.Happened e x) → answers request x a y → Mark y →
      Mark x ∨ Shown m (t ++ [⟨request, a⟩]))
    (hstart : Mark s.shared → ∃ d ∈ s.attempts, Shown d.message d.trace)
    (h : System.Reaches answers admits s s') (hs' : Mark s'.shared) :
    ∃ d ∈ s'.attempts, Shown d.message d.trace := by
  induction h with
  | refl => exact hstart hs'
  | @tail s₁ s₂ hreach hstep ih =>
      have hkept : Mark s₁.shared → ∃ d ∈ s₂.attempts, Shown d.message d.trace := by
        intro hs₁
        obtain ⟨d, hd, hshown⟩ := ih hs₁
        obtain ⟨d', hd', hmessage, htrace⟩ := hstep.attempt_after hd
        refine ⟨d', hd', ?_⟩
        rw [hmessage]
        rcases htrace with htrace | ⟨e, htrace⟩ <;> rw [htrace]
        · exact hshown
        · exact hgrow hshown
      cases hstep with
      | deliver m hm => exact hkept hs'
      | crash i d hi hf => exact hkept hs'
      | answer i d a after hi hc hrest ha =>
          have hsound := (hs.reaches hreach).1
          have hd := List.mem_of_getElem? hi
          have hlen := (List.getElem?_eq_some_iff.mp hi).1
          have hcases := hmark (hrest ▸ d.leads) hsound.holds (hsound.happened d hd) ha hs'
          rcases hcases with hs₁ | hshown
          · exact hkept hs₁
          · exact ⟨_, List.mem_set hlen _, hshown⟩

/-! ## One delivery after another -/

variable {κ : Type} {key : M → κ}

variable (D key) in
/-- Of two runs with the same key, the earlier is over, and what it was told came before all that
the later was told. -/
def Queued (s : System start σ) : Prop :=
  ∀ (i j : ℕ) (d d' : Attempt start), i < j → s.attempts[i]? = some d →
    s.attempts[j]? = some d' → key d.message = key d'.message →
    ¬ d.InFlight ∧ ∀ e ∈ d.trace, ∀ e' ∈ d'.trace, D.Precedes s.shared e e'

/-- Runs with one key follow one another where a message is not delivered as long as a run with its
key is in flight. -/
theorem Sound.queued_step (hs : D.Sound s) (hq : D.Queued key s)
    (hadmits : ∀ s m, admits s m → ∀ d ∈ s.attempts, key d.message = key m → ¬ d.InFlight)
    (h : System.Step answers admits s s') : D.Queued key s' := by
  have hevolves := (hs.step h).2
  intro i j d₁ d₂ hij h₁ h₂ hkey
  rcases h.attempt_before h₂ with ⟨hj, m, hm, rfl⟩ | ⟨d, hd, hdm, -, htrace⟩
  · rcases h.attempt_before h₁ with ⟨hi, -⟩ | ⟨d', hd', hdm', hover, -⟩
    · have hlast := (List.getElem?_eq_some_iff.mp h₂).1
      have hlen := h.length_attempts_le
      omega
    · rw [hdm'] at hkey
      refine ⟨fun h => hadmits s m hm d' (List.mem_of_getElem? hd') hkey (hover h), ?_⟩
      intro e _ e' he'
      cases he'
  · have hlast := (List.getElem?_eq_some_iff.mp hd).1
    rcases h.attempt_before h₁ with ⟨hi, -⟩ | ⟨d', hd', hdm', hover, htrace'⟩
    · omega
    · rw [hdm, hdm'] at hkey
      obtain ⟨hended, hbefore⟩ := hq i j d' d hij hd' hd hkey
      refine ⟨fun h => hended (hover h), ?_⟩
      -- the earlier run has ended, so only the later one can have been told more
      have htrace' : d₁.trace = d'.trace := by
        rcases htrace' with htrace' | ⟨hbusy, -⟩
        · exact htrace'
        · exact (hended hbusy).elim
      rw [htrace']
      intro e he e' he'
      rcases htrace with htrace | ⟨-, e'', htrace, ha⟩
      · exact (hbefore e he e' (htrace ▸ he')).later hevolves
      · rw [htrace] at he'
        rcases List.mem_append.mp he' with he' | he'
        · exact (hbefore e he e' he').later hevolves
        · cases List.mem_singleton.mp he'
          exact ⟨s.shared, s'.shared, hs.holds, ha, D.refl _,
            hs.happened d' (List.mem_of_getElem? hd') e he⟩

theorem Sound.queued_reaches (hs : D.Sound s) (hq : D.Queued key s)
    (hadmits : ∀ s m, admits s m → ∀ d ∈ s.attempts, key d.message = key m → ¬ d.InFlight)
    (h : System.Reaches answers admits s s') : D.Queued key s' := by
  induction h with
  | refl => exact hq
  | tail hreach hstep ih => exact (hs.reaches hreach).1.queued_step ih hadmits hstep

end Discipline

end Slideshow
