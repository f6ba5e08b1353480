import Slideshow.Proofs.Program.System

/-! # What a program assures among others

`Assures` follows the tree of a program that shares a state with others: before each of its calls
the others may have changed the state as they are expected to, there always is an answer, and the
step that the call makes is one that the others may expect. It is put together call by call, also
over programs that stand for calls of other programs. `Possibly` says how a program may end if it is
alone and the answers are chosen. `Sharing` draws the conclusion for any number
of runs that take turns: every one of them goes on as it assured, in every order of steps. -/

namespace Slideshow

variable {Call M σ τ β γ : Type} {Answer : Call → Type}

namespace Program

/-- From a state on, every call is answered whatever `others` did to the state before it, its step
is one of its `own`, and `ends` holds of the value at the end and the state just then. -/
def Assures (answers : (request : Call) → σ → Answer request → σ → Prop)
    (others own : σ → σ → Prop) (ends : β → σ → Prop) : Program Answer β → σ → Prop
  | done b, x => ends b x
  | call request next, x => ∀ y, others x y →
    (∃ a z, answers request y a z) ∧
      ∀ a z, answers request y a z → own y z ∧ (next a).Assures answers others own ends z

section Assures

variable {answers : (request : Call) → σ → Answer request → σ → Prop}
  {others own own' : σ → σ → Prop} {ends ends' : β → σ → Prop} {x y : σ}

@[simp] theorem assures_done (b : β) :
    (done b : Program Answer β).Assures answers others own ends x ↔ ends b x := Iff.rfl

@[simp] theorem assures_pure (b : β) :
    (pure b : Program Answer β).Assures answers others own ends x ↔ ends b x := Iff.rfl

theorem assures_call (request : Call) (next : Answer request → Program Answer β) :
    (call request next).Assures answers others own ends x ↔ ∀ y, others x y →
      (∃ a z, answers request y a z) ∧ ∀ a z, answers request y a z →
        own y z ∧ (next a).Assures answers others own ends z := Iff.rfl

/-- What a program does after another is part of how the other may end. -/
@[simp] theorem assures_bind (p : Program Answer γ) (f : γ → Program Answer β) :
    (p >>= f).Assures answers others own ends x ↔
      p.Assures answers others own (fun c z => (f c).Assures answers others own ends z) x := by
  induction p generalizing x with
  | done c => rfl
  | call request next ih => simp only [call_bind, assures_call, ih]

theorem Assures.mono {p : Program Answer β} (h : p.Assures answers others own ends x)
    (hown : ∀ y z, own y z → own' y z) (hends : ∀ b z, ends b z → ends' b z) :
    p.Assures answers others own' ends' x := by
  induction p generalizing x with
  | done b => exact hends b x h
  | call request next ih =>
      intro y hy
      obtain ⟨hanswer, hnext⟩ := h y hy
      refine ⟨hanswer, fun a z ha => ?_⟩
      obtain ⟨hstep, hrest⟩ := hnext a z ha
      exact ⟨hown y z hstep, ih a hrest⟩

theorem Assures.weaken {p : Program Answer β} (h : p.Assures answers others own ends x)
    (hends : ∀ b z, ends b z → ends' b z) : p.Assures answers others own ends' x :=
  h.mono (fun _ _ h => h) hends

/-- What is assured stays assured while others go on. -/
theorem Assures.later {p : Program Answer β} (h : p.Assures answers others own ends x)
    (htrans : ∀ {x y z}, others x y → others y z → others x z)
    (hends : ∀ b, ends b x → ends b y) (hxy : others x y) :
    p.Assures answers others own ends y := by
  cases p with
  | done b => exact hends b h
  | call request next => exact fun z hz => h z (htrans hxy hz)

/-- Whoever uses the small state only may use it as a part of a larger one. -/
theorem Assures.embed {Large : Type} {LargeAnswer : Large → Type} {into : Call → Large}
    {back : (request : Call) → LargeAnswer (into request) → Answer request}
    {answers' : (request : Large) → τ → LargeAnswer request → τ → Prop} {g : σ → τ}
    (hgo : ∀ {request y a z}, answers request y a z →
      ∃ a', back request a' = a ∧ answers' (into request) (g y) a' (g z))
    (hcome : ∀ {request y a' z'}, answers' (into request) (g y) a' z' →
      ∃ z, z' = g z ∧ answers request y (back request a') z)
    {p : Program Answer β} (h : p.Assures answers Eq (fun _ _ => True) ends x)
    {ends' : β → τ → Prop} (hends : ∀ b z, ends b z → ends' b (g z)) :
    (p.embed into back).Assures answers' Eq (fun _ _ => True) ends' (g x) := by
  induction p generalizing x with
  | done b => exact hends b x h
  | call request next ih =>
      rintro _ rfl
      obtain ⟨⟨a, z, ha⟩, hnext⟩ := h x rfl
      refine ⟨?_, fun a' z' ha' => ⟨trivial, ?_⟩⟩
      · obtain ⟨a', -, ha'⟩ := hgo ha
        exact ⟨a', g z, ha'⟩
      · obtain ⟨z, rfl, hsmall⟩ := hcome ha'
        exact ih _ (hnext _ z hsmall).2

end Assures

/-! ## Without others -/

section Alone

variable {answers : (request : Call) → σ → Answer request → σ → Prop} {ends : β → σ → Prop}
  {x : σ}

/-- What a program assures when nobody else uses the state. -/
abbrev Alone (answers : (request : Call) → σ → Answer request → σ → Prop) (ends : β → σ → Prop)
    (p : Program Answer β) (x : σ) : Prop :=
  p.Assures answers Eq (fun _ _ => True) ends x

theorem Assures.alone {others own : σ → σ → Prop} {p : Program Answer β}
    (h : p.Assures answers others own ends x) (hrefl : ∀ x, others x x) :
    p.Alone answers ends x := by
  induction p generalizing x with
  | done b => exact h
  | call request next ih =>
      rintro _ rfl
      obtain ⟨hanswer, hnext⟩ := h x (hrefl x)
      exact ⟨hanswer, fun a z ha => ⟨trivial, ih a (hnext a z ha).2⟩⟩

/-- Every run ends as assured. -/
theorem Assures.ends_of_run {p : Program Answer β} (h : p.Alone answers ends x)
    {t : List (Exchange Answer)} {y : σ} {b : β} (ht : System.Allowed answers t x y)
    (hp : p.Leads t (done b)) : ends b y := by
  induction p generalizing t x with
  | done c =>
      cases hp
      cases ht
      exact h
  | call request next ih =>
      cases hp with
      | answered hp =>
          cases ht with
          | cons ha ht => exact ih _ ((h x rfl).2 _ _ ha).2 ht hp

end Alone

/-! ## What may come of a program -/

section Possibly

variable {answers : (request : Call) → σ → Answer request → σ → Prop} {ends ends' : β → σ → Prop}
  {x : σ}

/-- There are answers with which a program ends as said. -/
def Possibly (answers : (request : Call) → σ → Answer request → σ → Prop) (ends : β → σ → Prop) :
    Program Answer β → σ → Prop
  | done b, x => ends b x
  | call request next, x => ∃ a y, answers request x a y ∧ (next a).Possibly answers ends y

@[simp] theorem possibly_bind (p : Program Answer γ) (f : γ → Program Answer β) :
    (p >>= f).Possibly answers ends x ↔
      p.Possibly answers (fun c y => (f c).Possibly answers ends y) x := by
  induction p generalizing x with
  | done c => rfl
  | call request next ih => simp only [call_bind, Possibly, ih]

theorem Possibly.weaken {p : Program Answer β} (h : p.Possibly answers ends x)
    (hends : ∀ b y, ends b y → ends' b y) : p.Possibly answers ends' x := by
  induction p generalizing x with
  | done b => exact hends b x h
  | call request next ih =>
      obtain ⟨a, y, ha, hnext⟩ := h
      exact ⟨a, y, ha, ih a hnext⟩

/-- What is assured comes about, since there always is an answer. -/
theorem Assures.possibly {p : Program Answer β} (h : p.Alone answers ends x) :
    p.Possibly answers ends x := by
  induction p generalizing x with
  | done b => exact h
  | call request next ih =>
      obtain ⟨⟨a, y, ha⟩, hnext⟩ := h x rfl
      exact ⟨a, y, ha, ih a (hnext a y ha).2⟩

theorem Possibly.exists_run {p : Program Answer β} (h : p.Possibly answers ends x) :
    ∃ t y b, System.Allowed answers t x y ∧ p.Leads t (done b) ∧ ends b y := by
  induction p generalizing x with
  | done b => exact ⟨[], x, b, .nil x, .start _, h⟩
  | call request next ih =>
      obtain ⟨a, y, ha, hnext⟩ := h
      obtain ⟨t, z, b, ht, hleads, hends⟩ := ih a hnext
      exact ⟨_, z, b, .cons ha ht, .answered hleads, hends⟩

/-- There is a run, and it ends as assured. -/
theorem Assures.exists_run {p : Program Answer β} (h : p.Alone answers ends x) :
    ∃ t y b, System.Allowed answers t x y ∧ p.Leads t (done b) ∧ ends b y :=
  h.possibly.exists_run

theorem Possibly.embed {Large : Type} {LargeAnswer : Large → Type} {into : Call → Large}
    {back : (request : Call) → LargeAnswer (into request) → Answer request}
    {answers' : (request : Large) → τ → LargeAnswer request → τ → Prop} {g : σ → τ}
    (hgo : ∀ {request y a z}, answers request y a z →
      ∃ a', back request a' = a ∧ answers' (into request) (g y) a' (g z))
    {p : Program Answer β} {ends' : β → τ → Prop}
    (h : p.Possibly answers (fun b z => ends' b (g z)) x) :
    (p.embed into back).Possibly answers' ends' (g x) := by
  induction p generalizing x with
  | done b => exact h
  | call request next ih =>
      obtain ⟨a, y, ha, hnext⟩ := h
      obtain ⟨a', rfl, ha'⟩ := hgo ha
      exact ⟨a', g y, ha', ih _ hnext⟩

end Possibly

/-! ## Runs as a whole -/

section Yields

variable {answers answers' : (request : Call) → σ → Answer request → σ → Prop}
  {ends : β → σ → Prop} {x y : σ} {b : β} {p : Program Answer β}

/-- There is a run from one state to another that ends with a value. -/
def Yields (answers : (request : Call) → σ → Answer request → σ → Prop) (p : Program Answer β)
    (x : σ) (b : β) (y : σ) : Prop :=
  ∃ t, System.Allowed answers t x y ∧ p.Leads t (done b)

theorem Assures.of_yields (h : p.Alone answers ends x) (hp : p.Yields answers x b y) : ends b y := by
  obtain ⟨t, ht, hleads⟩ := hp
  exact h.ends_of_run ht hleads

theorem Assures.exists_yields (h : p.Alone answers ends x) :
    ∃ b y, p.Yields answers x b y ∧ ends b y := by
  obtain ⟨t, y, b, ht, hleads, hends⟩ := h.exists_run
  exact ⟨b, y, ⟨t, ht, hleads⟩, hends⟩

theorem Yields.mono (h : p.Yields answers x b y)
    (hanswers : ∀ {request x a y}, answers request x a y → answers' request x a y) :
    p.Yields answers' x b y := by
  obtain ⟨t, ht, hleads⟩ := h
  exact ⟨t, ht.mono hanswers, hleads⟩

end Yields

/-! ## How long a program is -/

/-- At most `n` calls, whatever the answers. -/
def Within : Program Answer β → ℕ → Prop
  | done _, _ => True
  | call _ next, n => 0 < n ∧ ∀ a, (next a).Within (n - 1)

theorem Within.mono {p : Program Answer β} {m n : ℕ} (h : p.Within m) (hmn : m ≤ n) :
    p.Within n := by
  induction p generalizing m n with
  | done b => trivial
  | call request next ih => exact ⟨Nat.lt_of_lt_of_le h.1 hmn, fun a => ih a (h.2 a) (by omega)⟩

theorem within_ask (request : Call) : (ask request : Program Answer _).Within 1 :=
  ⟨Nat.one_pos, fun _ => trivial⟩

theorem Within.bind {p : Program Answer γ} {f : γ → Program Answer β} {m n : ℕ}
    (h : p.Within m) (hf : ∀ c, (f c).Within n) : (p >>= f).Within (m + n) := by
  induction p generalizing m with
  | done c => exact (hf c).mono (by omega)
  | call request next ih =>
      have hpos := h.1
      exact ⟨by omega, fun a => (ih a (h.2 a)).mono (by omega)⟩

theorem Within.length_le {p q : Program Answer β} {n : ℕ} (h : p.Within n)
    {t : List (Exchange Answer)} (ht : p.Leads t q) : t.length ≤ n := by
  induction ht generalizing n with
  | start p => exact Nat.zero_le n
  | answered _ ih =>
      have hpos := h.1
      have hrest := ih (h.2 _)
      rw [List.length_cons]
      omega

end Program

/-! ## Any number of runs -/

/-- Only messages that are admitted start a run. -/
theorem System.Reaches.message {start : M → Program Answer β}
    {answers : (request : Call) → σ → Answer request → σ → Prop} {P : M → Prop} {x : σ}
    {s : System start σ} (h : System.Reaches answers (fun _ => P) ⟨x, []⟩ s) {d : Attempt start}
    (hd : d ∈ s.attempts) : P d.message := by
  induction h generalizing d with
  | refl => cases hd
  | tail _ hstep ih =>
      obtain ⟨j, hj⟩ := List.mem_iff_getElem?.mp hd
      rcases hstep.attempt_before hj with ⟨-, m, hm, rfl⟩ | ⟨d', hd', hmessage, -⟩
      · exact hm
      · rw [hmessage]
        exact ih (List.mem_of_getElem? hd')

/-- Programs that share a state: how the state may evolve, what the programs do to it themselves, and
what holds from the end of a run on. -/
structure Sharing (start : M → Program Answer β)
    (answers : (request : Call) → σ → Answer request → σ → Prop) where
  Evolves : σ → σ → Prop
  refl : ∀ x, Evolves x x
  trans : ∀ {x y z}, Evolves x y → Evolves y z → Evolves x z
  own : M → σ → σ → Prop
  evolves_of_own : ∀ {m x y}, own m x y → Evolves x y
  ends : M → β → σ → Prop
  ends_later : ∀ {m b x y}, ends m b x → Evolves x y → ends m b y

namespace Sharing

variable {start : M → Program Answer β}
  {answers : (request : Call) → σ → Answer request → σ → Prop}
  {admits : System start σ → M → Prop} (S : Sharing start answers) {x : σ} {s s' : System start σ}

/-- A program that may start with a message. -/
def Starts (m : M) (x : σ) : Prop :=
  (start m).Assures answers S.Evolves (S.own m) (S.ends m) x

/-- The state has evolved from an earlier one, and every run assures what is still to come. -/
structure Sound (x : σ) (s : System start σ) : Prop where
  evolves : S.Evolves x s.shared
  assured : ∀ d ∈ s.attempts,
    d.rest.Assures answers S.Evolves (S.own d.message) (S.ends d.message) s.shared

variable {S}

theorem sound_start (x : σ) : S.Sound x ⟨x, []⟩ := ⟨S.refl x, by simp⟩

/-- A step leaves the state alone, or it is a step of the program of one run. -/
theorem Sound.own_step (hs : S.Sound x s) (h : System.Step answers admits s s') :
    s'.shared = s.shared ∨ ∃ d ∈ s.attempts, S.own d.message s.shared s'.shared := by
  cases h with
  | deliver m hm => exact .inl rfl
  | answer i d a after hi hc hrest ha =>
      have hd := List.mem_of_getElem? hi
      have hassured := hs.assured d hd
      rw [hrest] at hassured
      exact .inr ⟨d, hd, ((hassured _ (S.refl _)).2 a after ha).1⟩
  | crash i d hi hf => exact .inl rfl

theorem Sound.evolves_step (hs : S.Sound x s) (h : System.Step answers admits s s') :
    S.Evolves s.shared s'.shared := by
  rcases hs.own_step h with hshared | ⟨d, -, hown⟩
  · rw [hshared]
    exact S.refl _
  · exact S.evolves_of_own hown

/-- Messages may be admitted that can be started only as the state is now. -/
theorem Sound.step_of_starts (hs : S.Sound x s) (hadmits : ∀ m, admits s m → S.Starts m s.shared)
    (h : System.Step answers admits s s') : S.Sound x s' := by
  have hevolves := hs.evolves_step h
  have hkept : ∀ d ∈ s.attempts,
      d.rest.Assures answers S.Evolves (S.own d.message) (S.ends d.message) s'.shared :=
    fun d hd => (hs.assured d hd).later S.trans (fun b hb => S.ends_later hb hevolves) hevolves
  -- the runs that do not take this turn keep what they assured, since the state only evolved
  refine ⟨S.trans hs.evolves hevolves, fun d' hd' => ?_⟩
  cases h with
  | deliver m hm =>
      rcases List.mem_append.mp hd' with hd' | hd'
      · exact hkept d' hd'
      · cases List.mem_singleton.mp hd'
        exact hadmits m hm
  | answer i d a after hi hc hrest ha =>
      rcases List.mem_or_eq_of_mem_set hd' with hd' | rfl
      · exact hkept d' hd'
      · have hassured := hs.assured d (List.mem_of_getElem? hi)
        rw [hrest] at hassured
        exact ((hassured _ (S.refl _)).2 a after ha).2
  | crash i d hi hf =>
      rcases List.mem_or_eq_of_mem_set hd' with hd' | rfl
      · exact hkept d' hd'
      · exact hkept d (List.mem_of_getElem? hi)

theorem Sound.reaches_of_starts (hs : S.Sound x s)
    (hadmits : ∀ s, S.Sound x s → ∀ m, admits s m → S.Starts m s.shared)
    (h : System.Reaches answers admits s s') : S.Sound x s' := by
  induction h with
  | refl => exact hs
  | tail _ hstep ih => exact ih.step_of_starts (hadmits _ ih) hstep

/-- What could be started in the beginning can be started now. -/
theorem Sound.starts (hs : S.Sound x s) {m : M} (h : S.Starts m x) : S.Starts m s.shared :=
  h.later S.trans (fun _ hb => S.ends_later hb hs.evolves) hs.evolves

theorem Sound.step (hs : S.Sound x s) (hadmits : ∀ s m, admits s m → S.Starts m x)
    (h : System.Step answers admits s s') : S.Sound x s' :=
  hs.step_of_starts (fun m hm => hs.starts (hadmits s m hm)) h

theorem Sound.reaches (hs : S.Sound x s) (hadmits : ∀ s m, admits s m → S.Starts m x)
    (h : System.Reaches answers admits s s') : S.Sound x s' :=
  hs.reaches_of_starts (fun s hs m hm => hs.starts (hadmits s m hm)) h

theorem Sound.evolves_reaches (hs : S.Sound x s) (hadmits : ∀ s m, admits s m → S.Starts m x)
    (h : System.Reaches answers admits s s') : S.Evolves s.shared s'.shared := by
  induction h with
  | refl => exact S.refl _
  | tail hreach hstep ih =>
      exact S.trans ih ((hs.reaches hadmits hreach).evolves_step hstep)

/-- A run that is over has ended as its program assured, and that still holds. -/
theorem Sound.ends (hs : S.Sound x s) {d : Attempt start} (hd : d ∈ s.attempts) {b : β}
    (hb : d.rest = .done b) : S.ends d.message b s.shared := by
  have hassured := hs.assured d hd
  rwa [hb] at hassured

/-- A run that awaits an answer can be given one. -/
theorem Sound.exists_answer (hs : S.Sound x s) {d : Attempt start} (hd : d ∈ s.attempts)
    {request : Call} {next : Answer request → Program Answer β}
    (hrest : d.rest = .call request next) : ∃ a after, answers request s.shared a after := by
  have hassured := hs.assured d hd
  rw [hrest] at hassured
  exact (hassured _ (S.refl _)).1

end Sharing

end Slideshow
