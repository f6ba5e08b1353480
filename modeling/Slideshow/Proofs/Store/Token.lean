import Slideshow.Proofs.Program.Trace
import Slideshow.Store.Token

/-! # Tokens over time

What a cache may serve is said by its history alone: the token that was issued last, unless it was
refused since. `Turn` lists what one call can come to; `kept_eq` follows a cache through its history
and says that it keeps that token; `serves_live` puts both together. Two limits are at work: a token
is replaced when it has a minute left, but one that has any time left is still better than none. -/

namespace Slideshow

namespace TokenCache

/-- A token that the provider issued at a time. -/
structure Issue where
  time : ℕ
  token : AccessToken

/-- The token as it is kept. -/
def Issue.kept (i : Issue) : AccessToken :=
  { i.token with expiresAt := max i.time i.token.expiresAt }

/-- Something that happened to a cache. -/
inductive Event where
  /-- A token was asked for; `asked` is what the provider answered, if it was asked. -/
  | token (now : ℕ) (asked : Option (Except String AccessToken)) (result : Except StoreError String)
  /-- The token was refused. -/
  | invalidated (now : ℕ)

/-- When something happened. -/
def Event.time : Event → ℕ
  | token now _ _ | invalidated now => now

/-- The token that was issued last and not refused since, in a history, the latest event first. -/
def held : List Event → Option Issue
  | .token now (some (.ok t)) _ :: _ => some ⟨now, t⟩
  | .token _ _ _ :: past => held past
  | .invalidated _ :: _ => none
  | [] => none

/-- What goes between a cache and its provider. -/
def exchanges : Option (Except String AccessToken) → List (Exchange ProviderCall.Answer)
  | none => []
  | some answer => [⟨.issue, answer⟩]

/-- A history, the latest event first, leads from an empty cache to a cache. Time does not go back. -/
inductive Lived : List Event → TokenCache → Prop
  | start : Lived [] {}
  | token {past : List Event} {c c' : TokenCache} {now : ℕ}
      {asked : Option (Except String AccessToken)} {result : Except StoreError String}
      (h : Lived past c) (hnow : ∀ e ∈ past, e.time ≤ now)
      (hrun : (c.token now).Leads (exchanges asked) (.done (result, c'))) :
      Lived (.token now asked result :: past) c'
  | invalidated {past : List Event} {c : TokenCache} {now : ℕ} (h : Lived past c)
      (hnow : ∀ e ∈ past, e.time ≤ now) : Lived (.invalidated now :: past) c.invalidate

/-! ## One call -/

/-- What asking for a token can come to: the token kept, as it has more than a minute left; a new
one; the token kept, as there is no new one and it has some time left; or nothing. -/
inductive Turn (c : TokenCache) (now : ℕ) :
    Option (Except String AccessToken) → Except StoreError String → TokenCache → Prop
  | fresh {t : AccessToken} (ht : c.kept = some t)
      (hfresh : now + AccessToken.refreshMarginMs < t.expiresAt) : Turn c now none (.ok t.text) c
  | issued (hstale : ∀ t ∈ c.kept, t.expiresAt ≤ now + AccessToken.refreshMarginMs)
      (t : AccessToken) :
      Turn c now (some (.ok t)) (.ok t.text) ⟨some (Issue.mk now t).kept⟩
  | spared (hstale : ∀ t ∈ c.kept, t.expiresAt ≤ now + AccessToken.refreshMarginMs)
      (reason : String) {t : AccessToken} (ht : c.kept = some t) (husable : now < t.expiresAt) :
      Turn c now (some (.error reason)) (.ok t.text) c
  | refused (hdead : ∀ t ∈ c.kept, t.expiresAt ≤ now) (reason : String) :
      Turn c now (some (.error reason))
        (.error (.unauthenticated ("Failed to obtain auth token: " ++ reason))) c

variable {c c' : TokenCache} {now : ℕ} {past : List Event}
  {asked : Option (Except String AccessToken)} {result : Except StoreError String}

theorem meets_token (c : TokenCache) (now : ℕ) :
    (c.token now).Meets (fun _ _ => True)
      (fun t out => ∃ asked, t = exchanges asked ∧ Turn c now asked out.1 out.2) [] := by
  rw [token]
  cases hfresh : c.kept.filter (·.isFresh now) with
  | some t =>
      obtain ⟨ht, hfresh⟩ := Option.filter_eq_some_iff.mp hfresh
      exact ⟨none, rfl, .fresh ht (of_decide_eq_true hfresh)⟩
  | none =>
      have hstale : ∀ t ∈ c.kept, t.expiresAt ≤ now + AccessToken.refreshMarginMs := by
        simpa [AccessToken.isFresh] using hfresh
      refine (Program.meets_bind _ _).mpr ⟨trivial, fun (answer : Except String AccessToken) => ?_⟩
      cases answer with
      | ok t => exact ⟨some (.ok t), rfl, .issued hstale t⟩
      | error reason =>
          refine (Program.meets_done _).mpr ?_
          dsimp only
          split
          · rename_i t husable
            obtain ⟨ht, husable⟩ := Option.filter_eq_some_iff.mp husable
            exact ⟨some (.error reason), rfl,
              .spared hstale reason ht (of_decide_eq_true husable)⟩
          · rename_i husable
            have hdead : ∀ t ∈ c.kept, t.expiresAt ≤ now := by
              simpa [AccessToken.isUsable] using husable
            exact ⟨some (.error reason), rfl, .refused hdead reason⟩

theorem turn_of_leads (h : (c.token now).Leads (exchanges asked) (.done (result, c'))) :
    Turn c now asked result c' := by
  obtain ⟨asked', hasked, hturn⟩ := (meets_token c now).ends_of_leads h
  cases asked <;> cases asked' <;> cases hasked
  · exact hturn
  · exact hturn

/-! ## A history -/

/-- The token of a history was issued in it. -/
theorem exists_time_of_held {i : Issue} (h : held past = some i) : ∃ e ∈ past, e.time = i.time := by
  induction past with
  | nil => cases h
  | cons e past ih =>
      have hearlier : held past = some i → ∃ e' ∈ e :: past, e'.time = i.time := fun h =>
        (ih h).imp fun _ he => ⟨List.mem_cons_of_mem e he.1, he.2⟩
      cases e with
      | invalidated now => cases h
      | token now asked result =>
          cases asked with
          | none => exact hearlier h
          | some answer =>
              cases answer with
              | error reason => exact hearlier h
              | ok t =>
                  cases h
                  exact ⟨_, List.mem_cons_self, rfl⟩

/-- A cache keeps the token of its history. -/
theorem kept_eq (h : Lived past c) : c.kept = (held past).map Issue.kept := by
  induction h with
  | start => rfl
  | token _ _ hrun ih =>
      cases turn_of_leads hrun with
      | issued hstale t => rfl
      | _ => exact ih
  | invalidated _ _ _ => rfl

/-- What is promised of a call after a history. -/
structure Served (past : List Event) (c : TokenCache) (now : ℕ)
    (asked : Option (Except String AccessToken)) (result : Except StoreError String)
    (c' : TokenCache) : Prop where
  /-- The provider is asked exactly if no token is held that has more than a minute left. -/
  asked_iff : asked ≠ none ↔
    ∀ i ∈ held past, i.token.expiresAt ≤ now + AccessToken.refreshMarginMs
  /-- A token that is served was issued for this call, or is held and has not expired. -/
  live : ∀ text, result = .ok text → (∃ t, asked = some (.ok t) ∧ t.text = text) ∨
    ∃ i ∈ held past, i.token.text = text ∧ now < i.token.expiresAt
  /-- The call fails exactly if the provider was asked and failed, and no token is held that has not
  expired. -/
  failed_iff : ∀ e, result = .error e ↔ ∃ reason, asked = some (.error reason) ∧
    (∀ i ∈ held past, i.token.expiresAt ≤ now) ∧
      e = .unauthenticated ("Failed to obtain auth token: " ++ reason)
  /-- If the provider fails then the cache stays as it is. -/
  unchanged : ∀ reason, asked = some (.error reason) → c' = c

/-- Where a token is kept, what is left of it is what the provider gave it. -/
theorem lt_kept_iff {i : Issue} (hi : i.time ≤ now) (margin : ℕ) :
    now + margin < i.kept.expiresAt ↔ now + margin < i.token.expiresAt := by
  simp only [Issue.kept]
  omega

section Kept

variable (hkept : c.kept = (held past).map Issue.kept) (hnow : ∀ e ∈ past, e.time ≤ now)
include hkept hnow

/-- The token kept has no more than some time left exactly if the token held has no more. -/
theorem le_kept_iff (margin : ℕ) : (∀ t ∈ c.kept, t.expiresAt ≤ now + margin) ↔
    ∀ i ∈ held past, i.token.expiresAt ≤ now + margin := by
  rw [hkept]
  cases hheld : held past with
  | none => simp
  | some i =>
      obtain ⟨e, he, htime⟩ := exists_time_of_held hheld
      simpa using (lt_kept_iff (htime ▸ hnow e he) margin).not

theorem exists_held {t : AccessToken} {margin : ℕ} (ht : c.kept = some t)
    (hlt : now + margin < t.expiresAt) :
    ∃ i ∈ held past, i.token.text = t.text ∧ now + margin < i.token.expiresAt := by
  rw [hkept] at ht
  obtain ⟨i, hi, rfl⟩ := Option.map_eq_some_iff.mp ht
  obtain ⟨e, he, htime⟩ := exists_time_of_held hi
  exact ⟨i, hi, rfl, (lt_kept_iff (htime ▸ hnow e he) margin).mp hlt⟩

theorem Turn.served (h : Turn c now asked result c') : Served past c now asked result c' := by
  have hleft := le_kept_iff hkept hnow
  cases h with
  | fresh ht hfresh =>
      obtain ⟨i, hi, htext, hlt⟩ := exists_held hkept hnow ht hfresh
      refine ⟨⟨fun h => (h rfl).elim, fun h => absurd hlt (Nat.not_lt.mpr (h i hi))⟩, ?_, ?_, ?_⟩
      · intro text h
        cases h
        exact .inr ⟨i, hi, htext, Nat.lt_of_le_of_lt (Nat.le_add_right _ _) hlt⟩
      · exact fun e => ⟨nofun, fun ⟨_, h, _⟩ => nomatch h⟩
      · exact fun _ _ => rfl
  | issued hstale t =>
      refine ⟨⟨fun _ => (hleft _).mp hstale, fun _ => Option.some_ne_none _⟩, ?_, ?_, ?_⟩
      · intro text h
        cases h
        exact .inl ⟨t, rfl, rfl⟩
      · exact fun e => ⟨nofun, fun ⟨_, h, _⟩ => nomatch h⟩
      · exact fun _ h => nomatch h
  | spared hstale reason ht husable =>
      obtain ⟨i, hi, htext, hlt⟩ := exists_held hkept hnow ht (show now + 0 < _ from husable)
      refine ⟨⟨fun _ => (hleft _).mp hstale, fun _ => Option.some_ne_none _⟩, ?_, ?_, ?_⟩
      · intro text h
        cases h
        exact .inr ⟨i, hi, htext, hlt⟩
      · exact fun e => ⟨nofun, fun ⟨_, _, hdead, _⟩ => absurd hlt (Nat.not_lt.mpr (hdead i hi))⟩
      · exact fun _ _ => rfl
  | refused hdead reason =>
      have hstale : ∀ t ∈ c.kept, t.expiresAt ≤ now + AccessToken.refreshMarginMs := fun t ht =>
        Nat.le_trans (hdead t ht) (Nat.le_add_right _ _)
      refine ⟨⟨fun _ => (hleft _).mp hstale, fun _ => Option.some_ne_none _⟩, nofun, ?_, ?_⟩
      · refine fun e => ⟨fun h => ⟨reason, rfl, (hleft 0).mp hdead, ?_⟩, fun ⟨_, h, _, he⟩ => ?_⟩
        · cases h
          rfl
        · cases h
          rw [he]
      · exact fun _ _ => rfl

end Kept

/-- After every history, every call for a token serves one that was just issued, or one that is held
and has not expired, and asks the provider and fails only when it has to. -/
theorem serves_live (h : Lived past c) (hnow : ∀ e ∈ past, e.time ≤ now) :
    (c.token now).Meets (fun _ _ => True)
      (fun t out => ∃ asked, t = exchanges asked ∧ Served past c now asked out.1 out.2) [] :=
  (meets_token c now).mono (fun _ _ _ h => h) fun _ _ _ hturn =>
    hturn.imp fun _ hturn => hturn.imp_right fun hturn => hturn.served (kept_eq h) hnow

/-- A token for an hour was issued at the start, and ten seconds are left of it. -/
theorem serves_live_lastSeconds :
    Lived [.token 0 (some (.ok ⟨"ya29", 3600000⟩)) (.ok "ya29")] ⟨some ⟨"ya29", 3600000⟩⟩ ∧
    (TokenCache.token ⟨some ⟨"ya29", 3600000⟩⟩ 3590000).Meets (fun _ _ => True)
      (fun t out => ∃ asked, t = exchanges asked ∧
        Served [.token 0 (some (.ok ⟨"ya29", 3600000⟩)) (.ok "ya29")] ⟨some ⟨"ya29", 3600000⟩⟩
          3590000 asked out.1 out.2) [] := by
  have hlived : Lived [.token 0 (some (.ok ⟨"ya29", 3600000⟩)) (.ok "ya29")]
      ⟨some ⟨"ya29", 3600000⟩⟩ := .token .start (by simp) (.answered (.start _))
  exact ⟨hlived, serves_live hlived (by simp [Event.time])⟩

end TokenCache

end Slideshow
