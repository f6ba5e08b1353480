import Slideshow.Proofs.Program.Trace
import Slideshow.Store.Config

/-! # How long it is tried again

Tries and random numbers are scripted, and a run is played against the script: it ends with the first
outcome that is final or with the last one that is allowed, and waits once between two tries. Waits
are calculated within 64 bits, and what is kept for the case that no try is left is never used. -/

namespace Slideshow

variable {β γ : Type}

/-! ## Waits -/

namespace RetryPolicy

/-- The settings fit the words that hold them. -/
structure InWords (p : RetryPolicy) : Prop where
  maxRetries : p.maxRetries ≤ maxWord32
  baseDelayMs : p.baseDelayMs ≤ maxWord64
  maxDelayMs : p.maxDelayMs ≤ maxWord64

theorem inWords_default : ({} : RetryPolicy).InWords := ⟨by decide, by decide, by decide⟩

theorem getD_number?_le {env : Environment} {name : String} {otherwise : ℕ}
    (h : otherwise ≤ maxWord64) : (env.number? 64 name).getD otherwise ≤ maxWord64 := by
  cases hread : env.number? 64 name with
  | none => exact h
  | some n =>
      obtain ⟨text, -, htext⟩ := Option.bind_eq_some_iff.mp hread
      have hn : n < Nat.pow 2 64 := of_decide_eq_true (Option.filter_eq_some_iff.mp htext).2
      exact Nat.le_pred_of_lt hn

/-- Whatever the environment says, the settings fit. -/
theorem inWords_ofEnvironment (env : Environment) : (RetryPolicy.ofEnvironment env).InWords where
  maxRetries := Nat.le_pred_of_lt (Nat.mod_lt _ (by decide))
  baseDelayMs := getD_number?_le inWords_default.baseDelayMs
  maxDelayMs := getD_number?_le inWords_default.maxDelayMs

/-- A number cut off at the largest 64-bit word. -/
def saturated (n : ℕ) : ℕ := min n maxWord64

/-- The longest wait after try `k`, where every step of the calculation is cut off. -/
def wordBackoff (p : RetryPolicy) (k : ℕ) : ℕ :=
  min (saturated (p.baseDelayMs * saturated (Nat.pow 2 k))) p.maxDelayMs

/-- A wait that goes with an error: what the store asks for, or else something between the first
wait and the longest one; in either case no more than the longest one. -/
def Allows (p : RetryPolicy) : StoreError → ℕ → Prop
  | .rateLimited after, ms => ms = min after p.maxDelayMs
  | _, ms => min p.baseDelayMs p.maxDelayMs ≤ ms ∧ ms ≤ p.maxDelayMs

variable {p : RetryPolicy}

/-- Nothing is lost by cutting off the power before the product. -/
theorem backoff_eq_wordBackoff (p : RetryPolicy) (k : ℕ) : p.backoff k = p.wordBackoff k := by
  have hpow : Nat.pow 2 k = 2 ^ k := rfl
  rw [backoff, wordBackoff, saturated, saturated, hpow]
  by_cases hk : 2 ^ k ≤ maxWord64
  · rw [Nat.min_eq_left hk]
  · rw [Nat.min_eq_right (Nat.le_of_not_le hk)]
    cases hbase : p.baseDelayMs with
    | zero => simp
    | succ base =>
        have hword : maxWord64 ≤ (base + 1) * maxWord64 := Nat.le_mul_of_pos_left _ (by omega)
        have hpower : maxWord64 ≤ (base + 1) * 2 ^ k :=
          Nat.le_trans hword (Nat.mul_le_mul_left _ (Nat.le_of_not_le hk))
        rw [Nat.min_eq_right hword, Nat.min_eq_right hpower]

theorem shortest_backoff (hp : p.InWords) (k : ℕ) :
    p.shortest (p.backoff k) = min p.baseDelayMs p.maxDelayMs := by
  have hbase : p.baseDelayMs ≤ p.baseDelayMs * Nat.pow 2 k :=
    Nat.le_mul_of_pos_right _ (Nat.two_pow_pos k)
  have hword := hp.baseDelayMs
  rw [shortest, backoff]
  omega

theorem allows_max (hp : p.InWords) {e : StoreError} (h : e.retryAfterMs? = none) {k jitter : ℕ}
    (hjitter : jitter ≤ p.backoff k) : p.Allows e (max jitter (p.shortest (p.backoff k))) := by
  have hmost : p.backoff k ≤ p.maxDelayMs := Nat.min_le_right _ _
  have hbounds : min p.baseDelayMs p.maxDelayMs ≤ max jitter (p.shortest (p.backoff k)) ∧
      max jitter (p.shortest (p.backoff k)) ≤ p.maxDelayMs := by
    rw [shortest_backoff hp]
    omega
  cases e with
  | rateLimited after => cases h
  | _ => exact hbounds

theorem allows_of_retryAfterMs? {e : StoreError} {after : ℕ} (h : e.retryAfterMs? = some after) :
    p.Allows e (min after p.maxDelayMs) := by
  cases e with
  | rateLimited ms =>
      cases h
      rfl
  | _ => cases h

end RetryPolicy

/-! ## Scripts -/

/-- How tries end, and which random number up to a limit is drawn after what has been called. -/
structure RetryScript (β : Type) where
  outcome : ℕ → Except StoreError β
  draw : List RetryCall → (limit : ℕ) → Fin (limit + 1)

namespace RetryScript

/-- Answers a call and writes it down. -/
def answer (s : RetryScript β) : (c : RetryCall) → StateM (List RetryCall) (c.Answer β)
  | .attempt => fun log => (s.outcome (log.count .attempt), log ++ [.attempt])
  | .jitter limit => fun log => ((s.draw log limit : ℕ), log ++ [.jitter limit])
  | .wait milliseconds => fun log => ((), log ++ [.wait milliseconds])
  | .count event => fun log => ((), log ++ [.count event])

/-- What a program ends with, and all calls up to then. -/
def play (s : RetryScript β) (p : Program (RetryCall.Answer β) γ) (log : List RetryCall) :
    γ × List RetryCall :=
  (p.run s.answer).run log

end RetryScript

/-- A random number is drawn. -/
def RetryCall.IsDraw : RetryCall → Bool
  | jitter _ => true
  | attempt | wait _ | count _ => false

namespace Retry

/-- An outcome after which it is tried again. -/
def Transient (r : Except StoreError β) : Prop := ∃ e, r = .error e ∧ e.isRetryable = true

/-- The calls of a try that is followed by another one. -/
def failedTry (operation : String) (draws : List RetryCall) (ms : ℕ) : List RetryCall :=
  .attempt :: draws ++ [.count (retries operation), .wait ms]

/-- The calls of tries with waits between them, apart from random numbers. -/
def schedule (operation : String) (waits : List ℕ) : List RetryCall :=
  waits.flatMap (fun ms => [.attempt, .count (retries operation), .wait ms]) ++ [.attempt]

/-- What becomes of tries with given outcomes if `left` more may follow the first: only the `n`-th is
not followed by another one, and between two tries there is one wait. -/
structure Tries (p : RetryPolicy) (operation : String) (outcome : ℕ → Except StoreError β)
    (left n : ℕ) (waits : List ℕ) (calls : List RetryCall) : Prop where
  le_left : n ≤ left
  transient : ∀ i < n, Transient (outcome i)
  final : n < left → ¬ Transient (outcome n)
  length_waits : waits.length = n
  allowed : ∀ i e ms, outcome i = .error e → waits[i]? = some ms → p.Allows e ms
  calls_eq : calls.filter (!·.IsDraw) = schedule operation waits

variable {p : RetryPolicy} {operation : String} {s : RetryScript β} {log calls : List RetryCall}
  {outcome : ℕ → Except StoreError β} {k left n ms : ℕ} {waits : List ℕ} {e : StoreError}

theorem Tries.last (h : 0 < left → ¬ Transient (outcome 0)) :
    Tries p operation outcome left 0 [] [.attempt] where
  le_left := Nat.zero_le left
  transient := by simp
  final := h
  length_waits := rfl
  allowed := by simp
  calls_eq := rfl

theorem count_failedTry {draws : List RetryCall} (hdraws : draws.filter (!·.IsDraw) = []) :
    (failedTry operation draws ms).count .attempt = 1 := by
  have hnone : draws.count .attempt = 0 := by
    rw [List.count_eq_zero]
    intro hmem
    have hkept : RetryCall.attempt ∈ draws.filter (!·.IsDraw) := List.mem_filter.mpr ⟨hmem, rfl⟩
    rw [hdraws] at hkept
    cases hkept
  simp [failedTry, hnone]

theorem filter_failedTry {draws : List RetryCall} (hdraws : draws.filter (!·.IsDraw) = []) :
    (failedTry operation draws ms).filter (!·.IsDraw) =
      [.attempt, .count (retries operation), .wait ms] := by
  rw [failedTry, List.filter_append, List.filter_cons_of_pos (by rfl), hdraws]
  rfl

theorem Tries.again (h : Tries p operation (fun i => outcome (i + 1)) left n waits calls)
    (hfirst : outcome 0 = .error e) (he : e.isRetryable = true) (hms : p.Allows e ms)
    {draws : List RetryCall} (hdraws : draws.filter (!·.IsDraw) = []) :
    Tries p operation outcome (left + 1) (n + 1) (ms :: waits)
      (failedTry operation draws ms ++ calls) where
  le_left := Nat.succ_le_succ h.le_left
  transient i hi := by
    cases i with
    | zero => exact ⟨e, hfirst, he⟩
    | succ i => exact h.transient i (Nat.lt_of_succ_lt_succ hi)
  final hn := h.final (Nat.lt_of_succ_lt_succ hn)
  length_waits := congrArg Nat.succ h.length_waits
  allowed i e' ms' he' hms' := by
    cases i with
    | zero =>
        cases hfirst.symm.trans he'
        cases hms'
        exact hms
    | succ i => exact h.allowed i e' ms' he' hms'
  calls_eq := by
    rw [List.filter_append, filter_failedTry hdraws, h.calls_eq]
    rfl

/-! ## Playing a run -/

theorem play_bind (q : Program (RetryCall.Answer β) γ) {δ : Type}
    (f : γ → Program (RetryCall.Answer β) δ) :
    s.play (q >>= f) log = s.play (f (s.play q log).1) (s.play q log).2 := by
  rw [RetryScript.play, Program.run_bind]
  rfl

theorem play_attempt (hk : log.count .attempt = k) :
    s.play attempt log = (s.outcome k, log ++ [.attempt]) := by
  rw [← hk]
  rfl

theorem play_count (event : Counter) :
    s.play (count (β := β) event) log = ((), log ++ [.count event]) := rfl

theorem play_wait (ms : ℕ) : s.play (wait (β := β) ms) log = ((), log ++ [.wait ms]) := rfl

/-- A random number is within its limit; none is needed if that is zero. -/
theorem exists_play_jitter (limit : ℕ) :
    ∃ drawn draws, s.play (jitter limit) log = (drawn, log ++ draws) ∧ drawn ≤ limit ∧
      draws.filter (!·.IsDraw) = [] := by
  by_cases hlimit : limit = 0
  · refine ⟨0, [], ?_, Nat.zero_le _, rfl⟩
    rw [jitter_eq_done hlimit, List.append_nil]
    rfl
  · rw [jitter_eq_ask hlimit]
    exact ⟨_, [.jitter limit], rfl, Nat.lt_succ_iff.mp (s.draw log limit).isLt, rfl⟩

/-- The wait after a try. -/
theorem exists_play_delay (s : RetryScript β) (log : List RetryCall) (hp : p.InWords) (k : ℕ)
    (e : StoreError) :
    ∃ ms draws, s.play (delay p k e) log = (ms, log ++ draws) ∧ p.Allows e ms ∧
      draws.filter (!·.IsDraw) = [] := by
  rw [delay]
  cases he : e.retryAfterMs? with
  | some after =>
      refine ⟨_, [], ?_, RetryPolicy.allows_of_retryAfterMs? he, rfl⟩
      rw [List.append_nil]
      rfl
  | none =>
      obtain ⟨drawn, draws, hplay, hdrawn, hdraws⟩ := exists_play_jitter (s := s) (p.backoff k)
      refine ⟨_, draws, ?_, RetryPolicy.allows_max hp he hdrawn, hdraws⟩
      simp only
      rw [play_bind, hplay]
      rfl

/-- A try whose outcome is final is the last one. -/
theorem play_attempts_of_final (hk : log.count .attempt = k) (h : ¬ Transient (s.outcome k)) :
    s.play (attempts p operation k left) log = (s.outcome k, log ++ [.attempt]) := by
  cases left with
  | zero => exact play_attempt hk
  | succ left =>
      rw [attempts, play_bind, play_attempt hk]
      cases houtcome : s.outcome k with
      | ok b => rfl
      | error e =>
          have he : e.isRetryable = false := Bool.eq_false_iff.mpr fun he => h ⟨e, houtcome, he⟩
          simp only [he, Bool.false_eq_true, if_false]
          rfl

/-- After another outcome there is a wait, and then the tries that are left. -/
theorem exists_play_attempts_succ (hp : p.InWords) (operation : String) (left : ℕ)
    (hk : log.count .attempt = k) (houtcome : s.outcome k = .error e) (he : e.isRetryable = true) :
    ∃ ms draws, s.play (attempts p operation k (left + 1)) log =
        s.play (attempts p operation (k + 1) left) (log ++ failedTry operation draws ms) ∧
      p.Allows e ms ∧ draws.filter (!·.IsDraw) = [] := by
  obtain ⟨ms, draws, hdelay, hms, hdraws⟩ :=
    exists_play_delay s (log ++ [.attempt]) hp k e
  refine ⟨ms, draws, ?_, hms, hdraws⟩
  rw [attempts, play_bind, play_attempt hk, houtcome]
  simp only [he, if_true]
  rw [play_bind, hdelay, play_bind, play_bind, play_count, play_wait]
  exact congrArg (s.play _) (by simp [failedTry])

/-- Tries that are left go on from the outcome that is next. -/
theorem exists_play_attempts (hp : p.InWords) (operation : String) (s : RetryScript β) (left k : ℕ)
    (log : List RetryCall) (hk : log.count .attempt = k) :
    ∃ n waits calls, s.play (attempts p operation k left) log = (s.outcome (k + n), log ++ calls) ∧
      Tries p operation (fun i => s.outcome (k + i)) left n waits calls := by
  -- on the tries that are left, whatever was called before
  induction left generalizing k log with
  | zero => exact ⟨0, [], [.attempt], play_attempt hk, .last (by simp)⟩
  | succ left ih =>
      by_cases hfinal : Transient (s.outcome k)
      · obtain ⟨e, houtcome, he⟩ := hfinal
        obtain ⟨ms, draws, hplay, hms, hdraws⟩ :=
          exists_play_attempts_succ hp operation left hk houtcome he
        have hcount : (log ++ failedTry operation draws ms).count .attempt = k + 1 := by
          rw [List.count_append, hk, count_failedTry hdraws]
        obtain ⟨n, waits, calls, hrest, htries⟩ := ih _ _ hcount
        have hnext : (fun i => s.outcome (k + (i + 1))) = fun i => s.outcome (k + 1 + i) := by
          funext i
          rw [Nat.add_right_comm]
          rfl
        refine ⟨n + 1, ms :: waits, failedTry operation draws ms ++ calls, ?_,
          Tries.again ?_ houtcome he hms hdraws⟩
        · rw [hplay, hrest, List.append_assoc]
          exact congrArg (·, _) (congrFun hnext n).symm
        · exact hnext ▸ htries
      · exact ⟨0, [], [.attempt], play_attempts_of_final hk hfinal, .last fun _ => hfinal⟩

/-! ## Without tries that are left -/

/-- The tries as rounds, with an error for the case that no round is left: the last one if there was
any, or else one that is given. -/
def rounds (p : RetryPolicy) (operation : String) (exhausted : StoreError)
    (last : Option StoreError) (k : ℕ) : ℕ → Program (RetryCall.Answer β) (Except StoreError β)
  | 0 => return .error (last.getD exhausted)
  | left + 1 => do
    match ← attempt with
    | .ok b => return .ok b
    | .error e =>
      if e.isRetryable && k < p.maxRetries then
        let ms ← delay p k e
        count (retries operation)
        wait ms
        rounds p operation exhausted (some e) (k + 1) left
      else return .error e

/-- The last round never goes on, so that the error for the case that none is left is not used. -/
theorem rounds_eq_attempts (exhausted : StoreError) (last : Option StoreError)
    (h : k + left = p.maxRetries) :
    (rounds p operation exhausted last k (left + 1) :
      Program (RetryCall.Answer β) (Except StoreError β)) = attempts p operation k left := by
  induction left generalizing k last with
  | zero =>
      have hk : decide (k < p.maxRetries) = false := decide_eq_false (by omega)
      rw [rounds, attempts]
      refine Eq.trans (congrArg (attempt >>= ·) (funext fun outcome => ?_)) (bind_pure _)
      cases outcome with
      | ok b => rfl
      | error e =>
          simp only [hk, Bool.and_false]
          rfl
  | succ left ih =>
      have hk : decide (k < p.maxRetries) = true := decide_eq_true (by omega)
      rw [rounds, attempts]
      refine congrArg (attempt >>= ·) (funext fun outcome => ?_)
      cases outcome with
      | ok b => rfl
      | error e =>
          change (if (e.isRetryable && decide (k < p.maxRetries)) = true then _ else _) = _
          rw [hk, Bool.and_true, ih (some e) (by omega)]

/-- Tries end with the first outcome that is final, or with the last one that is allowed. Between two
of them there is one wait, as long as the store asks or between the shortest and the longest one,
which is calculated within 64 bits. An error for the case that no try is left is never needed. -/
theorem tries_until_final {p : RetryPolicy} (hp : p.InWords) (operation : String)
    (s : RetryScript β) :
    (∃ n waits calls, s.play (run p operation) [] = (s.outcome n, calls) ∧
      Tries p operation s.outcome p.maxRetries n waits calls) ∧
    (∀ k, p.backoff k = p.wordBackoff k) ∧
    ∀ exhausted, run p operation = (rounds p operation exhausted none 0 (p.maxRetries + 1) :
      Program (RetryCall.Answer β) (Except StoreError β)) := by
  refine ⟨?_, p.backoff_eq_wordBackoff, fun exhausted => ?_⟩
  · obtain ⟨n, waits, calls, hplay, htries⟩ :=
      exists_play_attempts hp operation s p.maxRetries 0 [] rfl
    simp only [Nat.zero_add] at hplay htries
    exact ⟨n, waits, calls, hplay, htries⟩
  · exact (rounds_eq_attempts exhausted none (Nat.zero_add _)).symm

/-- A server that is down at first, then gets too many requests, and then answers. -/
def recovering : RetryScript ℕ where
  outcome
    | 0 => .error (.serverError 503 "down")
    | 1 => .error (.rateLimited 250)
    | _ => .ok 7
  draw _ _ := 0

theorem tries_until_final_recovering : RetryPolicy.InWords {} ∧
    ∃ ms, 100 ≤ ms ∧ ms ≤ 5000 ∧ ∃ calls, recovering.play (run {} "get_job") [] = (.ok 7, calls) ∧
      calls.filter (!·.IsDraw) = schedule "get_job" [ms, 250] := by
  have hp := RetryPolicy.inWords_default
  obtain ⟨⟨n, waits, calls, hplay, htries⟩, -⟩ := tries_until_final hp "get_job" recovering
  have hdown : Transient (recovering.outcome 0) := ⟨_, rfl, rfl⟩
  have hbusy : Transient (recovering.outcome 1) := ⟨_, rfl, rfl⟩
  have hanswer : ∀ i, ¬ Transient (recovering.outcome (i + 2)) := by
    rintro i ⟨e, he, -⟩
    cases he
  have hn : n = 2 := by
    match n, htries with
    | 0, htries => exact (htries.final (by decide) hdown).elim
    | 1, htries => exact (htries.final (by decide) hbusy).elim
    | 2, _ => rfl
    | n + 3, htries => exact (hanswer 0 (htries.transient 2 (by omega))).elim
  subst hn
  obtain ⟨first, second, rfl⟩ := List.length_eq_two.mp htries.length_waits
  have hfirst : min 100 5000 ≤ first ∧ first ≤ 5000 := htries.allowed 0 _ first rfl rfl
  have hsecond : second = min 250 5000 := htries.allowed 1 _ second rfl rfl
  subst hsecond
  exact ⟨hp, first, hfirst.1, hfirst.2, calls, hplay, htries.calls_eq⟩

end Retry

end Slideshow
