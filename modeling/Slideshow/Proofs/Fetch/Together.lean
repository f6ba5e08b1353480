import Slideshow.Proofs.Fetch.Retry
import Slideshow.Proofs.Program.Result
import Mathlib.Data.List.TakeWhile

/-! # Fetches that overlap

Several addresses are fetched at the same time, and their calls may come in any order. Every run is
given names of its own, and what happens under other names does not concern it: seen alone, it is a
run among the files that were there at the beginning. -/

namespace Slideshow

namespace Program

variable {Call β : Type} {Answer : Call → Type}

/-- The value of a program that is done. -/
def value? : Program Answer β → Option β
  | done b => some b
  | call _ _ => none

@[simp] theorem value?_done (b : β) : (done b : Program Answer β).value? = some b := rfl

theorem eq_done_of_value? {p : Program Answer β} {b : β} (h : p.value? = some b) : p = done b := by
  cases p with
  | done c => rw [Option.some.inj h]
  | call request next => cases h

end Program

namespace Fetch

variable {τ : Type}

/-! ## Seen alone -/

/-- What a fetch does outside. -/
inductive Event where
  | sent (request : Http.Request)
  | waited (milliseconds : ℕ)

/-- Outside nothing is known but what was done there; the answers may be any. -/
def Outside.log : Outside (List Event) where
  send r a _ b := b = a ++ [.sent r]
  wait ms a b := b = a ++ [.waited ms]

theorem total_log : Outside.log.Total where
  send _ _ := ⟨none, _, rfl⟩
  wait _ _ := ⟨_, rfl⟩

/-- The same files, before anything was done and before any name was given. -/
def Site.unseen (x : Site τ) : Site (List Event) := ⟨[], x.files, ∅⟩

variable {directory : String} {names : Names directory} {x y : Site τ}
  {views : ℕ → Site (List Event)} {i : ℕ}

/-- Each run sees a part of what became of the files of `x`. What it sees under the names that it
was given is so; all else it sees as it was. No name was given to two runs, and what is under no
name that was given is as it was. -/
structure Apart (names : Names directory) (x y : Site τ) (views : ℕ → Site (List Event)) :
    Prop where
  given : ∀ i, (views i).given ⊆ y.given
  once : ∀ {i j n}, n ∈ (views i).given → n ∈ (views j).given → i = j
  agrees : ∀ {i path}, (views i).Owns names path → y.files path = (views i).files path
  kept : ∀ {i path}, ¬ (views i).Owns names path → (views i).files path = x.files path
  untouched : ∀ {path}, (∀ i, ¬ (views i).Owns names path) → y.files path = x.files path

theorem apart_unseen (names : Names directory) (x : Site τ) :
    Apart names x x fun _ => x.unseen where
  given _ := Finset.empty_subset _
  once h := absurd h (Finset.notMem_empty _)
  agrees := by
    rintro _ _ ⟨n, hn, -⟩
    exact absurd hn (Finset.notMem_empty n)
  kept _ := rfl
  untouched _ := rfl

namespace Apart

/-- Two runs do not go to the same path. -/
theorem eq_of_owns (h : Apart names x y views) {j : ℕ} {path : String}
    (hi : (views i).Owns names path) (hj : (views j).Owns names path) : i = j := by
  obtain ⟨n, hn, e, rfl⟩ := hi
  obtain ⟨m, hm, e', hpath⟩ := hj
  exact h.once hn (names.separate hpath ▸ hm)

/-- One run goes on: it may be given new names, and it changes files under its own names only. -/
theorem update (h : Apart names x y views) {v : Site (List Event)} {z : Site τ}
    (hgrows : (views i).given ⊆ v.given) (hshared : y.given ⊆ z.given) (hgiven : v.given ⊆ z.given)
    (hnew : ∀ n ∈ v.given, n ∈ (views i).given ∨ n ∉ y.given)
    (hagrees : ∀ path, v.Owns names path → z.files path = v.files path)
    (hkept : ∀ path, ¬ v.Owns names path → v.files path = x.files path)
    (hothers : ∀ path, ¬ v.Owns names path → z.files path = y.files path) :
    Apart names x z (Function.update views i v) := by
  have hother : ∀ {j n}, j ≠ i → n ∈ (views j).given → n ∉ v.given := fun {j n} hj hn hv => by
    rcases hnew n hv with hi | hfresh
    · exact hj (h.once hn hi)
    · exact hfresh (h.given j hn)
  have hapart : ∀ {j path}, j ≠ i → (views j).Owns names path → ¬ v.Owns names path := by
    rintro j _ hj ⟨n, hn, e, rfl⟩ ⟨m, hm, e', hpath⟩
    exact hother hj hn (names.separate hpath ▸ hm)
  have honce : ∀ j k n, n ∈ (Function.update views i v j).given →
      n ∈ (Function.update views i v k).given → j = k := by
    refine (Function.forall_update_iff views fun j w => ∀ k n, n ∈ w.given →
      n ∈ (Function.update views i v k).given → j = k).mpr ⟨?_, fun j hj => ?_⟩
    · exact (Function.forall_update_iff views fun k w => ∀ n, n ∈ v.given → n ∈ w.given →
        i = k).mpr ⟨fun _ _ _ => rfl, fun k hk n hn hm => absurd hn (hother hk hm)⟩
    · exact (Function.forall_update_iff views fun k w => ∀ n, n ∈ (views j).given → n ∈ w.given →
        j = k).mpr ⟨fun n hn hm => absurd hm (hother hj hn), fun k _ n hn hm => h.once hn hm⟩
  have hagrees' : ∀ j path, (Function.update views i v j).Owns names path →
      z.files path = (Function.update views i v j).files path := by
    refine (Function.forall_update_iff views fun _ w => ∀ path, w.Owns names path →
      z.files path = w.files path).mpr ⟨hagrees, fun j hj path howns => ?_⟩
    exact (hothers path (hapart hj howns)).trans (h.agrees howns)
  have hkept' : ∀ j path, ¬ (Function.update views i v j).Owns names path →
      (Function.update views i v j).files path = x.files path :=
    (Function.forall_update_iff views fun _ w => ∀ path, ¬ w.Owns names path →
      w.files path = x.files path).mpr ⟨hkept, fun _ _ _ howns => h.kept howns⟩
  refine ⟨?_, honce _ _ _, hagrees' _ _, hkept' _ _, fun {path} hnone => ?_⟩
  · exact (Function.forall_update_iff views fun _ w => w.given ⊆ z.given).mpr
      ⟨hgiven, fun j _ => (h.given j).trans hshared⟩
  · obtain ⟨hv, hrest⟩ := (Function.forall_update_iff views fun _ w =>
      ¬ w.Owns names path).mp hnone
    refine (hothers path hv).trans (h.untouched fun j => ?_)
    rcases eq_or_ne j i with rfl | hj
    · rintro ⟨n, hn, hpath⟩
      exact hv ⟨n, hgrows hn, hpath⟩
    · exact hrest j hj

theorem outside (h : Apart names x y views) (i : ℕ) (b : τ) (events : List Event) :
    Apart names x { y with outside := b }
      (Function.update views i { views i with outside := events }) :=
  h.update (Finset.Subset.refl _) (Finset.Subset.refl _) (h.given i) (fun _ hn => .inl hn)
    (fun _ howns => h.agrees howns) (fun _ howns => h.kept howns) fun _ _ => rfl

theorem write (h : Apart names x y views) {path : String} (howns : (views i).Owns names path)
    (content : Option String) :
    Apart names x (y.write path content)
      (Function.update views i ((views i).write path content)) := by
  refine h.update (Finset.Subset.refl _) (Finset.Subset.refl _) (h.given i) (fun _ hn => .inl hn)
    (fun q hq => ?_) (fun q hq => ?_) fun q hq => ?_
  · rcases eq_or_ne q path with rfl | hne
    · simp
    · simpa [hne] using h.agrees hq
  · have hne : q ≠ path := fun heq => hq (heq ▸ howns)
    simpa [hne] using h.kept hq
  · have hne : q ≠ path := fun heq => hq (heq ▸ howns)
    simp [hne]

theorem draw (h : Apart names x y views) (i : ℕ) {n : ℕ} (hn : n ∉ y.given) :
    Apart names x { y with given := insert n y.given }
      (Function.update views i { views i with given := insert n (views i).given }) := by
  -- under the new name all is as it was at the beginning
  have hclean : ∀ e j, ¬ (views j).Owns names (names.path n e) := by
    rintro e j ⟨m, hm, e', hpath⟩
    exact hn (h.given j (names.separate hpath ▸ hm))
  have hold : ∀ {path}, (views i).Owns names path →
      Site.Owns { views i with given := insert n (views i).given } names path := by
    rintro path ⟨m, hm, hpath⟩
    exact ⟨m, Finset.mem_insert_of_mem hm, hpath⟩
  refine h.update (Finset.subset_insert n _) (Finset.subset_insert n _)
    (Finset.insert_subset_insert n (h.given i)) (fun m hm => ?_) ?_
    (fun path hpath => h.kept fun howns => hpath (hold howns)) fun _ _ => rfl
  · rcases Finset.mem_insert.mp hm with rfl | hm
    · exact .inr hn
    · exact .inl hm
  · rintro _ ⟨m, hm, e, rfl⟩
    rcases Finset.mem_insert.mp hm with rfl | hm
    · exact (h.untouched (hclean e)).trans (h.kept (hclean e i)).symm
    · exact h.agrees ⟨m, hm, e, rfl⟩

end Apart

variable {out : Outside τ} {p : FetchPolicy}

/-- What is answered to one of the runs could as well be answered to it alone. -/
theorem Apart.answer (h : Apart names x y views) (i : ℕ) {c : FetchCall} {a : c.Answer} {z : Site τ}
    (ha : answers out names c y a z)
    (hseen : ∃ b v, answers Outside.log names c (views i) b v) :
    ∃ v, answers Outside.log names c (views i) a v ∧
      Apart names x z (Function.update views i v) := by
  cases c with
  | send r =>
      obtain ⟨b, -, rfl⟩ := ha
      exact ⟨_, ⟨_, rfl, rfl⟩, h.outside i b _⟩
  | wait ms =>
      obtain ⟨b, -, rfl⟩ := ha
      exact ⟨_, ⟨_, rfl, rfl⟩, h.outside i b _⟩
  | freshName =>
      obtain ⟨n, hn, rfl, rfl⟩ := ha
      exact ⟨_, ⟨n, fun hmem => hn (h.given i hmem), rfl, rfl⟩, h.draw i hn⟩
  | createFile path =>
      obtain ⟨-, rfl, rfl⟩ := ha
      obtain ⟨-, -, howns, -⟩ := hseen
      exact ⟨_, ⟨howns, rfl, rfl⟩, h.write howns _⟩
  | appendFile path chunk =>
      obtain ⟨-, rfl, rfl⟩ := ha
      obtain ⟨-, -, howns, -⟩ := hseen
      rw [h.agrees howns]
      exact ⟨_, ⟨howns, rfl, rfl⟩, h.write howns _⟩
  | removeFile path =>
      obtain ⟨-, rfl⟩ := ha
      obtain ⟨-, -, howns, -⟩ := hseen
      exact ⟨_, ⟨howns, rfl⟩, h.write howns _⟩
  | count event =>
      obtain rfl := ha
      refine ⟨views i, rfl, ?_⟩
      rwa [Function.update_eq_self]

/-! ## Several runs -/

/-- The fetch of one address, as far as it has come. -/
abbrev Run (p : FetchPolicy) (directory : String) : Type := Attempt fun url => fetch p url directory

/-- Fetches of several addresses, and the site they share. -/
abbrev Fetches (p : FetchPolicy) (directory : String) (τ : Type) : Type :=
  System (fun url => fetch p url directory) (Site τ)

/-- How many runs have ended before the first that has not. Their results can be handed on. -/
def Fetches.ready (s : Fetches p directory τ) : ℕ :=
  (s.attempts.takeWhile fun d => d.rest.value?.isSome).length

/-- The addresses are taken up in order, as long as no more than so many fetches have begun of which
the results cannot be handed on. -/
def Buffered (urls : List String) (concurrency : ℕ) (s : Fetches p directory τ) (url : String) :
    Prop :=
  urls[s.attempts.length]? = some url ∧ s.attempts.length < s.ready + max concurrency 1

/-- Every address was fetched, with these results in order. Whatever calls could be made at the same
time were made in any order. -/
def Together (out : Outside τ) (names : Names directory) (p : FetchPolicy) (urls : List String)
    (concurrency : ℕ) (x : Site τ) (rs : List (Except MediaError String)) (y : Site τ) : Prop :=
  ∃ s : Fetches p directory τ,
    System.Reaches (answers out names) (Buffered urls concurrency) ⟨x, []⟩ s ∧ s.shared = y ∧
      s.attempts.length = urls.length ∧ s.attempts.map (fun d => d.rest.value?) = rs.map some

/-- Each run is for the address at its place and, seen alone, goes on as a fetch does. -/
structure Assured (names : Names directory) (urls : List String) (x : Site τ)
    (s : Fetches p directory τ) (views : ℕ → Site (List Event)) : Prop where
  apart : Apart names x s.shared views
  waiting : ∀ i, s.attempts.length ≤ i → views i = x.unseen
  placed : ∀ {i : ℕ} {d : Run p directory}, s.attempts[i]? = some d → urls[i]? = some d.message
  assured : ∀ {i : ℕ} {d : Run p directory}, s.attempts[i]? = some d →
    d.rest.Alone (answers Outside.log names)
      (Fetched Outside.log names p d.message 0 (max p.attempts 1) (exhaustedError p d.message)
        x.unseen) (views i)

namespace Assured

variable {urls : List String} {s : Fetches p directory τ} {d : Run p directory} {url : String}

/-- A run begins at the next address, and has seen nothing yet. -/
theorem deliver (h : Assured names urls x s views) (hclear : x.unseen.Clear names)
    (hurl : urls[s.attempts.length]? = some url) :
    Assured names urls x { s with attempts := s.attempts ++ [.fresh url] } views := by
  refine ⟨h.apart, fun i hi => h.waiting i ?_, fun hi => ?_, fun hi => ?_⟩
  · rw [List.length_append] at hi
    exact (Nat.le_add_right _ _).trans hi
  · rcases System.getElem?_concat_cases hi with ⟨rfl, rfl⟩ | hi
    · exact hurl
    · exact h.placed hi
  · rcases System.getElem?_concat_cases hi with ⟨rfl, rfl⟩ | hi
    · rw [h.waiting _ le_rfl]
      exact alone_fetch total_log hclear
    · exact h.assured hi

/-- What one run is answered changes what it has seen, and nothing that the others have. -/
theorem answer (h : Assured names urls x s views) (hi : s.attempts[i]? = some d) {c : FetchCall}
    {next : c.Answer → Program FetchCall.Answer (Except MediaError String)} {a : c.Answer}
    {after : Site τ} (hrest : d.rest = .call c next) (ha : answers out names c s.shared a after) :
    ∃ views', Assured names urls x ⟨after, s.attempts.set i (d.proceed hrest a)⟩ views' := by
  have hassured := h.assured hi
  rw [hrest] at hassured
  obtain ⟨hseen, hnext⟩ := hassured _ rfl
  obtain ⟨v, hv, hapart⟩ := h.apart.answer i ha hseen
  have hlt := (List.getElem?_eq_some_iff.mp hi).1
  have hplaced : urls[i]? = some d.message := h.placed hi
  refine ⟨Function.update views i v, hapart, fun j hj => ?_, fun {j d'} hj => ?_,
    fun {j d'} hj => ?_⟩
  · rw [List.length_set] at hj
    rw [Function.update_of_ne (by omega)]
    exact h.waiting j hj
  · rcases System.getElem?_set_cases hj with ⟨rfl, rfl⟩ | hj
    · exact hplaced
    · exact h.placed hj
  · by_cases hij : j = i
    · subst hij
      rw [List.getElem?_set_self hlt] at hj
      obtain rfl := Option.some.inj hj
      rw [Function.update_self]
      exact (hnext a v hv).2
    · rw [List.getElem?_set_ne (Ne.symm hij)] at hj
      rw [Function.update_of_ne hij]
      exact h.assured hj

theorem crash (h : Assured names urls x s views) (hi : s.attempts[i]? = some d) :
    Assured names urls x { s with attempts := s.attempts.set i d.crash } views := by
  have hplaced := h.placed hi
  have hassured := h.assured hi
  refine ⟨h.apart, fun j hj => h.waiting j (by simpa using hj), fun hj => ?_, fun hj => ?_⟩
  · rcases System.getElem?_set_cases hj with ⟨rfl, rfl⟩ | hj
    · exact hplaced
    · exact h.placed hj
  · rcases System.getElem?_set_cases hj with ⟨rfl, rfl⟩ | hj
    · exact hassured
    · exact h.assured hj

theorem step {concurrency : ℕ} {s' : Fetches p directory τ} (h : Assured names urls x s views)
    (hclear : x.unseen.Clear names)
    (hstep : System.Step (answers out names) (Buffered urls concurrency) s s') :
    ∃ views', Assured names urls x s' views' := by
  cases hstep with
  | deliver url hurl => exact ⟨views, h.deliver hclear hurl.1⟩
  | answer i d a after hi hc hrest ha => exact h.answer hi hrest ha
  | crash i d hi hf => exact ⟨views, h.crash hi⟩

end Assured

theorem exists_assured {urls : List String} {concurrency : ℕ} {s : Fetches p directory τ}
    (hclear : x.unseen.Clear names)
    (hreach : System.Reaches (answers out names) (Buffered urls concurrency) ⟨x, []⟩ s) :
    ∃ views, Assured names urls x s views := by
  induction hreach with
  | refl => exact ⟨fun _ => x.unseen, apart_unseen names x, fun _ _ => rfl, nofun, nofun⟩
  | tail _ hstep ih =>
      obtain ⟨views, h⟩ := ih
      exact h.step hclear hstep

/-! ## Results in order -/

/-- Every result is that of a fetch of the address at its place among the files of `x`, and its file
is there in the end, apart from those of the others. All else is as it was. -/
structure InOrder (names : Names directory) (p : FetchPolicy) (urls : List String) (x : Site τ)
    (rs : List (Except MediaError String)) (y : Site τ) : Prop where
  length : rs.length = urls.length
  each : ∀ {i : ℕ} {url r}, urls[i]? = some url → rs[i]? = some r →
    ∃ v, Fetched Outside.log names p url 0 (max p.attempts 1) (exhaustedError p url) x.unseen r v ∧
      ∀ path, r = .ok path → y.files path = v.files path
  distinct : ∀ {i j : ℕ} {path}, rs[i]? = some (.ok path) → rs[j]? = some (.ok path) → i = j
  unchanged : ∀ path, (∀ r ∈ rs, r ≠ .ok path) → y.files path = x.files path

theorem Fetched.owns {url path : String} {k n : ℕ} {report : Http.Fault → MediaError}
    (h : Fetched out names p url k n report x (.ok path) y) : y.Owns names path := by
  cases h with
  | got _ _ hgiven => exact ⟨_, hgiven (Finset.mem_insert_self _ _), _, rfl⟩

theorem Fetched.files_eq {url path : String} {k n : ℕ} {report : Http.Fault → MediaError}
    {r : Except MediaError String} (h : Fetched out names p url k n report x r y)
    (hr : r ≠ .ok path) : y.files path = x.files path := by
  cases h with
  | got => exact Function.update_of_ne (fun heq => hr (congrArg Except.ok heq.symm)) _ _
  | failed => rfl

/-- Seen alone, a run that has ended is a fetch of the address at its place. -/
theorem Assured.fetched {urls : List String} {s : Fetches p directory τ}
    {rs : List (Except MediaError String)} (h : Assured names urls x s views)
    (hvalues : s.attempts.map (fun d => d.rest.value?) = rs.map some) {i : ℕ}
    {r : Except MediaError String} (hr : rs[i]? = some r) : ∃ url, urls[i]? = some url ∧
      Fetched Outside.log names p url 0 (max p.attempts 1) (exhaustedError p url) x.unseen r
        (views i) := by
  have hvalue : (s.attempts.map fun d => d.rest.value?)[i]? = some (some r) := by
    rw [hvalues, List.getElem?_map, hr]
    rfl
  rw [List.getElem?_map] at hvalue
  obtain ⟨d, hd, hdone⟩ := Option.map_eq_some_iff.mp hvalue
  have hends := h.assured hd
  rw [Program.eq_done_of_value? hdone] at hends
  exact ⟨d.message, h.placed hd, hends⟩

theorem Together.inOrder {urls : List String} {concurrency : ℕ}
    {rs : List (Except MediaError String)} (hclear : x.unseen.Clear names)
    (h : Together out names p urls concurrency x rs y) : InOrder names p urls x rs y := by
  obtain ⟨s, hreach, rfl, hlength, hvalues⟩ := h
  obtain ⟨views, hassured⟩ := exists_assured hclear hreach
  have hrs : rs.length = urls.length := by
    have hmapped := congrArg List.length hvalues
    rwa [List.length_map, List.length_map, hlength, eq_comm] at hmapped
  refine ⟨hrs, fun {i url r} hurl hr => ?_, fun {i j path} hi hj => ?_, fun path hnone => ?_⟩
  · obtain ⟨_, hurl', h⟩ := hassured.fetched hvalues hr
    obtain rfl := Option.some.inj (hurl.symm.trans hurl')
    refine ⟨views i, h, ?_⟩
    rintro path rfl
    exact hassured.apart.agrees h.owns
  · obtain ⟨_, -, hfirst⟩ := hassured.fetched hvalues hi
    obtain ⟨_, -, hsecond⟩ := hassured.fetched hvalues hj
    exact hassured.apart.eq_of_owns hfirst.owns hsecond.owns
  · by_cases howned : ∃ i, (views i).Owns names path
    · obtain ⟨i, howns⟩ := howned
      have hlt : i < s.attempts.length := by
        by_contra hge
        obtain ⟨n, hn, -⟩ := howns
        rw [hassured.waiting i (not_lt.mp hge)] at hn
        exact Finset.notMem_empty n hn
      have hr := List.getElem?_eq_getElem (show i < rs.length by omega)
      obtain ⟨_, -, h⟩ := hassured.fetched hvalues hr
      rw [hassured.apart.agrees howns]
      exact h.files_eq (hnone _ (List.getElem_mem _))
    · exact hassured.apart.untouched fun i howns => howned ⟨i, howns⟩

/-! ## One after the other -/

theorem Fetched.clear {url : String} {k n : ℕ} {report : Http.Fault → MediaError}
    {r : Except MediaError String} (hclear : x.Clear names)
    (h : Fetched out names p url k n report x r y) : y.Clear names := by
  intro i hi e
  cases h with
  | @got _ _ _ j given _ _ hgiven =>
      have hj : j ∈ given := hgiven (Finset.mem_insert_self _ _)
      have hne : names.path i e ≠ names.pathFor url j := fun heq =>
        hi ((names.separate heq).symm ▸ hj)
      have hold : i ∉ x.given := fun hmem => hi (hgiven (Finset.mem_insert_of_mem hmem))
      exact (Function.update_of_ne hne _ _).trans (hclear i hold e)
  | failed _ _ hgiven => exact hclear i (fun hmem => hi (hgiven hmem)) e

theorem alone_fetchEach (hout : out.Total) (hclear : x.Clear names) (urls : List String) :
    (fetchEach p directory urls).Alone (answers out names) (fun _ _ => True) x := by
  induction urls generalizing x with
  | nil => trivial
  | cons url rest ih =>
      refine (Program.assures_bind _ _).mpr ((alone_fetch hout hclear).weaken fun r y h => ?_)
      exact (Program.assures_bind _ _).mpr ((ih (h.clear hclear)).weaken fun _ _ _ => trivial)

theorem Fetches.ready_eq {s : Fetches p directory τ} {rs : List (Except MediaError String)}
    (h : s.attempts.map (fun d => d.rest.value?) = rs.map some) : s.ready = s.attempts.length := by
  rw [Fetches.ready, List.takeWhile_eq_self_iff.mpr]
  intro d hd
  have hvalue : d.rest.value? ∈ rs.map some := h ▸ List.mem_map_of_mem hd
  obtain ⟨r, -, hr⟩ := List.mem_map.mp hvalue
  rw [← hr]
  rfl

/-- When the fetches of some addresses have ended, those of the others may follow one another. -/
theorem together_of_leads (before : List String) {rest : List String} {concurrency : ℕ}
    (done : List (Except MediaError String)) {rs : List (Except MediaError String)}
    {s : Fetches p directory τ} {t : List (Exchange FetchCall.Answer)} (hlength : s.attempts.length = before.length)
    (hdone : s.attempts.map (fun d => d.rest.value?) = done.map some)
    (hreach : System.Reaches (answers out names) (Buffered (before ++ rest) concurrency) ⟨x, []⟩ s)
    (ht : System.Allowed (answers out names) t s.shared y)
    (hleads : (fetchEach p directory rest).Leads t (.done rs)) :
    Together out names p (before ++ rest) concurrency x (done ++ rs) y := by
  induction rest generalizing before done rs s t with
  | nil =>
      cases hleads
      cases ht
      rw [List.append_nil] at hreach ⊢
      rw [List.append_nil]
      exact ⟨s, hreach, rfl, hlength, hdone⟩
  | cons url rest ih =>
      obtain ⟨u, w, r, rfl, hfetch, hafter⟩ := hleads.exists_of_bind
      obtain ⟨v, q, others, rfl, hothers, hlast⟩ := hafter.exists_of_bind
      cases hlast
      rw [List.append_nil] at ht
      obtain ⟨z, hu, hv⟩ := ht.of_append
      have hnext : Buffered (before ++ url :: rest) concurrency s url := by
        refine ⟨by rw [hlength]; simp, ?_⟩
        rw [Fetches.ready_eq hdone]
        omega
      have hreach' := hreach.trans (System.Reaches.deliver hnext hfetch hu)
      rw [List.append_cons before] at hreach' ⊢
      rw [List.append_cons done]
      exact ih _ _ (by simp [hlength]) (by simp [hdone]) hreach' hv hothers

/-- Fetches that follow one another are a way to fetch together, whatever the concurrency. -/
theorem together_of_yields {urls : List String} {rs : List (Except MediaError String)}
    (concurrency : ℕ) (h : (fetchEach p directory urls).Yields (answers out names) x rs y) :
    Together out names p urls concurrency x rs y := by
  obtain ⟨t, ht, hleads⟩ := h
  exact together_of_leads [] [] rfl rfl .refl ht hleads

/-- Files that are fetched one after the other are given in order, or the first error is. -/
theorem alone_fetchAll (hout : out.Total) (hclear : x.Clear names) (urls : List String)
    (concurrency : ℕ) :
    (fetchAll p urls directory).Alone (answers out names)
      (fun r y => ∃ rs, Together out names p urls concurrency x rs y ∧ r = rs.mapM id) x := by
  refine (Program.assures_bind _ _).mpr ((alone_fetchEach hout hclear urls).yields.weaken ?_)
  exact fun rs y h => ⟨rs, together_of_yields concurrency h, rfl⟩

/-! ## What is promised -/

/-- Where no name of a new file was ever used, everything that is fetched is tried as often and as
patiently as promised. A file is there as a whole or not at all. A document is final once its whole
body is there, whether it can be decoded or not. Files that are fetched together, in whatever order
the calls are made, are given in the order of their addresses, or else the first error in that order
is. -/
theorem retries_as_promised {β : Type} (hout : out.Total)
    (hunused : ∀ i extension, x.files (names.path i extension) = none) (decoder : Json.Decoder β) :
    (∀ url, (fetch p url directory).Alone (answers out names)
      (Fetched out names p url 0 (max p.attempts 1) (exhaustedError p url) x) x) ∧
    (∀ url, (document p decoder url).Alone (answers out names)
      (Read out p decoder url 0 (max p.attempts 1) (exhaustedError p url) x) x) ∧
    ∀ urls concurrency,
      (fetchAll p urls directory).Alone (answers out names)
        (fun r y => ∃ rs, Together out names p urls concurrency x rs y ∧ r = rs.mapM id) x ∧
      ∀ rs y, Together out names p urls concurrency x rs y → InOrder names p urls x rs y ∧
        ((∃ paths : List String, rs.mapM id = .ok paths ∧ rs = paths.map .ok) ∨
          ∃ (paths : List String) (e : MediaError) (rest : List (Except MediaError String)),
            rs.mapM id = .error e ∧ rs = paths.map .ok ++ .error e :: rest) := by
  have hclear : x.Clear names := fun i _ => hunused i
  have hunseen : x.unseen.Clear names := fun i _ => hunused i
  exact ⟨fun url => alone_fetch hout hclear, fun url => alone_document hout decoder,
    fun urls concurrency => ⟨alone_fetchAll hout hclear urls concurrency,
      fun rs y h => ⟨h.inOrder hunseen, mapM_id_cases rs⟩⟩⟩

/-- Requests are answered one after another as a script says. -/
def Outside.scripted (script : ℕ → Option Http.Response) : Outside ℕ where
  send _ a answer b := answer = script a ∧ b = a + 1
  wait _ a b := b = a

theorem total_scripted (script : ℕ → Option Http.Response) : (Outside.scripted script).Total where
  send _ _ := ⟨_, _, rfl, rfl⟩
  wait _ _ := ⟨_, rfl⟩

theorem gets_scripted {script : ℕ → Option Http.Response} {url : String} {a b : ℕ}
    {result : Except Http.Fault (Http.Response × Url)} {answer : Http.Response}
    (hurl : (Http.Request.ofText .get url).isOk = true) (hanswer : script a = some answer)
    (hheaders : answer.headers = []) (h : (Outside.scripted script).Gets url a result b) :
    b = a + 1 ∧ ∃ address, result = .ok (answer, address) := by
  have halone : (Http.exchange Requesting.send .get url).Alone (Outside.scripted script).send
      (fun result b => b = a + 1 ∧ ∃ address, result = .ok (answer, address)) a := by
    rw [Http.exchange]
    cases hr : Http.Request.ofText .get url with
    | error fault =>
        rw [hr] at hurl
        cases hurl
    | ok r =>
        have hstay : r.redirected? answer = none := by
          rw [Http.Request.redirected?, Http.Response.header?, hheaders]
          rfl
        dsimp only
        rw [Http.follow]
        rintro _ rfl
        refine ⟨⟨_, _, rfl, rfl⟩, ?_⟩
        rintro _ _ ⟨rfl, rfl⟩
        refine ⟨trivial, ?_⟩
        rw [hanswer]
        dsimp only [Program.andThen]
        rw [hstay]
        exact ⟨rfl, _, rfl⟩
  exact halone.of_yields h

/-- The first answer breaks off, and all others are whole. -/
def halves : ℕ → Option Http.Response
  | 0 => some ⟨200, "OK", [], ["pic"], false⟩
  | _ => some ⟨200, "OK", [], ["pic", "ture"], true⟩

theorem tried_halves {url : String} (hurl : (Http.Request.ofText .get url).isOk = true)
    {os : List (Except Http.Fault String)} {b : ℕ}
    (h : (Outside.scripted halves).Tried p url 0 os 0 b) (hos : os ≠ []) :
    ∃ rest, os = .error .unreadableBody :: rest ∧
      (rest = [] ∨ ∃ later, rest = .ok "picture" :: later) := by
  have hwaited : ∀ {ms a b : ℕ}, (Outside.scripted halves).Waits ms a b → b = a := fun {ms a b} h =>
    by by_cases hms : ms = 0 <;> simpa [Outside.Waits, hms, Outside.scripted] using h
  cases h with
  | none => exact absurd rfl hos
  | attempt hwait hget ho hrest =>
      obtain rfl := hwaited hwait
      obtain ⟨rfl, address, rfl⟩ := gets_scripted hurl rfl rfl hget
      refine ⟨_, congrArg (· :: _) ho.symm, ?_⟩
      cases hrest with
      | none => exact .inl rfl
      | attempt hwait hget ho =>
          obtain rfl := hwaited hwait
          obtain ⟨rfl, address', rfl⟩ := gets_scripted hurl rfl rfl hget
          exact .inr ⟨_, congrArg (· :: _) ho.symm⟩

/-- Names of one letter, as many times as needed. -/
def dashes : Names "slides" where
  name i := String.ofList (List.replicate i '-' ++ ['x'])
  separate := by
    intro i j e e' h
    have hlist := congrArg String.toList h
    simp only [String.toList_append, String.toList_ofList, List.append_assoc] at hlist
    have hnames := List.append_cancel_left (List.append_cancel_left hlist)
    have hlength := congrArg (fun cs => (cs.takeWhile (· = '-')).length) hnames
    simpa using hlength

/-- Of two attempts the second gets the picture, and nothing is left of the first. -/
theorem picture_after_half : ∃ i y,
    (fetch ⟨3, 1000, 60000⟩ "http://host/a.jpg" "slides").Yields
      (answers (Outside.scripted halves) dashes) ⟨0, fun _ => none, ∅⟩
      (.ok (dashes.pathFor "http://host/a.jpg" i)) y ∧
    y.files = Function.update (fun _ => none) (dashes.pathFor "http://host/a.jpg" i)
      (some "picture") := by
  have hurl : (Http.Request.ofText .get "http://host/a.jpg").isOk = true := by decide +kernel
  have hfetch : (fetch ⟨3, 1000, 60000⟩ "http://host/a.jpg" "slides").Alone
      (answers (Outside.scripted halves) dashes) _ ⟨0, fun _ => none, ∅⟩ :=
    (retries_as_promised (total_scripted halves) (fun _ _ => rfl) AudioCatalog.decoder).1 _
  obtain ⟨r, y, hyields, hfetched⟩ := hfetch.exists_yields
  cases hfetched with
  | @got faults text b i given course =>
      obtain ⟨rest, hos, hrest⟩ := tried_halves hurl course.tried (by simp)
      cases faults with
      | nil => cases hos
      | cons fault faults =>
          obtain ⟨-, rfl⟩ := List.cons.inj hos
          rcases hrest with hnil | ⟨later, hlater⟩
          · simp at hnil
          · cases faults with
            | nil =>
                obtain rfl : text = "picture" := by simpa using (List.cons.inj hlater).1
                exact ⟨i, _, hyields, rfl⟩
            | cons fault' faults => cases hlater
  | @failed faults fault b given course =>
      obtain ⟨rest, hos, hrest⟩ := tried_halves hurl course.tried (by simp)
      have hthree := course.exhausted rfl
      rw [Option.toList_none, List.map_nil, List.append_nil] at hos
      rcases hrest with rfl | ⟨later, rfl⟩
      · have hone := congrArg List.length hos
        rw [List.length_map, hthree] at hone
        cases hone
      · have hpicture : (.ok "picture" : Except Http.Fault String) ∈
            (faults ++ [fault]).map Except.error := by simp [hos]
        simp at hpicture

end Fetch

end Slideshow
