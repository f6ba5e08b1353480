import Slideshow.Fetch.Basic
import Slideshow.Proofs.Program.Assurance
import Mathlib.Data.Finset.Insert
import Mathlib.Data.Fintype.EquivFin

/-! # Attempts to fetch

What is outside answers requests as it likes and changes as it likes while one waits. A fetch makes
one attempt after another, each after its wait, until one of them gets the whole body. If none does,
all files are as they were before; otherwise there is one file more, with that body. -/

namespace Slideshow

/-! ## Running against what may answer anything -/

namespace Program

variable {Call σ β : Type} {Answer : Call → Type}

theorem alone_of_total {answers : (request : Call) → σ → Answer request → σ → Prop}
    (htotal : ∀ request x, ∃ a y, answers request x a y) (p : Program Answer β) (x : σ) :
    p.Alone answers (fun _ _ => True) x := by
  induction p generalizing x with
  | done b => trivial
  | call request next ih =>
      rintro _ rfl
      exact ⟨htotal request x, fun a y _ => ⟨trivial, ih a y⟩⟩

/-- Where there always is an answer, a program ends as its runs tell. -/
theorem Assures.yields {answers : (request : Call) → σ → Answer request → σ → Prop}
    {ends : β → σ → Prop} {p : Program Answer β} {x : σ} (h : p.Alone answers ends x) :
    p.Alone answers (fun b y => p.Yields answers x b y) x := by
  induction p generalizing x with
  | done b => exact ⟨[], .nil x, .start _⟩
  | call request next ih =>
      rintro _ rfl
      obtain ⟨hanswer, hnext⟩ := h x rfl
      refine ⟨hanswer, fun a y ha => ⟨trivial, (ih a (hnext a y ha).2).weaken ?_⟩⟩
      rintro b z ⟨t, ht, hleads⟩
      exact ⟨_, .cons ha ht, .answered hleads⟩

theorem embed_bind {γ Large : Type} {LargeAnswer : Large → Type} {into : Call → Large}
    {back : (request : Call) → LargeAnswer (into request) → Answer request}
    (p : Program Answer β) (f : β → Program Answer γ) :
    (p >>= f).embed into back = p.embed into back >>= fun b => (f b).embed into back := by
  induction p with
  | done b => rfl
  | call request next ih => exact congrArg (call (into request)) (funext fun a => ih _)

end Program

namespace Fetch

variable {τ β : Type}

/-- A program that does nothing but send requests. -/
abbrev Requesting (β : Type) : Type := Program (fun _ : Http.Request => Option Http.Response) β

namespace Requesting

def send (r : Http.Request) : Requesting (Option Http.Response) := Program.ask r

/-- The same program where requests are calls of a fetch. -/
def calls (q : Requesting β) : Fetching β :=
  Program.embed FetchCall.send (fun _ answer => answer) q

theorem calls_bind {γ : Type} (q : Requesting γ) (f : γ → Requesting β) :
    calls (q >>= f) = calls q >>= fun c => calls (f c) := Program.embed_bind q f

end Requesting

/-! ## Outside -/

/-- What is outside: how it may answer a request, and what may become of it in some time. -/
structure Outside (τ : Type) where
  send : Http.Request → τ → Option Http.Response → τ → Prop
  wait : ℕ → τ → τ → Prop

namespace Outside

/-- Every request is answered or fails, and time passes. -/
structure Total (out : Outside τ) : Prop where
  send : ∀ r a, ∃ answer b, out.send r a answer b
  wait : ∀ ms a, ∃ b, out.wait ms a b

variable (out : Outside τ)

/-- Some time passes. -/
def Waits (ms : ℕ) (a b : τ) : Prop := if ms = 0 then b = a else out.wait ms a b

/-- An address is asked for, and all redirects are followed. -/
def Gets (url : String) (a : τ) (result : Except Http.Fault (Http.Response × Url)) (b : τ) : Prop :=
  (Http.exchange Requesting.send .get url).Yields out.send a result b

end Outside

/-- What an attempt comes to: the whole body, or why there is none. -/
def received (result : Except Http.Fault (Http.Response × Url)) : Except Http.Fault String := do
  let (answer, address) ← result
  (← answer.successOrFault address).text?

/-- What one attempt after another comes to, from the `k`-th on. Each begins after its wait. -/
inductive Outside.Tried (out : Outside τ) (p : FetchPolicy) (url : String) :
    ℕ → List (Except Http.Fault String) → τ → τ → Prop where
  | none (k : ℕ) (a : τ) : Tried out p url k [] a a
  | attempt {k a b c d result o os} (hwait : out.Waits (p.retryUnitMs * k) a b)
      (hget : out.Gets url b result c) (ho : received result = o)
      (hrest : Tried out p url (k + 1) os c d) : Tried out p url k (o :: os) a d

/-- From attempt `k` on, at most `n` attempts are made. They fail until one gets the body, or until
all have failed. -/
structure Outside.Course (out : Outside τ) (p : FetchPolicy) (url : String) (k n : ℕ)
    (faults : List Http.Fault) (body : Option String) (a b : τ) : Prop where
  tried : out.Tried p url k (faults.map .error ++ body.toList.map .ok) a b
  early : ∀ text ∈ body, faults.length < n
  exhausted : body = none → faults.length = n

namespace Outside.Course

variable {out : Outside τ} {p : FetchPolicy} {url : String} {k n : ℕ} {a b c d : τ}
  {result : Except Http.Fault (Http.Response × Url)} {fault : Http.Fault} {text : String}

theorem success (hwait : out.Waits (p.retryUnitMs * k) a b) (hget : out.Gets url b result c)
    (h : received result = .ok text) : out.Course p url k (n + 1) [] (some text) a c where
  tried := .attempt hwait hget h (.none _ _)
  early _ _ := Nat.succ_pos n
  exhausted := nofun

theorem failure (hwait : out.Waits (p.retryUnitMs * k) a b) (hget : out.Gets url b result c)
    (h : received result = .error fault) : out.Course p url k 1 [fault] none a c where
  tried := .attempt hwait hget h (.none _ _)
  early := nofun
  exhausted _ := rfl

theorem again {faults : List Http.Fault} {body : Option String}
    (hwait : out.Waits (p.retryUnitMs * k) a b) (hget : out.Gets url b result c)
    (h : received result = .error fault) (hrest : out.Course p url (k + 1) n faults body c d) :
    out.Course p url k (n + 1) (fault :: faults) body a d where
  tried := .attempt hwait hget h hrest.tried
  early text htext := Nat.succ_lt_succ (hrest.early text htext)
  exhausted hbody := congrArg (· + 1) (hrest.exhausted hbody)

end Outside.Course

/-! ## Files -/

/-- Names for the files of a directory. No path goes with two of them, whatever the extensions. -/
structure Names (directory : String) where
  name : ℕ → String
  separate : ∀ {i j : ℕ} {e e' : String},
    directory ++ "/" ++ name i ++ e = directory ++ "/" ++ name j ++ e' → i = j

/-- The path of a file with some name and extension. -/
def Names.path {directory : String} (names : Names directory) (i : ℕ) (extension : String) :
    String :=
  directory ++ "/" ++ names.name i ++ extension

/-- What is outside, the files with their contents, and which names were given so far. -/
structure Site (τ : Type) where
  outside : τ
  files : String → Option String
  given : Finset ℕ

namespace Site

/-- The same with other contents at a path. -/
def write (x : Site τ) (path : String) (content : Option String) : Site τ :=
  { x with files := Function.update x.files path content }

/-- No file has a name that was not given yet. -/
def Clear (x : Site τ) {directory : String} (names : Names directory) : Prop :=
  ∀ i ∉ x.given, ∀ extension, x.files (names.path i extension) = none

/-- The path is that of a file whose name was given. -/
def Owns (x : Site τ) {directory : String} (names : Names directory) (path : String) : Prop :=
  ∃ i ∈ x.given, ∃ extension, path = names.path i extension

@[simp] theorem write_files (x : Site τ) (path : String) (content : Option String) :
    (x.write path content).files = Function.update x.files path content := rfl

@[simp] theorem write_write (x : Site τ) (path : String) (content content' : Option String) :
    (x.write path content).write path content' = x.write path content' := by
  simp [write]

theorem write_self (x : Site τ) (path : String) : x.write path (x.files path) = x := by
  simp [write]

end Site

/-- How calls are answered: outside as it likes, by new names, and by files that can be written
where their names were given. -/
def answers (out : Outside τ) {directory : String} (names : Names directory) :
    (c : FetchCall) → Site τ → c.Answer → Site τ → Prop
  | .send r, x, answer, y => ∃ b, out.send r x.outside answer b ∧ y = { x with outside := b }
  | .wait ms, x, _, y => ∃ b, out.wait ms x.outside b ∧ y = { x with outside := b }
  | .freshName, x, name, y =>
    ∃ i ∉ x.given, name = names.name i ∧ y = { x with given := insert i x.given }
  | .createFile path, x, a, y => x.Owns names path ∧ a = .ok () ∧ y = x.write path (some "")
  | .appendFile path chunk, x, a, y =>
    x.Owns names path ∧ a = .ok () ∧ y = x.write path ((x.files path).map (· ++ chunk))
  | .removeFile path, x, _, y => x.Owns names path ∧ y = x.write path none
  | .count _, x, _, y => y = x

variable {out : Outside τ} {directory url : String} {names : Names directory} {p : FetchPolicy}
  {x y : Site τ} {k : ℕ}

/-! ## The parts of an attempt -/

theorem alone_wait (hout : out.Total) {ms : ℕ} {ends : Unit → Site τ → Prop}
    (hends : ∀ b, out.Waits ms x.outside b → ends () { x with outside := b }) :
    (Fetching.wait ms).Alone (answers out names) ends x := by
  by_cases hms : ms = 0
  · subst hms
    exact hends x.outside rfl
  · rw [show Fetching.wait ms = FetchCall.ask (.wait ms) from if_neg hms]
    rintro _ rfl
    obtain ⟨b, hb⟩ := hout.wait ms x.outside
    refine ⟨⟨(), _, b, hb, rfl⟩, ?_⟩
    rintro _ _ ⟨c, hc, rfl⟩
    exact ⟨trivial, hends c (by rwa [Outside.Waits, if_neg hms])⟩

theorem alone_freshName {ends : String → Site τ → Prop}
    (hends : ∀ i ∉ x.given, ends (names.name i) { x with given := insert i x.given }) :
    Fetching.freshName.Alone (answers out names) ends x := by
  rintro _ rfl
  obtain ⟨i, hi⟩ := Infinite.exists_notMem_finset x.given
  refine ⟨⟨_, _, i, hi, rfl, rfl⟩, ?_⟩
  rintro _ _ ⟨j, hj, rfl, rfl⟩
  exact ⟨trivial, hends j hj⟩

theorem alone_count {name : String} {ends : Unit → Site τ → Prop} (hends : ends () x) :
    (Fetching.count name).Alone (answers out names) ends x := by
  rintro _ rfl
  refine ⟨⟨(), x, rfl⟩, ?_⟩
  rintro _ _ rfl
  exact ⟨trivial, hends⟩

theorem alone_createFile {path : String} {ends : Except FileFault Unit → Site τ → Prop}
    (howns : x.Owns names path) (hends : ends (.ok ()) (x.write path (some ""))) :
    (Fetching.createFile path).Alone (answers out names) ends x := by
  rintro _ rfl
  refine ⟨⟨_, _, howns, rfl, rfl⟩, ?_⟩
  rintro _ _ ⟨-, rfl, rfl⟩
  exact ⟨trivial, hends⟩

theorem alone_appendFile {path chunk : String} {ends : Except FileFault Unit → Site τ → Prop}
    (howns : x.Owns names path)
    (hends : ends (.ok ()) (x.write path ((x.files path).map (· ++ chunk)))) :
    (Fetching.appendFile path chunk).Alone (answers out names) ends x := by
  rintro _ rfl
  refine ⟨⟨_, _, howns, rfl, rfl⟩, ?_⟩
  rintro _ _ ⟨-, rfl, rfl⟩
  exact ⟨trivial, hends⟩

theorem alone_removeFile {path : String} {ends : Unit → Site τ → Prop}
    (howns : x.Owns names path) (hends : ends () (x.write path none)) :
    (Fetching.removeFile path).Alone (answers out names) ends x := by
  rintro _ rfl
  refine ⟨⟨(), _, howns, rfl⟩, ?_⟩
  rintro _ _ ⟨-, rfl⟩
  exact ⟨trivial, hends⟩

theorem follow_send (hops : ℕ) (r : Http.Request) :
    Http.follow Fetching.send hops r = Requesting.calls (Http.follow Requesting.send hops r) := by
  induction hops generalizing r with
  | zero =>
      rw [Http.follow, Http.follow, Requesting.calls_bind]
      refine congrArg (Fetching.send r >>= ·) (funext fun answer => ?_)
      cases answer with
      | none => rfl
      | some answer =>
          dsimp only
          cases r.redirected? answer <;> rfl
  | succ hops ih =>
      rw [Http.follow, Http.follow, Requesting.calls_bind]
      refine congrArg (Fetching.send r >>= ·) (funext fun answer => ?_)
      cases answer with
      | none => rfl
      | some answer =>
          dsimp only
          cases r.redirected? answer with
          | none => rfl
          | some next => exact ih next

theorem exchange_send : Http.exchange Fetching.send .get url =
    Requesting.calls (Http.exchange Requesting.send .get url) := by
  unfold Http.exchange
  cases Http.Request.ofText .get url with
  | error fault => rfl
  | ok r => exact follow_send Http.maxRedirects r

theorem alone_exchange (hout : out.Total)
    {ends : Except Http.Fault (Http.Response × Url) → Site τ → Prop}
    (hends : ∀ result b, out.Gets url x.outside result b → ends result { x with outside := b }) :
    (Http.exchange Fetching.send .get url).Alone (answers out names) ends x := by
  rw [exchange_send]
  refine Program.Assures.embed (g := fun b => { x with outside := b }) ?_ ?_
    (Program.alone_of_total hout.send _ x.outside).yields hends
  · exact fun ha => ⟨_, rfl, _, ha, rfl⟩
  · rintro _ _ _ _ ⟨b, hb, rfl⟩
    exact ⟨b, rfl, hb⟩

theorem alone_writeChunks {path text : String} {chunks : List String}
    {ends : Except MediaError Unit → Site τ → Prop} (howns : x.Owns names path)
    (hfile : x.files path = some text)
    (hends : ends (.ok ()) (x.write path (some (text ++ String.join chunks)))) :
    (writeChunks path chunks).Alone (answers out names) ends x := by
  induction chunks generalizing x text with
  | nil =>
      rw [String.join_nil, String.append_empty, ← hfile, Site.write_self] at hends
      exact hends
  | cons chunk rest ih =>
      rw [writeChunks, Program.Alone, Program.assures_bind]
      have hlonger : (x.write path (some (text ++ chunk))).files path = some (text ++ chunk) := by
        simp
      refine alone_appendFile howns ?_
      rw [hfile]
      refine ih howns hlonger ?_
      rwa [Site.write_write, String.append_assoc, ← String.join_cons]

/-- An attempt leaves the whole body at the path, or it fails and leaves anything there. -/
theorem alone_attempt (hout : out.Total) {path : String}
    {ends : Except MediaError Unit → Site τ → Prop} (howns : x.Owns names path)
    (hends : ∀ result b, out.Gets url x.outside result b → match received result with
      | .ok text => ends (.ok ()) ({ x with outside := b }.write path (some text))
      | .error fault => ∀ content, ends (.error (.http fault.message))
          ({ x with outside := b }.write path content)) :
    (attempt url path).Alone (answers out names) ends x := by
  rw [attempt, Program.Alone, Program.assures_bind]
  refine alone_exchange hout fun result b hget => ?_
  have hends := hends result b hget
  -- a failure before the file was made
  have hnone : ∀ fault, received result = .error fault →
      ends (.error (.http fault.message)) { x with outside := b } := fun fault hfault => by
    rw [hfault] at hends
    simpa [Site.write_self] using hends (x.files path)
  cases result with
  | error fault => exact hnone fault rfl
  | ok got =>
      obtain ⟨answer, address⟩ := got
      have hreceived : received (.ok (answer, address)) =
          answer.successOrFault address >>= Http.Response.text? := rfl
      dsimp only
      cases hanswer : answer.successOrFault address with
      | error fault => exact hnone fault (by rw [hreceived, hanswer]; rfl)
      | ok answer' =>
          rw [hanswer] at hreceived
          dsimp only
          refine (Program.assures_bind _ _).mpr (alone_createFile howns ?_)
          dsimp only
          have hempty : ({ x with outside := b }.write path (some "")).files path = some "" := by
            simp
          refine (Program.assures_bind _ _).mpr (alone_writeChunks howns hempty ?_)
          rw [Site.write_write, String.empty_append]
          change received (.ok (answer, address)) = answer'.text? at hreceived
          rw [hreceived, Http.Response.text?] at hends
          cases hcomplete : answer'.complete with
          | true => simpa [hcomplete] using hends
          | false =>
              simp only [hcomplete] at hends
              exact hends _

/-! ## Fetching a file -/

/-- The path of the file that an attempt makes. -/
def Names.pathFor (names : Names directory) (url : String) (i : ℕ) : String :=
  names.path i (extensionOf url)

theorem alone_attemptAfterWait (hout : out.Total) (hclear : x.Clear names)
    {ends : Except MediaError String → Site τ → Prop}
    (hends : ∀ b c result, out.Waits (p.retryUnitMs * k) x.outside b → out.Gets url b result c →
      ∀ i ∉ x.given, match received result with
        | .ok text => ends (.ok (names.pathFor url i))
            ⟨c, Function.update x.files (names.pathFor url i) (some text), insert i x.given⟩
        | .error fault => ends (.error (.http fault.message)) ⟨c, x.files, insert i x.given⟩) :
    (attemptAfterWait p url directory k).Alone (answers out names) ends x := by
  refine (Program.assures_bind _ _).mpr (alone_wait hout fun b hwait => ?_)
  refine (Program.assures_bind _ _).mpr (alone_freshName fun i hi => ?_)
  refine (Program.assures_bind _ _).mpr (alone_count ?_)
  have howns : Site.Owns ⟨b, x.files, insert i x.given⟩ names (names.pathFor url i) :=
    ⟨i, Finset.mem_insert_self i _, _, rfl⟩
  refine (Program.assures_bind _ _).mpr (alone_attempt hout howns fun result c hget => ?_)
  have hends := hends b c result hwait hget i hi
  cases hreceived : received result with
  | ok text =>
      rw [hreceived] at hends
      exact hends
  | error fault =>
      rw [hreceived] at hends
      intro content
      refine (Program.assures_bind _ _).mpr (alone_removeFile howns ?_)
      have hnone : none = x.files (names.pathFor url i) := (hclear i hi _).symm
      rw [Site.write_write, show directory ++ "/" ++ names.name i ++ extensionOf url =
        names.pathFor url i from rfl, hnone]
      simpa [Site.write] using hends

/-- How at most `n` attempts to fetch a file end, from the `k`-th on. There is one file more, with
the whole body; or all is as it was, and the last fault is reported. -/
inductive Fetched (out : Outside τ) (names : Names directory) (p : FetchPolicy) (url : String)
    (k n : ℕ) (report : Http.Fault → MediaError) (x : Site τ) :
    Except MediaError String → Site τ → Prop where
  | got {faults text b i given} (course : out.Course p url k n faults (some text) x.outside b)
      (hnew : i ∉ x.given) (hgiven : insert i x.given ⊆ given) :
      Fetched out names p url k n report x (.ok (names.pathFor url i))
        ⟨b, Function.update x.files (names.pathFor url i) (some text), given⟩
  | failed (faults) {fault b given}
      (course : out.Course p url k n (faults ++ [fault]) none x.outside b)
      (hgiven : x.given ⊆ given) :
      Fetched out names p url k n report x (.error (report fault)) ⟨b, x.files, given⟩

/-- The error of an attempt. -/
def faultError (fault : Http.Fault) : MediaError := .http fault.message

/-- The error after all attempts. -/
def exhaustedError (p : FetchPolicy) (url : String) (fault : Http.Fault) : MediaError :=
  .fetchFailed url (max p.attempts 1) (faultError fault).message

theorem alone_attempts (hout : out.Total) (hclear : x.Clear names) (left : ℕ) :
    (attempts p url directory k left).Alone (answers out names)
      (Fetched out names p url k (left + 1) faultError x) x := by
  induction left generalizing k x with
  | zero =>
      refine alone_attemptAfterWait hout hclear fun b c result hwait hget i hi => ?_
      cases hreceived : received result with
      | ok text => exact .got (.success hwait hget hreceived) hi (Finset.Subset.refl _)
      | error fault =>
          exact .failed [] (.failure hwait hget hreceived) (Finset.subset_insert i _)
  | succ left ih =>
      refine (Program.assures_bind _ _).mpr
        (alone_attemptAfterWait hout hclear fun b c result hwait hget i hi => ?_)
      cases hreceived : received result with
      | ok text => exact .got (.success hwait hget hreceived) hi (Finset.Subset.refl _)
      | error fault =>
          have hstill : Site.Clear ⟨c, x.files, insert i x.given⟩ names := fun j hj =>
            hclear j fun hmem => hj (Finset.mem_insert_of_mem hmem)
          refine (ih hstill).weaken ?_
          rintro _ _ (⟨course, hnew, hgiven⟩ | ⟨faults, course, hgiven⟩)
          · exact .got (.again hwait hget hreceived course)
              (fun hmem => hnew (Finset.mem_insert_of_mem hmem))
              ((Finset.insert_subset_insert _ (Finset.subset_insert i _)).trans hgiven)
          · exact .failed (fault :: faults) (.again hwait hget hreceived course)
              ((Finset.subset_insert i _).trans hgiven)

/-- A fetch makes its attempts until one gets the whole body. -/
theorem alone_fetch (hout : out.Total) (hclear : x.Clear names) :
    (fetch p url directory).Alone (answers out names)
      (Fetched out names p url 0 (max p.attempts 1) (exhaustedError p url) x) x := by
  have htries : max p.attempts 1 - 1 + 1 = max p.attempts 1 := by omega
  refine (Program.assures_bind _ _).mpr ((alone_attempts hout hclear _).weaken ?_)
  rw [htries]
  rintro _ _ (⟨course, hnew, hgiven⟩ | ⟨faults, course, hgiven⟩)
  · exact .got course hnew hgiven
  · exact (Program.assures_bind _ _).mpr (alone_count (.failed faults course hgiven))

/-! ## Fetching a document -/

/-- How at most `n` attempts to get a document end, from the `k`-th on. The first whole body is
decoded, and what comes of that is final. -/
inductive Read (out : Outside τ) (p : FetchPolicy) (decoder : Json.Decoder β) (url : String)
    (k n : ℕ) (report : Http.Fault → MediaError) (x : Site τ) :
    Except MediaError β → Site τ → Prop where
  | got {faults text b} (course : out.Course p url k n faults (some text) x.outside b) :
      Read out p decoder url k n report x ((decoder.ofText text).mapError .unreadableJson)
        { x with outside := b }
  | failed (faults) {fault b}
      (course : out.Course p url k n (faults ++ [fault]) none x.outside b) :
      Read out p decoder url k n report x (.error (report fault)) { x with outside := b }

theorem alone_readOnce (hout : out.Total) {decoder : Json.Decoder β}
    {ends : Except MediaError β → Site τ → Prop}
    (hends : ∀ result b, out.Gets url x.outside result b → match received result with
      | .ok text => ends ((decoder.ofText text).mapError .unreadableJson) { x with outside := b }
      | .error fault => ends (.error (faultError fault)) { x with outside := b }) :
    (readOnce decoder url).Alone (answers out names) ends x := by
  refine (Program.assures_bind _ _).mpr (alone_exchange hout fun result b hget => ?_)
  have hends := hends result b hget
  cases result with
  | error fault => exact hends
  | ok got =>
      obtain ⟨answer, address⟩ := got
      have hreceived : received (.ok (answer, address)) =
          answer.successOrFault address >>= Http.Response.text? := rfl
      rw [hreceived] at hends
      dsimp only
      cases hbody : answer.successOrFault address >>= Http.Response.text? with
      | error fault =>
          rw [hbody] at hends
          exact hends
      | ok text =>
          rw [hbody] at hends
          exact hends

theorem alone_documentAttempts (hout : out.Total) (decoder : Json.Decoder β) (left : ℕ) :
    (documentAttempts p decoder url k left).Alone (answers out names)
      (Read out p decoder url k (left + 1) faultError x) x := by
  induction left generalizing k x with
  | zero =>
      refine (Program.assures_bind _ _).mpr (alone_wait hout fun b hwait => ?_)
      refine alone_readOnce hout fun result c hget => ?_
      cases hreceived : received result with
      | ok text => exact .got (.success hwait hget hreceived)
      | error fault => exact .failed [] (.failure hwait hget hreceived)
  | succ left ih =>
      refine (Program.assures_bind _ _).mpr (alone_wait hout fun b hwait => ?_)
      refine (Program.assures_bind _ _).mpr (alone_readOnce hout fun result c hget => ?_)
      cases hreceived : received result with
      | ok text =>
          have hgot : Read out p decoder url k (left + 2) faultError x
              ((decoder.ofText text).mapError .unreadableJson) { x with outside := c } :=
            .got (.success hwait hget hreceived)
          dsimp only
          cases hdecoded : decoder.ofText text with
          | ok document =>
              rw [hdecoded] at hgot
              exact hgot
          | error e =>
              rw [hdecoded] at hgot
              exact hgot
      | error fault =>
          refine (ih (x := { x with outside := c })).weaken ?_
          rintro _ _ (⟨course⟩ | ⟨faults, course⟩)
          · exact .got (.again hwait hget hreceived course)
          · exact .failed (fault :: faults) (.again hwait hget hreceived course)

/-- A document is asked for on the same schedule. -/
theorem alone_document (hout : out.Total) (decoder : Json.Decoder β) :
    (document p decoder url).Alone (answers out names)
      (Read out p decoder url 0 (max p.attempts 1) (exhaustedError p url) x) x := by
  have htries : max p.attempts 1 - 1 + 1 = max p.attempts 1 := by omega
  refine (Program.assures_bind _ _).mpr ((alone_documentAttempts hout decoder _).weaken ?_)
  rw [htries]
  rintro _ _ (@⟨faults, text, b, course⟩ | ⟨faults, course⟩)
  · have hgot : Read out p decoder url 0 (max p.attempts 1) (exhaustedError p url) x
        ((decoder.ofText text).mapError .unreadableJson) { x with outside := b } := .got course
    cases hdecoded : decoder.ofText text with
    | ok document =>
        rw [hdecoded] at hgot
        exact hgot
    | error e =>
        rw [hdecoded] at hgot
        exact hgot
  · exact .failed faults course

end Fetch

end Slideshow
