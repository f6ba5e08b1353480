import Slideshow.Filter.Compile
import Slideshow.Proofs.Decimal.Printed

/-! # Reading filters

A chain of filters is read as the renderer reads it: filters are parted by commas, the options of a
filter by colons, and an option is assigned after an equals sign. What stands in quotes is not
parted. `Sound` says of a filter that the times in it can be used: nothing is cut to no length, no
stretch ends before it starts, nothing fades for no time, and nothing is divided by zero. -/

namespace Slideshow

namespace Reading

open Decimal

/-! ## Parts -/

/-- Whether text is quoted after a character; `none` where the text is parted. -/
def step (separator : Char) (quoted : Bool) (c : Char) : Option Bool :=
  if c = separator && !quoted then none else some (if c = '\'' then !quoted else quoted)

/-- The parts of a text between separators outside quotes. -/
def partsFrom (separator : Char) (quoted : Bool) : List Char → List (List Char)
  | [] => [[]]
  | c :: cs =>
    match step separator quoted c with
    | none => [] :: partsFrom separator quoted cs
    | some quoted => (partsFrom separator quoted cs).modifyHead (c :: ·)

/-- The parts of a text that begins outside quotes. -/
def parts (separator : Char) (cs : List Char) : List (List Char) := partsFrom separator false cs

/-- Whether text is quoted after a text that is not parted. -/
def scan (separator : Char) (quoted : Bool) (cs : List Char) : Option Bool :=
  cs.foldlM (step separator) quoted

/-- The text has no separator outside quotes, and ends outside quotes. -/
def Whole (separator : Char) (cs : List Char) : Prop := scan separator false cs = some false

instance (separator : Char) (cs : List Char) : Decidable (Whole separator cs) :=
  inferInstanceAs (Decidable (_ = _))

variable {separator : Char} {quoted quoted' : Bool} {cs cs' : List Char} {c : Char}

theorem scan_append : scan separator quoted (cs ++ cs') =
    (scan separator quoted cs).bind fun quoted' => scan separator quoted' cs' :=
  List.foldlM_append

theorem partsFrom_append (h : scan separator quoted cs = some quoted') :
    partsFrom separator quoted (cs ++ cs') =
      (partsFrom separator quoted' cs').modifyHead (cs ++ ·) := by
  induction cs generalizing quoted with
  | nil =>
      cases h
      rw [List.nil_append]
      cases partsFrom separator quoted' cs' <;> rfl
  | cons c cs ih =>
      rw [scan, List.foldlM_cons] at h
      rw [List.cons_append, partsFrom]
      cases hstep : step separator quoted c with
      | none =>
          rw [hstep] at h
          cases h
      | some quoted'' =>
          rw [hstep] at h
          dsimp only
          rw [ih h]
          cases partsFrom separator quoted' cs' <;> rfl

/-- A text without separators is one part. -/
theorem parts_of_whole (h : Whole separator cs) : parts separator cs = [cs] := by
  have hparts := @partsFrom_append separator false false cs [] h
  rw [List.append_nil] at hparts
  rw [parts, hparts]
  simp [partsFrom]

/-- A text is parted at a separator outside quotes. -/
theorem parts_append (h : Whole separator cs) :
    parts separator (cs ++ separator :: cs') = cs :: parts separator cs' := by
  have hparts := @partsFrom_append separator false false cs (separator :: cs') h
  rw [parts, hparts, partsFrom]
  simp [step, parts]

/-- What is joined by separators is parted again. -/
theorem parts_intercalate {ts : List (List Char)} (hne : ts ≠ [])
    (h : ∀ t ∈ ts, Whole separator t) : parts separator ([separator].intercalate ts) = ts := by
  induction ts with
  | nil => exact (hne rfl).elim
  | cons t ts ih =>
      rw [List.forall_mem_cons] at h
      cases ts with
      | nil =>
          rw [List.intercalate_singleton]
          exact parts_of_whole h.1
      | cons t' ts =>
          rw [List.intercalate_cons_cons, List.append_assoc, List.singleton_append,
            parts_append h.1, ih (List.cons_ne_nil _ _) h.2]

/-- A text in which nothing is parted or quoted, such as a number. -/
def Plain (cs : List Char) : Prop := ∀ c ∈ cs, c ≠ ',' ∧ c ≠ ':' ∧ c ≠ '\''

instance (cs : List Char) : Decidable (Plain cs) := List.decidableBAll _ _

theorem scan_plain (h : Plain cs) (hseparator : separator = ',' ∨ separator = ':') :
    scan separator quoted cs = some quoted := by
  induction cs with
  | nil => rfl
  | cons c cs ih =>
      obtain ⟨hcomma, hcolon, hquote⟩ := h c List.mem_cons_self
      have hne : c ≠ separator := by
        rcases hseparator with rfl | rfl
        · exact hcomma
        · exact hcolon
      have hstep : step separator quoted c = some quoted := by simp [step, hne, hquote]
      rw [scan, List.foldlM_cons, hstep]
      exact ih fun c hc => h c (List.mem_cons_of_mem _ hc)

/-! ## Options -/

/-- The text before the first equals sign: the name of a filter, or the key of an option. -/
def name (cs : List Char) : List Char := cs.takeWhile (· ≠ '=')

/-- The text after the first equals sign: what a filter is given, or the value of an option. -/
def assigned (cs : List Char) : List Char := (cs.dropWhile (· ≠ '=')).drop 1

/-- The options of a filter, keys with values. -/
def options (f : List Char) : List (List Char × List Char) :=
  (parts ':' (assigned f)).map fun option => (name option, assigned option)

/-- What an expression divides by first. -/
def divisor? (cs : List Char) : Option (List Char) :=
  match cs.dropWhile (· ≠ '/') with
  | [] => none
  | _ :: rest => some (rest.takeWhile (· ≠ ','))

/-- The times of a filter can be used. -/
structure Sound (f : List Char) : Prop where
  trim : ∀ d, name f = "trim".toList → (options f).lookup "duration".toList = some d → Positive d
  window : ∀ start stop, name f = "trim".toList → (options f).lookup "start".toList = some start →
    (options f).lookup "end".toList = some stop → Before start stop
  fade : ∀ d, name f = "fade".toList → (options f).lookup "d".toList = some d → Positive d
  /-- What moves over a picture gets there in the time that its position is divided by. -/
  wipe : ∀ option ∈ options f, name f = "overlay".toList →
    ∀ d ∈ divisor? option.2, Positive d

/-- Neither a letter nor a digit nor a point; or the x between the sides of a size. -/
def isBreak (c : Char) : Bool := !(c.isAlphanum || c == '.') || c == 'x'

/-- A word that begins with a digit is a decimal, and none is the name of a number that is not
finite. -/
def Fine (w : List Char) : Prop :=
  w ≠ "inf".toList ∧ w ≠ "NaN".toList ∧
    (w.head?.any Char.isDigit = true → (rational? w).isSome = true)

instance (w : List Char) : Decidable (Fine w) := inferInstanceAs (Decidable (_ ∧ _ ∧ _))

/-- All numbers of a text are finite decimals. -/
def Clean (cs : List Char) : Prop := ∀ w ∈ cs.splitOnP isBreak, Fine w

instance (cs : List Char) : Decidable (Clean cs) := List.decidableBAll _ _

/-- The numbers of a chain of filters are finite decimals, and the times in it can be used. -/
structure Survives (expression : String) : Prop where
  clean : Clean expression.toList
  sound : ∀ f ∈ parts ',' expression.toList, Sound f

/-! ## Numbers in texts -/

theorem clean_nil : Clean [] := by decide

theorem clean_append_cons (cs cs' : List Char) (hc : isBreak c = true) :
    Clean (cs ++ c :: cs') ↔ Clean cs ∧ Clean cs' := by
  rw [Clean, List.splitOnP_append_cons cs cs' hc, List.forall_mem_append]
  rfl

/-- A text that ends with a break. -/
theorem clean_append_left (hlast : cs.getLast?.any isBreak = true) (h : Clean cs) :
    Clean (cs ++ cs') ↔ Clean cs' := by
  obtain ⟨before, c, rfl⟩ : ∃ before c, cs = before ++ [c] := by
    rcases List.eq_nil_or_concat cs with rfl | ⟨before, c, rfl⟩
    · cases hlast
    · exact ⟨before, c, by simp⟩
  have hc : isBreak c = true := by simpa using hlast
  rw [clean_append_cons _ _ hc] at h
  rw [List.append_assoc, List.singleton_append, clean_append_cons _ _ hc]
  exact and_iff_right h.1

/-- A text that begins with a break. -/
theorem clean_append_right (hhead : cs'.head?.any isBreak = true) :
    Clean (cs ++ cs') ↔ Clean cs ∧ Clean cs' := by
  obtain ⟨c, after, rfl⟩ : ∃ c after, cs' = c :: after := by
    cases cs' with
    | nil => cases hhead
    | cons c after => exact ⟨c, after, rfl⟩
  have hc : isBreak c = true := by simpa using hhead
  have hafter := clean_append_cons [] after hc
  rw [List.nil_append] at hafter
  rw [clean_append_cons _ _ hc, hafter, and_iff_right clean_nil]

variable {d start stop : List Char}

/-- Only digits and points are read as a number. -/
theorem clean_of_rational? {v : ℚ} (h : rational? d = some v) : Clean d := by
  have hchars : ∀ c ∈ d, c.isDigit = true ∨ c = '.' := by
    rw [rational?] at h
    split at h
    · next hall => exact fun c hc => by simpa using List.all_eq_true.mp hall c hc
    · cases h
  have hbreak : ∀ c ∈ d, isBreak c = false := by
    intro c hc
    rcases hchars c hc with hdigit | rfl
    · have hx : c ≠ 'x' := by
        rintro rfl
        cases hdigit
      simp [isBreak, Char.isAlphanum, hdigit, hx]
    · rfl
  have hfirst : ∀ c cs, d = c :: cs → c.isDigit = true ∨ c = '.' := fun c cs hd =>
    hchars c (hd ▸ List.mem_cons_self)
  rw [Clean, List.splitOnP_eq_singleton hbreak, List.forall_mem_singleton]
  refine ⟨?_, ?_, fun _ => by rw [h]; rfl⟩
  · intro hd
    exact absurd (hfirst _ _ hd) (by decide)
  · intro hd
    exact absurd (hfirst _ _ hd) (by decide)

theorem clean_of_positive (h : Positive d) : Clean d := by
  obtain ⟨_, hd, -⟩ := h
  exact clean_of_rational? hd

theorem clean_of_before (h : Before start stop) : Clean start ∧ Clean stop := by
  obtain ⟨_, _, hstart, hstop, -⟩ := h
  exact ⟨clean_of_rational? hstart, clean_of_rational? hstop⟩

/-! ## Times in filters -/

theorem name_append (cs : List Char) (h : '=' ∉ cs) : name (cs ++ '=' :: cs') = cs := by
  rw [name, List.takeWhile_append_of_pos, List.takeWhile_cons_of_neg (by decide), List.append_nil]
  intro c hc
  simpa using fun heq : c = '=' => h (heq ▸ hc)

theorem assigned_append (cs : List Char) (h : '=' ∉ cs) : assigned (cs ++ '=' :: cs') = cs' := by
  rw [assigned, List.dropWhile_append_of_pos, List.dropWhile_cons_of_neg (by decide)]
  · rfl
  · intro c hc
    simpa using fun heq : c = '=' => h (heq ▸ hc)

section Sound

variable {f : List Char}

/-- Only filters that cut, fade or move have times in them. -/
theorem sound_of_name (h : name f ∉ ["trim".toList, "fade".toList, "overlay".toList]) :
    Sound f := by
  simp only [List.mem_cons, List.not_mem_nil, or_false, not_or] at h
  exact ⟨fun _ hname => (h.1 hname).elim, fun _ _ hname => (h.1 hname).elim,
    fun _ hname => (h.2.1 hname).elim, fun _ _ hname => (h.2.2 hname).elim⟩

theorem sound_iff_of_trim (hname : name f = "trim".toList) :
    Sound f ↔ (∀ d, (options f).lookup "duration".toList = some d → Positive d) ∧
      ∀ start stop, (options f).lookup "start".toList = some start →
        (options f).lookup "end".toList = some stop → Before start stop :=
  ⟨fun h => ⟨fun d => h.trim d hname, fun start stop => h.window start stop hname⟩,
    fun h => ⟨fun d _ => h.1 d, fun start stop _ => h.2 start stop,
      fun _ hfade => absurd (hname.symm.trans hfade) (by decide),
      fun _ _ hoverlay => absurd (hname.symm.trans hoverlay) (by decide)⟩⟩

theorem sound_iff_of_fade (hname : name f = "fade".toList) :
    Sound f ↔ ∀ d, (options f).lookup "d".toList = some d → Positive d :=
  ⟨fun h d => h.fade d hname,
    fun h => ⟨fun _ htrim => absurd (hname.symm.trans htrim) (by decide),
      fun _ _ htrim => absurd (hname.symm.trans htrim) (by decide), fun d _ => h d,
      fun _ _ hoverlay => absurd (hname.symm.trans hoverlay) (by decide)⟩⟩

theorem sound_iff_of_overlay (hname : name f = "overlay".toList) :
    Sound f ↔ ∀ option ∈ options f, ∀ d ∈ divisor? option.2, Positive d :=
  ⟨fun h option hoption => h.wipe option hoption hname,
    fun h => ⟨fun _ htrim => absurd (hname.symm.trans htrim) (by decide),
      fun _ _ htrim => absurd (hname.symm.trans htrim) (by decide),
      fun _ hfade => absurd (hname.symm.trans hfade) (by decide), fun option hoption _ =>
        h option hoption⟩⟩

end Sound

/-- An option as it is written. -/
def option (key value : List Char) : List Char := key ++ '=' :: value

/-- A filter as it is written. -/
def written (word : List Char) (settings : List (List Char × List Char)) : List Char :=
  word ++ '=' :: [':'].intercalate (settings.map fun setting => option setting.1 setting.2)

/-- A key and a value that are read as they are written. -/
def Settled (setting : List Char × List Char) : Prop :=
  '=' ∉ setting.1 ∧ Whole ':' (option setting.1 setting.2)

instance (setting : List Char × List Char) : Decidable (Settled setting) :=
  inferInstanceAs (Decidable (_ ∧ _))

section Written

variable {word key : List Char} {settings : List (List Char × List Char)}

theorem name_written (hword : '=' ∉ word) : name (written word settings) = word :=
  name_append word hword

/-- The options of a filter are read as they are written. -/
theorem options_written (hword : '=' ∉ word) (hne : settings ≠ [])
    (h : ∀ setting ∈ settings, Settled setting) : options (written word settings) = settings := by
  have hassigned : assigned (written word settings) = _ := assigned_append word hword
  have hwhole : ∀ o ∈ settings.map fun setting => option setting.1 setting.2, Whole ':' o :=
    List.forall_mem_map.mpr fun setting hsetting => (h setting hsetting).2
  rw [options, hassigned, parts_intercalate (by simpa using hne) hwhole, List.map_map]
  refine (List.map_congr_left fun setting hsetting => ?_).trans (List.map_id settings)
  have hkey := (h setting hsetting).1
  exact Prod.ext (name_append setting.1 hkey) (assigned_append setting.1 hkey)

/-- A time is not parted from its key. -/
theorem settled_of_plain (hd : Plain d) (hkey : '=' ∉ key ∧ Whole ':' (key ++ ['='])) :
    Settled (key, d) := by
  have hsplit : option key d = key ++ ['='] ++ d := by simp [option]
  refine ⟨hkey.1, ?_⟩
  rw [Whole, hsplit, scan_append, hkey.2]
  exact scan_plain hd (by decide)

end Written

theorem sound_trim (hd : Plain d) : Sound ("trim=duration=".toList ++ d) ↔ Positive d := by
  have htext : "trim=duration=".toList ++ d = written "trim".toList [("duration".toList, d)] := by
    simp [written, option]
  have hsettled : ∀ setting ∈ [("duration".toList, d)], Settled setting :=
    List.forall_mem_singleton.mpr (settled_of_plain hd (by decide))
  rw [htext, sound_iff_of_trim (name_written (by decide)),
    options_written (by decide) (List.cons_ne_nil _ _) hsettled]
  constructor
  · rintro ⟨h, -⟩
    exact h d rfl
  · refine fun h => ⟨fun _ heq => ?_, fun _ _ heq => ?_⟩ <;> cases heq
    exact h

theorem sound_window (hstart : Plain start) (hstop : Plain stop) :
    Sound ("trim=start=".toList ++ start ++ ":end=".toList ++ stop) ↔ Before start stop := by
  have htext : "trim=start=".toList ++ start ++ ":end=".toList ++ stop =
      written "trim".toList [("start".toList, start), ("end".toList, stop)] := by
    simp [written, option, List.intercalate_cons_cons]
  have hsettled : ∀ setting ∈ [("start".toList, start), ("end".toList, stop)],
      Settled setting := by
    simp only [List.forall_mem_cons]
    exact ⟨settled_of_plain hstart (by decide), settled_of_plain hstop (by decide), nofun⟩
  rw [htext, sound_iff_of_trim (name_written (by decide)),
    options_written (by decide) (List.cons_ne_nil _ _) hsettled]
  constructor
  · rintro ⟨-, h⟩
    exact h start stop rfl rfl
  · refine fun h => ⟨fun _ heq => ?_, fun _ _ heq heq' => ?_⟩ <;> cases heq
    cases heq'
    exact h

theorem sound_fadeIn (hd : Plain d) : Sound ("fade=t=in:st=0:d=".toList ++ d) ↔ Positive d := by
  have htext : "fade=t=in:st=0:d=".toList ++ d = written "fade".toList
      [("t".toList, "in".toList), ("st".toList, "0".toList), ("d".toList, d)] := by
    simp [written, option, List.intercalate_cons_cons]
  have hsettled : ∀ setting ∈ [("t".toList, "in".toList), ("st".toList, "0".toList),
      ("d".toList, d)], Settled setting := by
    simp only [List.forall_mem_cons]
    exact ⟨by decide, by decide, settled_of_plain hd (by decide), nofun⟩
  rw [htext, sound_iff_of_fade (name_written (by decide)),
    options_written (by decide) (List.cons_ne_nil _ _) hsettled]
  constructor
  · exact fun h => h d rfl
  · rintro h _ heq
    cases heq
    exact h

theorem sound_fadeOut (hstart : Plain start) (hd : Plain d) :
    Sound ("fade=t=out:st=".toList ++ start ++ ":d=".toList ++ d) ↔ Positive d := by
  have htext : "fade=t=out:st=".toList ++ start ++ ":d=".toList ++ d = written "fade".toList
      [("t".toList, "out".toList), ("st".toList, start), ("d".toList, d)] := by
    simp [written, option, List.intercalate_cons_cons]
  have hsettled : ∀ setting ∈ [("t".toList, "out".toList), ("st".toList, start), ("d".toList, d)],
      Settled setting := by
    simp only [List.forall_mem_cons]
    exact ⟨by decide, settled_of_plain hstart (by decide), settled_of_plain hd (by decide), nofun⟩
  rw [htext, sound_iff_of_fade (name_written (by decide)),
    options_written (by decide) (List.cons_ne_nil _ _) hsettled]
  constructor
  · exact fun h => h d rfl
  · rintro h _ heq
    cases heq
    exact h

/-- The position of a picture that gets to its place in some time, as a quoted expression. -/
def moving (before d : List Char) : List Char := before ++ '/' :: (d ++ ",0)'".toList)

theorem divisor?_moving {before : List Char} (hbefore : '/' ∉ before) (hd : Plain d) :
    divisor? (moving before d) = some d := by
  have hdrop : (moving before d).dropWhile (· ≠ '/') = '/' :: (d ++ ",0)'".toList) := by
    rw [moving, List.dropWhile_append_of_pos, List.dropWhile_cons_of_neg (by decide)]
    intro c hc
    simpa using fun heq : c = '/' => hbefore (heq ▸ hc)
  have htake : (d ++ ",0)'".toList).takeWhile (· ≠ ',') = d := by
    rw [List.takeWhile_append_of_pos]
    · exact List.append_nil d
    · intro c hc
      simpa using (hd c hc).1
  rw [divisor?, hdrop]
  exact congrArg some htake

theorem settled_moving {key before : List Char} (hd : Plain d)
    (hkey : '=' ∉ key ∧ scan ':' false (key ++ '=' :: (before ++ ['/'])) = some true) :
    Settled (key, moving before d) := by
  have hsplit : option key (moving before d) =
      key ++ '=' :: (before ++ ['/']) ++ (d ++ ",0)'".toList) := by
    simp [option, moving]
  refine ⟨hkey.1, ?_⟩
  rw [Whole, hsplit, scan_append, hkey.2, Option.bind_some, scan_append,
    scan_plain hd (by decide)]
  rfl

/-- Where a picture moves, all that is divided by is one time. -/
theorem sound_overlay {settings : List (List Char × List Char)} (hne : settings ≠ [])
    (hsettled : ∀ setting ∈ settings, Settled setting)
    (hmoving : ∃ setting ∈ settings, divisor? setting.2 = some d)
    (hrest : ∀ setting ∈ settings, divisor? setting.2 = some d ∨ divisor? setting.2 = none) :
    Sound (written "overlay".toList settings) ↔ Positive d := by
  rw [sound_iff_of_overlay (name_written (by decide)), options_written (by decide) hne hsettled]
  constructor
  · obtain ⟨setting, hsetting, hdivisor⟩ := hmoving
    exact fun h => h setting hsetting d hdivisor
  · intro h setting hsetting d' hd'
    rcases hrest setting hsetting with hdivisor | hdivisor <;> rw [hdivisor] at hd' <;> cases hd'
    exact h

/-- A picture that moves from the side. -/
theorem sound_overlay_side {before : List Char} (hd : Plain d) (hbefore : '/' ∉ before)
    (hkey : scan ':' false ("x".toList ++ '=' :: (before ++ ['/'])) = some true) :
    Sound ("overlay=x=".toList ++ moving before d ++ ":y=0:shortest=1".toList) ↔ Positive d := by
  have htext : "overlay=x=".toList ++ moving before d ++ ":y=0:shortest=1".toList =
      written "overlay".toList [("x".toList, moving before d), ("y".toList, "0".toList),
        ("shortest".toList, "1".toList)] := by
    simp [written, option, List.intercalate_cons_cons]
  have hdivisor := divisor?_moving hbefore hd
  rw [htext]
  apply sound_overlay (List.cons_ne_nil _ _)
  · simp only [List.forall_mem_cons]
    exact ⟨settled_moving hd ⟨by decide, hkey⟩, by decide, by decide, nofun⟩
  · exact ⟨_, List.mem_cons_self, hdivisor⟩
  · simp only [List.forall_mem_cons]
    exact ⟨.inl hdivisor, .inr rfl, .inr rfl, nofun⟩

/-- A picture that moves from above or below. -/
theorem sound_overlay_edge {before : List Char} (hd : Plain d) (hbefore : '/' ∉ before)
    (hkey : scan ':' false ("y".toList ++ '=' :: (before ++ ['/'])) = some true) :
    Sound ("overlay=x=0:y=".toList ++ moving before d ++ ":shortest=1".toList) ↔ Positive d := by
  have htext : "overlay=x=0:y=".toList ++ moving before d ++ ":shortest=1".toList =
      written "overlay".toList [("x".toList, "0".toList), ("y".toList, moving before d),
        ("shortest".toList, "1".toList)] := by
    simp [written, option, List.intercalate_cons_cons]
  have hdivisor := divisor?_moving hbefore hd
  rw [htext]
  apply sound_overlay (List.cons_ne_nil _ _)
  · simp only [List.forall_mem_cons]
    exact ⟨by decide, settled_moving hd ⟨by decide, hkey⟩, by decide, nofun⟩
  · exact ⟨_, List.mem_cons_of_mem _ List.mem_cons_self, hdivisor⟩
  · simp only [List.forall_mem_cons]
    exact ⟨.inr rfl, .inl hdivisor, .inr rfl, nofun⟩

/-! ## Chains -/

/-- The text is a chain of these filters, whatever follows it. -/
def Chains (cs : List Char) (fs : List (List Char)) : Prop :=
  ∀ rest, parts ',' cs = fs ∧ parts ',' (cs ++ ',' :: rest) = fs ++ parts ',' rest

theorem chains_of_whole (h : Whole ',' cs) : Chains cs [cs] :=
  fun _ => ⟨parts_of_whole h, parts_append h⟩

theorem Chains.append {fs fs' : List (List Char)} (h : Chains cs fs) (h' : Chains cs' fs') :
    Chains (cs ++ ',' :: cs') (fs ++ fs') := by
  refine fun rest => ⟨by rw [(h cs').2, (h' rest).1], ?_⟩
  rw [List.append_assoc, List.cons_append, (h _).2, (h' rest).2, List.append_assoc]

/-- A text that is a chain of filters. -/
def Readable (t : String) : Prop := ∃ fs, Chains t.toList fs

variable {t t' : String}

theorem survives_of_whole (hwhole : Whole ',' t.toList) :
    Readable t ∧ (Survives t ↔ Clean t.toList ∧ Sound t.toList) := by
  refine ⟨⟨_, chains_of_whole hwhole⟩, fun h => ⟨h.clean, ?_⟩, fun h => ⟨h.1, fun f hf => ?_⟩⟩
  · exact h.sound _ (by rw [parts_of_whole hwhole]; exact List.mem_cons_self)
  · rw [parts_of_whole hwhole] at hf
    obtain rfl := List.mem_singleton.mp hf
    exact h.2

theorem survives_append (h : Readable t) (h' : Readable t') :
    Readable (t ++ "," ++ t') ∧ (Survives (t ++ "," ++ t') ↔ Survives t ∧ Survives t') := by
  obtain ⟨fs, hfs⟩ := h
  obtain ⟨fs', hfs'⟩ := h'
  have htext : (t ++ "," ++ t').toList = t.toList ++ ',' :: t'.toList := by simp
  have hclean : Clean (t ++ "," ++ t').toList ↔ Clean t.toList ∧ Clean t'.toList := by
    rw [htext]
    exact clean_append_cons _ _ (by decide)
  have hparts : parts ',' (t ++ "," ++ t').toList = parts ',' t.toList ++ parts ',' t'.toList := by
    rw [htext, (hfs t'.toList).2, (hfs []).1]
  refine ⟨⟨_, htext ▸ hfs.append hfs'⟩, fun h => ⟨⟨(hclean.mp h.clean).1, ?_⟩,
    ⟨(hclean.mp h.clean).2, ?_⟩⟩, fun h => ⟨hclean.mpr ⟨h.1.clean, h.2.clean⟩, ?_⟩⟩
  · exact fun f hf => h.sound f (hparts ▸ List.mem_append_left _ hf)
  · exact fun f hf => h.sound f (hparts ▸ List.mem_append_right _ hf)
  · rw [hparts, List.forall_mem_append]
    exact ⟨h.1.sound, h.2.sound⟩

/-- All of these are chains of filters, and they can be used where something holds. -/
def Usable (ts : List String) (P : Prop) : Prop :=
  (∀ t ∈ ts, Readable t) ∧ ((∀ t ∈ ts, Survives t) ↔ P)

namespace Usable

variable {ts ts' : List String} {P Q : Prop}

theorem nil : Usable [] True := ⟨nofun, iff_true_intro nofun⟩

theorem singleton (h : Readable t ∧ (Survives t ↔ P)) : Usable [t] P :=
  ⟨List.forall_mem_singleton.mpr h.1, List.forall_mem_singleton.trans h.2⟩

theorem append (h : Usable ts P) (h' : Usable ts' Q) : Usable (ts ++ ts') (P ∧ Q) :=
  ⟨List.forall_mem_append.mpr ⟨h.1, h'.1⟩,
    List.forall_mem_append.trans (and_congr h.2 h'.2)⟩

theorem cons (h : Readable t ∧ (Survives t ↔ P)) (h' : Usable ts Q) : Usable (t :: ts) (P ∧ Q) :=
  (singleton h).append h'

/-- A chain can be used if all of it can. -/
theorem survives_intercalate (h : Usable ts P) (hne : ts ≠ []) :
    Survives (",".intercalate ts) ↔ P := by
  suffices Readable (",".intercalate ts) ∧
      (Survives (",".intercalate ts) ↔ ∀ t ∈ ts, Survives t) from this.2.trans h.2
  replace h := h.1
  induction ts with
  | nil => exact (hne rfl).elim
  | cons t ts ih =>
      rw [List.forall_mem_cons] at h
      rcases eq_or_ne ts [] with rfl | hts
      · rw [String.intercalate_singleton, List.forall_mem_singleton]
        exact ⟨h.1, Iff.rfl⟩
      · obtain ⟨hreadable, hiff⟩ := ih hts h.2
        rw [String.intercalate_cons_of_ne_nil hts, List.forall_mem_cons, ← hiff]
        exact survives_append h.1 hreadable

end Usable

/-! ## Printed numbers -/

theorem plain_of_numeric (h : Numeric d) : Plain d := by
  intro c hc
  rcases h c hc with halphanum | rfl | rfl
  · refine ⟨?_, ?_, ?_⟩ <;> rintro rfl <;> cases halphanum
  · decide
  · decide

/-- No exact number is printed with a separator. -/
theorem plain_filterText (x : ℚ) : Plain (Scalar.filterText x).toList :=
  plain_of_numeric (numeric_filterText x)

/-- No double is printed with a separator. -/
theorem plain_floatFilterText (x : Float) : Plain (Scalar.filterText x).toList :=
  plain_of_numeric (numeric_floatFilterText x)

theorem plain_natText (n : ℕ) : Plain (natText n).toList := plain_of_numeric (numeric_natText n)

/-! ## Texts of filters -/

section Texts

variable {before d after : List Char} {a b : String}

theorem head?_any_append {between : List Char} (h : between.head?.any isBreak = true) :
    (between ++ after).head?.any isBreak = true := by
  cases between with
  | nil => cases h
  | cons c cs => exact h

/-- A number between texts that keep it apart. -/
theorem clean_number (hlast : before.getLast?.any isBreak = true) (hbefore : Clean before)
    (hhead : after.head?.any isBreak = true) :
    Clean (before ++ (d ++ after)) ↔ Clean d ∧ Clean after := by
  rw [clean_append_left hlast hbefore, clean_append_right hhead]

theorem scan_number (hd : Plain d) (hseparator : separator = ',' ∨ separator = ':')
    (hbefore : scan separator quoted before = some quoted') :
    scan separator quoted (before ++ (d ++ after)) = scan separator quoted' after := by
  rw [scan_append, hbefore, Option.bind_some, scan_append, scan_plain hd hseparator,
    Option.bind_some]

theorem clean_natText (n : ℕ) : Clean (natText n).toList := by
  rw [toList_natText]
  exact clean_of_rational? (rational?_whole (digital_toDigits n) Nat.toDigits_ne_nil)

/-- A filter that has no times in it. -/
theorem survives_of_name {word : List Char} (hwhole : Whole ',' t.toList)
    (hname : name t.toList = word)
    (hother : word ∉ ["trim".toList, "fade".toList, "overlay".toList]) :
    Readable t ∧ (Survives t ↔ Clean t.toList) := by
  obtain ⟨hreadable, hiff⟩ := survives_of_whole hwhole
  exact ⟨hreadable, hiff.trans (and_iff_left (sound_of_name (hname ▸ hother)))⟩

theorem survives_normalize : Readable "setsar=1:1,setpts=PTS-STARTPTS" ∧
    (Survives "setsar=1:1,setpts=PTS-STARTPTS" ↔ True) := by
  obtain ⟨hratio, hclean⟩ : Readable "setsar=1:1" ∧ (Survives "setsar=1:1" ↔ _) :=
    survives_of_name (by decide) rfl (by decide)
  obtain ⟨htimes, hclean'⟩ : Readable "setpts=PTS-STARTPTS" ∧
      (Survives "setpts=PTS-STARTPTS" ↔ _) := survives_of_name (by decide) rfl (by decide)
  obtain ⟨hreadable, hiff⟩ := survives_append hratio htimes
  have hsurvives := hiff.mpr ⟨hclean.mpr (by decide), hclean'.mpr (by decide)⟩
  exact ⟨hreadable, iff_true_intro hsurvives⟩

/-- A filter that begins with a size. -/
theorem survives_sized (start stop : String) {word : List Char} (width height : ℕ)
    (hstart : start.toList.getLast?.any isBreak = true ∧ Clean start.toList ∧
      Whole ',' start.toList)
    (hstop : stop.toList.head?.any isBreak = true ∧ Clean stop.toList ∧ Whole ',' stop.toList)
    (hname : ∀ rest, name (start.toList ++ rest) = word)
    (hother : word ∉ ["trim".toList, "fade".toList, "overlay".toList]) :
    Readable (start ++ natText width ++ ":" ++ natText height ++ stop) ∧
      Survives (start ++ natText width ++ ":" ++ natText height ++ stop) := by
  have htext : (start ++ natText width ++ ":" ++ natText height ++ stop).toList =
      start.toList ++ ((natText width).toList ++ (":".toList ++ ((natText height).toList ++
        stop.toList))) := by
    simp only [String.toList_append, List.append_assoc]
  have hclean : Clean (start.toList ++ ((natText width).toList ++ (":".toList ++
      ((natText height).toList ++ stop.toList)))) := by
    rw [clean_number hstart.1 hstart.2.1 rfl, clean_number (by decide) (by decide) hstop.1]
    exact ⟨clean_natText width, clean_natText height, hstop.2.1⟩
  have hwhole : Whole ',' (start.toList ++ ((natText width).toList ++ (":".toList ++
      ((natText height).toList ++ stop.toList)))) := by
    rw [Whole, scan_number (plain_natText width) (by decide) hstart.2.2,
      scan_number (plain_natText height) (by decide) (by decide : Whole ',' ":".toList)]
    exact hstop.2.2
  obtain ⟨hreadable, hiff⟩ := survives_of_name (htext ▸ hwhole) (htext ▸ hname _) hother
  exact ⟨hreadable, hiff.mpr (htext ▸ hclean)⟩

theorem survives_scaleText (width height : ℕ) : Readable (Expression.scaleText width height) ∧
    (Survives (Expression.scaleText width height) ↔ True) := by
  obtain ⟨hscale, hsurvives⟩ := survives_sized "scale="
    ":force_original_aspect_ratio=decrease" width height (by decide) (by decide)
    (fun _ => name_append "scale".toList (by decide)) (by decide)
  obtain ⟨hpad, hsurvives'⟩ := survives_sized "pad=" ":(ow-iw)/2:(oh-ih)/2"
    width height (by decide) (by decide) (fun _ => name_append "pad".toList (by decide)) (by decide)
  have htext : Expression.scaleText width height =
      ("scale=" ++ natText width ++ ":" ++ natText height ++
        ":force_original_aspect_ratio=decrease") ++ "," ++
      ("pad=" ++ natText width ++ ":" ++ natText height ++ ":(ow-iw)/2:(oh-ih)/2") := by
    apply String.toList_inj.mp
    simp [Expression.scaleText]
  obtain ⟨hreadable, hiff⟩ := survives_append hscale hpad
  exact htext ▸ ⟨hreadable, iff_true_intro (hiff.mpr ⟨hsurvives, hsurvives'⟩)⟩

theorem survives_concat (count : ℕ) : Survives ("concat=n=" ++ natText count ++ ":v=1:a=0") := by
  refine (survives_of_name ?_ (?_ : name _ = "concat".toList) (by decide)).2.mpr ?_
  all_goals simp only [String.toList_append, List.append_assoc]
  · exact scan_number (plain_natText count) (by decide) (by decide : Whole ',' "concat=n=".toList)
  · exact name_append "concat".toList (by decide)
  · exact (clean_number (by decide) (by decide) rfl).mpr ⟨clean_natText count, by decide⟩

theorem survives_split (copies : ℕ) : Survives ("split=" ++ natText copies) := by
  refine (survives_of_name ?_ (?_ : name _ = "split".toList) (by decide)).2.mpr ?_
  all_goals rw [String.toList_append]
  · rw [Whole, scan_append]
    exact scan_plain (plain_natText copies) (by decide)
  · exact name_append "split".toList (by decide)
  · exact (clean_append_left (by decide) (by decide)).mpr (clean_natText copies)

/-- A filter that ends with a number. -/
theorem survives_last (start : String) (ha : Plain a.toList)
    (hstart : start.toList.getLast?.any isBreak = true ∧ Clean start.toList ∧
      Whole ',' start.toList) :
    Readable (start ++ a) ∧
      (Survives (start ++ a) ↔ Clean a.toList ∧ Sound (start.toList ++ a.toList)) := by
  have hwhole : Whole ',' (start ++ a).toList := by
    rw [String.toList_append, Whole, scan_append, hstart.2.2]
    exact scan_plain ha (by decide)
  obtain ⟨hreadable, hiff⟩ := survives_of_whole hwhole
  rw [String.toList_append, clean_append_left hstart.1 hstart.2.1] at hiff
  exact ⟨hreadable, hiff⟩

/-- A filter that ends with a second number. -/
theorem survives_pair (start between : String) (ha : Plain a.toList) (hb : Plain b.toList)
    (hstart : start.toList.getLast?.any isBreak = true ∧ Clean start.toList ∧
      Whole ',' start.toList)
    (hbetween : between.toList.head?.any isBreak = true ∧
      between.toList.getLast?.any isBreak = true ∧ Clean between.toList ∧
      Whole ',' between.toList) :
    Readable (start ++ a ++ between ++ b) ∧ (Survives (start ++ a ++ between ++ b) ↔
      (Clean a.toList ∧ Clean b.toList) ∧
        Sound (start.toList ++ a.toList ++ between.toList ++ b.toList)) := by
  obtain ⟨hhead, hlast, hcleanBetween, hwholeBetween⟩ := hbetween
  have htext : (start ++ a ++ between ++ b).toList =
      start.toList ++ (a.toList ++ (between.toList ++ b.toList)) := by
    simp only [String.toList_append, List.append_assoc]
  have hwhole : Whole ',' (start ++ a ++ between ++ b).toList := by
    rw [htext, Whole, scan_number ha (by decide) hstart.2.2, scan_append, hwholeBetween]
    exact scan_plain hb (by decide)
  have hclean : Clean (start ++ a ++ between ++ b).toList ↔ Clean a.toList ∧ Clean b.toList := by
    rw [htext, clean_number hstart.1 hstart.2.1 (head?_any_append hhead),
      clean_append_left hlast hcleanBetween]
  obtain ⟨hreadable, hiff⟩ := survives_of_whole hwhole
  rw [hclean] at hiff
  simp only [String.toList_append] at hiff
  exact ⟨hreadable, hiff⟩

theorem survives_trim (ha : Plain a.toList) :
    Readable ("trim=duration=" ++ a) ∧ (Survives ("trim=duration=" ++ a) ↔ Positive a.toList) := by
  obtain ⟨hreadable, hiff⟩ := survives_last "trim=duration=" ha (by decide)
  rw [sound_trim ha] at hiff
  exact ⟨hreadable, hiff.trans (and_iff_right_of_imp clean_of_positive)⟩

theorem survives_window (ha : Plain a.toList) (hb : Plain b.toList) :
    Readable ("trim=start=" ++ a ++ ":end=" ++ b) ∧
      (Survives ("trim=start=" ++ a ++ ":end=" ++ b) ↔ Before a.toList b.toList) := by
  obtain ⟨hreadable, hiff⟩ := survives_pair "trim=start=" ":end=" ha hb (by decide) (by decide)
  rw [sound_window ha hb] at hiff
  exact ⟨hreadable, hiff.trans (and_iff_right_of_imp clean_of_before)⟩

theorem survives_fadeIn (ha : Plain a.toList) : Readable ("fade=t=in:st=0:d=" ++ a) ∧
    (Survives ("fade=t=in:st=0:d=" ++ a) ↔ Positive a.toList) := by
  obtain ⟨hreadable, hiff⟩ := survives_last "fade=t=in:st=0:d=" ha (by decide)
  rw [sound_fadeIn ha] at hiff
  exact ⟨hreadable, hiff.trans (and_iff_right_of_imp clean_of_positive)⟩

theorem survives_fadeOut (ha : Plain a.toList) (hb : Plain b.toList) :
    Readable ("fade=t=out:st=" ++ b ++ ":d=" ++ a) ∧
      (Survives ("fade=t=out:st=" ++ b ++ ":d=" ++ a) ↔ Positive a.toList ∧ Clean b.toList) := by
  obtain ⟨hreadable, hiff⟩ := survives_pair "fade=t=out:st=" ":d=" hb ha (by decide) (by decide)
  rw [sound_fadeOut hb ha] at hiff
  refine ⟨hreadable, hiff.trans ⟨fun h => ⟨h.2, h.1.1⟩, fun h => ⟨⟨h.2, ?_⟩, h.1⟩⟩⟩
  exact clean_of_positive h.1

/-- A fade in at the start and a fade out at the end. -/
theorem survives_fade (ha : Plain a.toList) (hb : Plain b.toList) :
    Readable ("fade=t=in:st=0:d=" ++ a ++ ",fade=t=out:st=" ++ b ++ ":d=" ++ a) ∧
      (Survives ("fade=t=in:st=0:d=" ++ a ++ ",fade=t=out:st=" ++ b ++ ":d=" ++ a) ↔
        Positive a.toList ∧ Clean b.toList) := by
  obtain ⟨hin, hinIff⟩ := survives_fadeIn ha
  obtain ⟨hout, houtIff⟩ := survives_fadeOut ha hb
  have htext : "fade=t=in:st=0:d=" ++ a ++ ",fade=t=out:st=" ++ b ++ ":d=" ++ a =
      ("fade=t=in:st=0:d=" ++ a) ++ "," ++ ("fade=t=out:st=" ++ b ++ ":d=" ++ a) := by
    apply String.toList_inj.mp
    simp
  obtain ⟨hreadable, hiff⟩ := survives_append hin hout
  rw [hinIff, houtIff, ← and_assoc, and_self] at hiff
  exact htext ▸ ⟨hreadable, hiff⟩

/-- A filter with a picture that gets to its place in some time. -/
theorem survives_moving (start before stop : List Char) (hd : Plain d)
    (htext : t.toList = start ++ moving before d ++ stop)
    (hstart : (start ++ before ++ ['/']).getLast?.any isBreak = true ∧
      Clean (start ++ before ++ ['/']) ∧ scan ',' false (start ++ before ++ ['/']) = some true)
    (hstop : (",0)'".toList ++ stop).head?.any isBreak = true ∧ Clean (",0)'".toList ++ stop) ∧
      scan ',' true (",0)'".toList ++ stop) = some false)
    (hsound : Sound (start ++ moving before d ++ stop) ↔ Positive d) :
    Readable t ∧ (Survives t ↔ Positive d) := by
  have hmoving : t.toList = (start ++ before ++ ['/']) ++ (d ++ (",0)'".toList ++ stop)) := by
    rw [htext]
    simp [moving]
  have hwhole : Whole ',' t.toList := by
    rw [hmoving, Whole, scan_number hd (by decide) hstart.2.2]
    exact hstop.2.2
  have hclean : Clean t.toList ↔ Clean d := by
    rw [hmoving, clean_number hstart.1 hstart.2.1 hstop.1]
    exact and_iff_left hstop.2.1
  obtain ⟨hreadable, hiff⟩ := survives_of_whole hwhole
  rw [hclean, htext, hsound] at hiff
  exact ⟨hreadable, hiff.trans (and_iff_right_of_imp clean_of_positive)⟩

variable {α : Type} [Scalar α]

theorem survives_overlay {x : α} (hx : Plain (Scalar.filterText x).toList)
    (direction : WipeDirection) :
    Readable ("overlay=" ++ Filter.position x direction ++ ":shortest=1") ∧
      (Survives ("overlay=" ++ Filter.position x direction ++ ":shortest=1") ↔
        Positive (Scalar.filterText x).toList) := by
  cases direction with
  | leftToRight =>
      have hposition : Filter.position x .leftToRight =
          "x='min(-w+t*w/" ++ Scalar.filterText x ++ ",0)':y=0" := rfl
      have htext : ("overlay=" ++ Filter.position x .leftToRight ++ ":shortest=1").toList =
          "overlay=x=".toList ++ moving "'min(-w+t*w".toList (Scalar.filterText x).toList ++
            ":y=0:shortest=1".toList := by
        rw [hposition]
        simp [moving]
      exact survives_moving _ _ _ hx htext (by decide) (by decide)
        (sound_overlay_side hx (by decide) (by decide))
  | topToBottom =>
      have hposition : Filter.position x .topToBottom =
          "x=0:y='min(-h+t*h/" ++ Scalar.filterText x ++ ",0)'" := rfl
      have htext : ("overlay=" ++ Filter.position x .topToBottom ++ ":shortest=1").toList =
          "overlay=x=0:y=".toList ++ moving "'min(-h+t*h".toList (Scalar.filterText x).toList ++
            ":shortest=1".toList := by
        rw [hposition]
        simp [moving]
      exact survives_moving _ _ _ hx htext (by decide) (by decide)
        (sound_overlay_edge hx (by decide) (by decide))
  | rightToLeft =>
      have hposition : Filter.position x .rightToLeft =
          "x='max(w-t*w/" ++ Scalar.filterText x ++ ",0)':y=0" := rfl
      have htext : ("overlay=" ++ Filter.position x .rightToLeft ++ ":shortest=1").toList =
          "overlay=x=".toList ++ moving "'max(w-t*w".toList (Scalar.filterText x).toList ++
            ":y=0:shortest=1".toList := by
        rw [hposition]
        simp [moving]
      exact survives_moving _ _ _ hx htext (by decide) (by decide)
        (sound_overlay_side hx (by decide) (by decide))
  | bottomToTop =>
      have hposition : Filter.position x .bottomToTop =
          "x=0:y='max(h-t*h/" ++ Scalar.filterText x ++ ",0)'" := rfl
      have htext : ("overlay=" ++ Filter.position x .bottomToTop ++ ":shortest=1").toList =
          "overlay=x=0:y=".toList ++ moving "'max(h-t*h".toList (Scalar.filterText x).toList ++
            ":shortest=1".toList := by
        rw [hposition]
        simp [moving]
      exact survives_moving _ _ _ hx htext (by decide) (by decide)
        (sound_overlay_edge hx (by decide) (by decide))

section Zoom

variable {z : PanZoom α} {direction : ZoomDirection}

/-- A zoom whose expression is not parted. -/
theorem survives_zoompan (hquoted : scan ',' true (z.zoomText direction).toList = some true) :
    Readable (z.text direction) ∧
      (Survives (z.text direction) ↔ Clean (z.zoomText direction).toList) := by
  have htext : (z.text direction).toList = "zoompan=z='".toList ++
      ((z.zoomText direction).toList ++
        ("':x='iw/2-(iw/zoom/2)':y='ih/2-(ih/zoom/2)':d=".toList ++ ((natText z.spread).toList ++
          (":s=".toList ++ ((natText z.width).toList ++ ("x".toList ++
            ((natText z.height).toList ++
              (":fps=".toList ++ (natText framesPerSecond).toList)))))))) := by
    unfold PanZoom.text
    simp only [String.toList_append, List.append_assoc]
  have hclean : Clean (z.text direction).toList ↔ Clean (z.zoomText direction).toList := by
    rw [htext, clean_append_left (by decide) (by decide), clean_append_right rfl,
      clean_number (by decide) (by decide) rfl, clean_number (by decide) (by decide) rfl,
      clean_number (by decide) (by decide) rfl, clean_append_left (by decide) (by decide)]
    exact and_iff_left ⟨clean_natText z.spread, clean_natText z.width, clean_natText z.height,
      clean_natText framesPerSecond⟩
  have hopen : scan ',' false "zoompan=z='".toList = some true := by decide
  have hclose : scan ',' true "':x='iw/2-(iw/zoom/2)':y='ih/2-(ih/zoom/2)':d=".toList =
    some false := by decide
  have hwhole : Whole ',' (z.text direction).toList := by
    rw [htext, Whole, scan_append, hopen, Option.bind_some, scan_append, hquoted, Option.bind_some,
      scan_number (plain_natText z.spread) (by decide) hclose,
      scan_number (plain_natText z.width) (by decide) (by decide : Whole ',' ":s=".toList),
      scan_number (plain_natText z.height) (by decide) (by decide : Whole ',' "x".toList),
      scan_append]
    exact scan_plain (plain_natText framesPerSecond) (by decide)
  have hname : name (z.text direction).toList = "zoompan".toList := by
    rw [htext]
    exact name_append "zoompan".toList (by decide)
  rw [← hclean]
  exact survives_of_name hwhole hname (by decide)

/-- A zoom that is computed from two numbers. -/
theorem survives_zoompan_pair (start between stop : String) (ha : Plain a.toList)
    (hb : Plain b.toList) (hzoom : z.zoomText direction = start ++ a ++ between ++ b ++ stop)
    (hstart : start.toList.getLast?.any isBreak = true ∧ Clean start.toList ∧
      scan ',' true start.toList = some true)
    (hbetween : between.toList.head?.any isBreak = true ∧
      between.toList.getLast?.any isBreak = true ∧ Clean between.toList ∧
      scan ',' true between.toList = some true)
    (hstop : stop.toList.head?.any isBreak = true ∧ Clean stop.toList ∧
      scan ',' true stop.toList = some true) :
    Readable (z.text direction) ∧
      (Survives (z.text direction) ↔ Clean a.toList ∧ Clean b.toList) := by
  obtain ⟨hhead, hlast, hcleanBetween, hwholeBetween⟩ := hbetween
  have htext : (z.zoomText direction).toList =
      start.toList ++ (a.toList ++ (between.toList ++ (b.toList ++ stop.toList))) := by
    rw [hzoom]
    simp only [String.toList_append, List.append_assoc]
  have hclean : Clean (z.zoomText direction).toList ↔ Clean a.toList ∧ Clean b.toList := by
    rw [htext, clean_number hstart.1 hstart.2.1 (head?_any_append hhead),
      clean_number hlast hcleanBetween hstop.1, and_iff_left hstop.2.1]
  rw [← hclean]
  refine survives_zoompan ?_
  rw [htext, scan_number ha (by decide) hstart.2.2, scan_number hb (by decide) hwholeBetween]
  exact hstop.2.2

theorem survives_panZoom (z : PanZoom α) (hstep : Plain (Scalar.filterText z.step).toList)
    (hmax : Plain (Scalar.filterText z.maxZoom).toList) (direction : ZoomDirection) :
    Readable (z.text direction) ∧ (Survives (z.text direction) ↔
      Clean (Scalar.filterText z.step).toList ∧ Clean (Scalar.filterText z.maxZoom).toList) := by
  cases direction with
  | inward =>
      have hzoom : z.zoomText .inward = "min(zoom+" ++ Scalar.filterText z.step ++ "," ++
        Scalar.filterText z.maxZoom ++ ")" := rfl
      exact survives_zoompan_pair _ _ _ hstep hmax hzoom (by decide) (by decide) (by decide)
  | outward =>
      have hzoom : z.zoomText .outward = "if(lte(zoom,1.0)," ++ Scalar.filterText z.maxZoom ++
        ",max(1.001,zoom-" ++ Scalar.filterText z.step ++ "))" := rfl
      obtain ⟨hreadable, hiff⟩ := survives_zoompan_pair _ _ _ hmax hstep hzoom (by decide)
        (by decide) (by decide)
      exact ⟨hreadable, hiff.trans and_comm⟩

end Zoom

end Texts

end Reading

end Slideshow
