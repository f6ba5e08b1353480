import Slideshow.Json.Decoder

/-! # What is read of a text without blanks

One equation for each kind of value says how its text is taken apart; from these follows what is read
of the whole, given what is read of its parts. -/

namespace Slideshow.Json.Reader

variable {cs rest after : List Char} {d : Draft} {c : Char}

/-- A value is read of a text, and something is left. -/
def Reads (cs : List Char) (d : Draft) (after : List Char) : Prop :=
  (value cs).1 = d ∧ ∃ h, (value cs).2 = some ⟨after, h⟩

/-- Items are read of a text up to the end of their array. -/
def ReadsItems (first : Bool) (cs : List Char) (ds : List Draft) (after : List Char) : Prop :=
  (items first cs).1 = ds ∧ (items first cs).2.1 = none ∧ ∃ h, (items first cs).2.2 = some ⟨after, h⟩

/-- Members are read of a text up to the end of their object. -/
def ReadsMembers (first : Bool) (cs : List Char) (ms : List (Draft × Draft)) (after : List Char) :
    Prop :=
  (members first cs).1 = ms ∧ (members first cs).2.1 = none ∧
    ∃ h, (members first cs).2.2 = some ⟨after, h⟩

/-- A character that stands for itself between quotation marks. -/
def IsPlain (c : Char) : Prop := c ≠ '"' ∧ c ≠ '\\' ∧ ¬ c.toNat < 0x20

theorem text_plain (done : List Char) (h : ∀ c ∈ cs, IsPlain c) (after : List Char) :
    text done false (cs ++ '"' :: after) =
      (.string (String.ofList (done.reverse ++ cs)), some after) := by
  induction cs generalizing done with
  | nil => simp [text]
  | cons c cs ih =>
      obtain ⟨hquote, hescape, hcontrol⟩ := h c List.mem_cons_self
      have hrest := ih (c :: done) fun d hd => h d (List.mem_cons_of_mem _ hd)
      rw [List.cons_append, text]
      · rw [if_neg hcontrol, hrest, List.reverse_cons, List.append_assoc, List.singleton_append]
      · exact hquote
      · exact fun h _ => hescape h
      · exact fun _ h _ => hescape h
      · exact fun _ _ h _ => hescape h

theorem skipBlanks_cons (hc : isBlank c = false) (cs : List Char) :
    skipBlanks (c :: cs) = c :: cs := by
  simp [skipBlanks, hc]

/-! ## How a text is taken apart -/

/-- A value is told by its first character. -/
theorem value_cons (hblank : isBlank c = false) (cs : List Char) :
    value (c :: cs) =
      if c = '"' then token (c :: cs) (text [] false cs)
      else if c = '[' then (.array (items true cs).1 (items true cs).2.1,
        (items true cs).2.2.weaken (Nat.le_succ _))
      else if c = '\x7b' then (.object (members true cs).1 (members true cs).2.1,
        (members true cs).2.2.weaken (Nat.le_succ _))
      else if c = 'n' then token (c :: cs) (word .null "ull".toList cs)
      else if c = 't' then token (c :: cs) (word (.bool true) "rue".toList cs)
      else if c = 'f' then token (c :: cs) (word (.bool false) "alse".toList cs)
      else if c = '-' then token (c :: cs) (number true cs)
      else if c.isDigit then token (c :: cs) (number false (c :: cs))
      else (.broken .malformed false, none) := by
  rw [value]
  split
  · rename_i h
    rw [skipBlanks_cons hblank] at h
    cases h
  · rename_i h
    rw [skipBlanks_cons hblank] at h
    cases h
    rfl

theorem value_quote (cs : List Char) :
    value ('"' :: cs) = token ('"' :: cs) (text [] false cs) := by
  rw [value_cons (by decide)]
  rfl

theorem value_bracket (cs : List Char) :
    value ('[' :: cs) =
      (.array (items true cs).1 (items true cs).2.1, (items true cs).2.2.weaken (Nat.le_succ _)) := by
  rw [value_cons (by decide)]
  rfl

theorem value_brace (cs : List Char) :
    value ('\x7b' :: cs) = (.object (members true cs).1 (members true cs).2.1,
      (members true cs).2.2.weaken (Nat.le_succ _)) := by
  rw [value_cons (by decide)]
  rfl

theorem items_end (first : Bool) (cs : List Char) :
    items first (']' :: cs) = ([], none, some ⟨cs, Nat.lt_succ_self _⟩) := by
  rw [items]
  split
  · rename_i h
    cases h
  · rename_i h
    cases h
    rfl

theorem members_end (first : Bool) (cs : List Char) :
    members first ('\x7d' :: cs) = ([], none, some ⟨cs, Nat.lt_succ_self _⟩) := by
  rw [members]
  split
  · rename_i h
    cases h
  · rename_i h
    cases h
    rfl

/-- The first item is followed by the others. -/
theorem items_first (hc : isBlank c = false) (hend : c ≠ ']') {h : rest.length < (c :: cs).length}
    (hvalue : value (c :: cs) = (d, some ⟨rest, h⟩)) :
    items true (c :: cs) = (d :: (items false rest).1, (items false rest).2.1,
      (items false rest).2.2.weaken (Nat.le_of_lt h)) := by
  rw [items]
  split
  · rename_i h
    rw [skipBlanks_cons hc] at h
    cases h
  · rename_i h
    rw [skipBlanks_cons hc] at h
    cases h
    simp only [if_neg hend, if_true, hvalue]

theorem members_first (hc : isBlank c = false) (hend : c ≠ '\x7d') (cs : List Char) :
    members true (c :: cs) = ((member (c :: cs)).1, (member (c :: cs)).2.1,
      (member (c :: cs)).2.2.weaken (Nat.le_refl _)) := by
  rw [members]
  split
  · rename_i h
    rw [skipBlanks_cons hc] at h
    cases h
  · rename_i h
    rw [skipBlanks_cons hc] at h
    cases h
    rw [if_neg hend, if_pos rfl]

/-- A member is a key, its value and the members after it. -/
theorem member_key {key colon : List Char} {k : Draft}
    (hkey : text [] false key = (k, some (':' :: colon)))
    (hlength : (':' :: colon).length < ('"' :: key).length) {h : rest.length < colon.length}
    (hvalue : value colon = (d, some ⟨rest, h⟩)) (hle : rest.length ≤ ('"' :: key).length) :
    member ('"' :: key) = ((k, d) :: (members false rest).1, (members false rest).2.1,
      (members false rest).2.2.weaken hle) := by
  rw [member]
  split
  · rename_i h
    cases h
  · rename_i h
    cases h
    simp only [token, hkey, Option.bind_some, Rest.of, dif_pos hlength]
    split
    · rename_i h
      cases h
    · rename_i h
      cases h
      simp only [hvalue]
    · rename_i hne h
      cases h
      exact (hne rfl).elim
  · rename_i hne h
    cases h
    exact (hne rfl).elim

/-! ## What is read of the whole -/

theorem Reads.value_eq (h : Reads cs d after) : ∃ h, value cs = (d, some ⟨after, h⟩) := by
  obtain ⟨hdraft, hlength, hafter⟩ := h
  exact ⟨hlength, Prod.ext hdraft hafter⟩

theorem reads_string (h : ∀ c ∈ cs, IsPlain c) (after : List Char) :
    Reads ('"' :: (cs ++ '"' :: after)) (.string (String.ofList cs)) after := by
  have hlength : after.length < ('"' :: (cs ++ '"' :: after)).length := by simp; omega
  rw [Reads, value_quote, text_plain [] h after]
  exact ⟨rfl, hlength, dif_pos hlength⟩

theorem ReadsItems.array {ds : List Draft} (h : ReadsItems true cs ds after) :
    Reads ('[' :: cs) (.array ds none) after := by
  obtain ⟨hfound, hending, hlength, hafter⟩ := h
  rw [Reads, value_bracket, hfound, hending, hafter]
  exact ⟨rfl, Nat.lt_succ_of_lt hlength, rfl⟩

theorem ReadsMembers.object {ms : List (Draft × Draft)} (h : ReadsMembers true cs ms after) :
    Reads ('\x7b' :: cs) (.object ms none) after := by
  obtain ⟨hfound, hending, hlength, hafter⟩ := h
  rw [Reads, value_brace, hfound, hending, hafter]
  exact ⟨rfl, Nat.lt_succ_of_lt hlength, rfl⟩

theorem readsItems_end (first : Bool) (after : List Char) :
    ReadsItems first (']' :: after) [] after := by
  rw [ReadsItems, items_end]
  exact ⟨rfl, rfl, Nat.lt_succ_self _, rfl⟩

theorem readsMembers_end (first : Bool) (after : List Char) :
    ReadsMembers first ('\x7d' :: after) [] after := by
  rw [ReadsMembers, members_end]
  exact ⟨rfl, rfl, Nat.lt_succ_self _, rfl⟩

theorem Reads.items {ds : List Draft} (h : Reads (c :: cs) d rest) (hc : isBlank c = false)
    (hend : c ≠ ']') (hrest : ReadsItems false rest ds after) :
    ReadsItems true (c :: cs) (d :: ds) after := by
  obtain ⟨hshorter, hvalue⟩ := h.value_eq
  obtain ⟨hfound, hending, hlength, hafter⟩ := hrest
  rw [ReadsItems, items_first hc hend hvalue, hfound, hending, hafter]
  exact ⟨rfl, rfl, Nat.lt_trans hlength hshorter, rfl⟩

theorem Reads.members {key colon : List Char} {k : Draft} {ms : List (Draft × Draft)}
    (h : Reads colon d rest) (hkey : text [] false key = (k, some (':' :: colon)))
    (hlength : (':' :: colon).length < key.length) (hrest : ReadsMembers false rest ms after) :
    ReadsMembers true ('"' :: key) ((k, d) :: ms) after := by
  obtain ⟨hshorter, hvalue⟩ := h.value_eq
  obtain ⟨hfound, hending, hshort, hafter⟩ := hrest
  rw [List.length_cons] at hlength
  have hmember := member_key hkey (by simp only [List.length_cons]; omega) hvalue
    (by simp only [List.length_cons]; omega)
  rw [ReadsMembers, members_first (by decide) (by decide), hmember, hfound, hending, hafter]
  refine ⟨rfl, rfl, ?_, rfl⟩
  rw [List.length_cons]
  omega

end Slideshow.Json.Reader

namespace Slideshow.Json

open Slideshow.Json.Reader

theorem Reader.Reads.read {text : String} {d : Draft} {after : List Char}
    (h : Reads text.toList d after) : (read text).1 = d := by
  obtain ⟨hdraft, -, -⟩ := h
  unfold Json.read
  split <;> simp_all

/-- The text of an object whose one member is a list of one text. -/
theorem read_listed (key item : List Char) (hkey : ∀ c ∈ key, IsPlain c)
    (hitem : ∀ c ∈ item, IsPlain c) {text : String}
    (htext : text.toList =
      '\x7b' :: '"' :: (key ++ '"' :: ':' :: '[' :: '"' :: (item ++ ['"', ']', '\x7d']))) :
    (read text).1 =
      .object [(.string (String.ofList key), .array [.string (String.ofList item)] none)] none := by
  have hitems : Reads ('[' :: '"' :: (item ++ ['"', ']', '\x7d']))
      (.array [.string (String.ofList item)] none) ['\x7d'] :=
    ((reads_string hitem [']', '\x7d']).items (by decide) (by decide)
      (readsItems_end false ['\x7d'])).array
  have hmembers := hitems.members (text_plain [] hkey _) (by simp; omega)
    (readsMembers_end false [])
  exact (htext ▸ hmembers.object).read

end Slideshow.Json
