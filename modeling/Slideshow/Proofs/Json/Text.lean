import Slideshow.Proofs.Filter.Label
import Slideshow.Proofs.Json.Reader
import Mathlib.Data.List.TakeWhile
import Mathlib.Tactic.SplitIfs

/-! # The text of a value

The text that is written of a value is read as that value. Strings are read back whatever they hold,
and so are the natural numbers that fit into a word; of other numbers it depends on the number, as
the digits of a double are not read with the last precision. -/

namespace Slideshow.Json

namespace Reader

variable {cs after : List Char} {c : Char} {d : Draft}

/-! ## Strings -/

/-- The two hexadecimal digits of a control character. -/
theorem hexDigits_control : ∀ n < 32,
    List.replicate (4 - (Text.hexDigits n).length) '0' ++ Text.hexDigits n =
        ['0', '0', Nat.digitChar (n / 16), Nat.digitChar (n % 16)] ∧
      hexValue? (Nat.digitChar (n / 16)) = some (n / 16) ∧
      hexValue? (Nat.digitChar (n % 16)) = some (n % 16) := by
  decide

theorem unicodeEscape_control {n : ℕ} (h : n < 32) (after : List Char) :
    unicodeEscape (List.replicate (4 - (Text.hexDigits n).length) '0' ++ Text.hexDigits n ++ after) =
      .ok (some (Char.ofNat n), after) := by
  obtain ⟨hdigits, hhigh, hlow⟩ := hexDigits_control n h
  have hzero : hexValue? '0' = some 0 := by decide
  have hunit : unit ('0' :: '0' :: Nat.digitChar (n / 16) :: Nat.digitChar (n % 16) :: after) =
      .ok (n, after) := by
    simp only [unit, hzero, hhigh, hlow]
    have := Nat.div_add_mod' n 16
    simpa using this
  have hhalf : isLow n = false ∧ isHigh n = false := by
    simp only [isLow, isHigh, Bool.and_eq_false_iff, decide_eq_false_iff_not]
    omega
  rw [hdigits]
  simp [unicodeEscape, hunit, hhalf, bind, Except.bind, pure, Except.pure]

/-- What is written of a character is read as that character. -/
theorem text_escapeChar (done : List Char) (c : Char) (after : List Char) :
    text done false (escapeChar c ++ after) = text (c :: done) false after := by
  have hcode : Char.ofNat c.toNat = c := Char.ofNat_toNat c
  unfold escapeChar
  split_ifs with hquote hescape hplain hline hreturn htab hback hfeed
  · subst hquote
    simp [text, shortEscape?]
  · subst hescape
    simp [text, shortEscape?]
  · rw [List.singleton_append, text]
    · rw [if_neg (by omega)]
    · exact hquote
    · exact fun h _ => hescape h
    · exact fun _ h _ => hescape h
    · exact fun _ _ h _ => hescape h
  · subst hline
    simp [text, shortEscape?]
  · subst hreturn
    simp [text, shortEscape?]
  · subst htab
    simp [text, shortEscape?]
  · rw [← hcode, hback]
    simp [text, shortEscape?]
  · rw [← hcode, hfeed]
    simp [text, shortEscape?]
  · have hcontrol : c.toNat < 32 := by omega
    have hunicode := unicodeEscape_control hcontrol after
    simp only [List.append_assoc] at hunicode
    simp only [List.append_assoc, List.cons_append, List.nil_append, text, hunicode, hcode]
    have hdigits := (hexDigits_control c.toNat hcontrol).1
    have hlength := congrArg List.length hdigits
    simp only [List.length_append, List.length_cons] at hlength
    rw [dif_pos]
    simp only [List.length_append]
    omega

/-- What is written of a text is read as that text. -/
theorem text_escaped (done cs after : List Char) :
    text done false (cs.flatMap escapeChar ++ '"' :: after) =
      (.string (String.ofList (done.reverse ++ cs)), some after) := by
  induction cs generalizing done with
  | nil => simp [text]
  | cons c cs ih =>
      rw [List.flatMap_cons, List.append_assoc, text_escapeChar, ih]
      simp

/-! ## Numbers -/

/-- The text ends here, or goes on with what stands after a value. -/
def Delimited : List Char → Prop
  | [] => True
  | c :: _ => c = ',' ∨ c = ']' ∨ c = '\x7d'

theorem takeWhile_isDigit_append (cs : List Char) (h : Delimited after) :
    (cs ++ after).takeWhile Char.isDigit = cs.takeWhile Char.isDigit := by
  induction cs with
  | nil =>
      match after, h with
      | [], _ => rfl
      | _ :: _, .inl rfl | _ :: _, .inr (.inl rfl) | _ :: _, .inr (.inr rfl) => rfl
  | cons c cs ih =>
      by_cases hc : c.isDigit = true <;> simp [hc, ih]

theorem dropWhile_isDigit_append (cs : List Char) (h : Delimited after) :
    (cs ++ after).dropWhile Char.isDigit = cs.dropWhile Char.isDigit ++ after := by
  induction cs with
  | nil =>
      match after, h with
      | [], _ => rfl
      | _ :: _, .inl rfl | _ :: _, .inr (.inl rfl) | _ :: _, .inr (.inr rfl) => rfl
  | cons c cs ih =>
      by_cases hc : c.isDigit = true <;> simp [hc, ih]

theorem takeSign_append (hcs : cs ≠ []) (after : List Char) :
    Decimal.takeSign (cs ++ after) =
      ((Decimal.takeSign cs).1, (Decimal.takeSign cs).2 ++ after) := by
  cases cs with
  | nil => exact (hcs rfl).elim
  | cons c cs =>
      unfold Decimal.takeSign
      split <;> simp_all

/-- A number that ends with the text is read in the same way before what may follow a value. -/
theorem exponent_append {negative : Bool} {digits fraction : List Char}
    (h : exponent negative digits fraction cs = (d, some [])) (hafter : Delimited after) :
    exponent negative digits fraction (cs ++ after) = (d, some after) := by
  have hcs : cs ≠ [] := by
    rintro rfl
    simp [exponent, Decimal.takeSign] at h
  simp only [exponent, takeSign_append hcs, takeWhile_isDigit_append _ hafter,
    dropWhile_isDigit_append _ hafter] at h ⊢
  split at h
  · simp at h
  · rename_i hpower
    rw [if_neg hpower]
    simp only [Prod.mk.injEq, Option.some.injEq] at h ⊢
    simp [h.1, h.2]

theorem number_append {negative : Bool} (h : number negative cs = (d, some []))
    (hafter : Delimited after) : number negative (cs ++ after) = (d, some after) := by
  unfold number at h ⊢
  simp only [takeWhile_isDigit_append _ hafter, dropWhile_isDigit_append _ hafter] at h ⊢
  generalize cs.takeWhile Char.isDigit = digits at h ⊢
  generalize cs.dropWhile Char.isDigit = rest at h ⊢
  split at h
  · simp at h
  · simp at h
  · split at h
    · rename_i more
      simp only [List.cons_append, takeWhile_isDigit_append _ hafter,
        dropWhile_isDigit_append _ hafter]
      split at h
      · simp at h
      · rename_i hfraction
        rw [if_neg hfraction]
        generalize more.dropWhile Char.isDigit = left at h ⊢
        split at h
        · exact exponent_append h hafter
        · exact exponent_append h hafter
        · obtain ⟨rfl, rfl⟩ : _ ∧ left = [] := by simpa using h
          match after, hafter with
          | [], _ => rfl
          | _ :: _, .inl rfl | _ :: _, .inr (.inl rfl) | _ :: _, .inr (.inr rfl) => rfl
    · exact exponent_append h hafter
    · exact exponent_append h hafter
    · obtain ⟨rfl, rfl⟩ : _ ∧ rest = [] := by simpa using h
      match after, hafter with
      | [], _ => rfl
      | _ :: _, .inl rfl | _ :: _, .inr (.inl rfl) | _ :: _, .inr (.inr rfl) => rfl

/-! ## How a number begins -/

theorem text_ne_real (done : List Char) (halved : Bool) (cs : List Char) (x : Float) :
    (text done halved cs).1 ≠ .real x := by
  fun_induction text done halved cs <;> simp_all [brokenText] <;> split <;> simp

theorem word_ne_real (x : Float) {d : Draft} (hd : d ≠ .real x) (name cs : List Char) :
    (word d name cs).1 ≠ .real x := by
  fun_induction word d name cs <;> simp_all

/-- The reader of numbers reads what begins as a number. -/
theorem number_of_value (hblank : isBlank c = false) {x : Float}
    (h : (value (c :: cs)).1 = .real x) : c = '-' ∨ c.isDigit = true := by
  rw [value_cons hblank] at h
  split_ifs at h with _ _ _ _ _ _ hminus hdigit
  · exact (text_ne_real _ _ _ _ h).elim
  · exact (word_ne_real x (by simp) _ _ h).elim
  · exact (word_ne_real x (by simp) _ _ h).elim
  · exact (word_ne_real x (by simp) _ _ h).elim
  · exact .inl hminus
  · exact .inr hdigit

theorem value_minus (cs : List Char) :
    value ('-' :: cs) = token ('-' :: cs) (number true cs) := by
  rw [value_cons (by decide)]
  rfl

theorem ne_of_isDigit (hc : c.isDigit = true) {e : Char} (he : e.isDigit = false) : c ≠ e := by
  rintro rfl
  simp [hc] at he

theorem isBlank_of_isDigit (hc : c.isDigit = true) : isBlank c = false := by
  have hne : ∀ e, e.isDigit = false → c ≠ e := fun _ => ne_of_isDigit hc
  simp [isBlank, hne ' ' (by decide), hne '\n' (by decide), hne '\t' (by decide),
    hne '\r' (by decide)]

theorem value_digit (hc : c.isDigit = true) (cs : List Char) :
    value (c :: cs) = token (c :: cs) (number false (c :: cs)) := by
  have hne : ∀ e, e.isDigit = false → c ≠ e := fun _ => ne_of_isDigit hc
  rw [value_cons (isBlank_of_isDigit hc), if_neg (hne _ (by decide)), if_neg (hne _ (by decide)),
    if_neg (hne _ (by decide)), if_neg (hne _ (by decide)), if_neg (hne _ (by decide)),
    if_neg (hne _ (by decide)), if_neg (hne _ (by decide)), if_pos hc]

/-! ## Values that stand before others -/

/-- What one token is read as. -/
theorem reads_of_token (hvalue : value cs = token cs (d, some after))
    (hlength : after.length < cs.length) : Reads cs d after := by
  rw [Reads, hvalue]
  exact ⟨rfl, hlength, dif_pos hlength⟩

theorem token_of_reads {read : Draft × Option (List Char)} (h : Reads cs d after)
    (hvalue : value cs = token cs read) : read = (d, some after) := by
  obtain ⟨hdraft, hlength, hafter⟩ := h
  rw [hvalue] at hdraft hafter
  obtain ⟨e, rest⟩ := read
  cases rest with
  | none => cases hafter
  | some rest =>
      simp only [token, Option.bind_some, Rest.of] at hdraft hafter
      split at hafter
      · cases hafter
        exact Prod.ext hdraft rfl
      · cases hafter

/-- A number that ends with the text is read in the same way before what may follow a value. -/
theorem Reads.real_append (hblank : isBlank c = false) {x : Float}
    (h : Reads (c :: cs) (.real x) []) (hafter : Delimited after) :
    Reads (c :: cs ++ after) (.real x) after := by
  have hlength : after.length < (c :: cs ++ after).length := by
    simp only [List.length_append, List.length_cons]
    omega
  obtain rfl | hdigit := number_of_value hblank h.1
  · have hnumber := number_append (token_of_reads h (value_minus cs)) hafter
    exact reads_of_token (hnumber ▸ value_minus (cs ++ after)) hlength
  · have hnumber := number_append (token_of_reads h (value_digit hdigit cs)) hafter
    exact reads_of_token (hnumber ▸ value_digit hdigit (cs ++ after)) hlength

/-! ## Natural numbers -/

/-- Only zero is written with a zero in front. -/
theorem head_toDigits {n : ℕ} (hn : 0 < n) :
    ∃ c cs, Nat.toDigits 10 n = c :: cs ∧ c ≠ '0' := by
  induction n using Nat.strongRecOn with
  | _ n ih =>
      by_cases hsmall : n < 10
      · refine ⟨_, [], Nat.toDigits_of_lt_base hsmall, ?_⟩
        have hdigits : ∀ k < 10, 0 < k → Nat.digitChar k ≠ '0' := by decide
        exact hdigits n hsmall hn
      · obtain ⟨c, cs, hdigits, hc⟩ := ih (n / 10) (by omega) (by omega)
        refine ⟨c, cs ++ [Nat.digitChar (n % 10)], ?_, hc⟩
        rw [Nat.toDigits_of_base_le (by decide : 1 < 10) (Nat.le_of_not_lt hsmall), hdigits]
        rfl

theorem number_toDigits {n : ℕ} (hn : n < UInt64.size) :
    number false (Nat.toDigits 10 n) = (.integer n, some []) := by
  have hall : ∀ c ∈ Nat.toDigits 10 n, c.isDigit = true :=
    fun c hc => Decimal.isDigit_of_mem_toDigits hc
  have htake : (Nat.toDigits 10 n).takeWhile Char.isDigit = Nat.toDigits 10 n :=
    List.takeWhile_eq_self_iff.mpr hall
  have hdrop : (Nat.toDigits 10 n).dropWhile Char.isDigit = [] :=
    List.dropWhile_eq_nil_iff.mpr hall
  have hvalue : Decimal.digitsValue (Nat.toDigits 10 n) = n := Nat.ofDigitChars_ten_toDigits
  have hinteger : integerDraft false (Nat.toDigits 10 n) = .integer n := by
    simp [integerDraft, hvalue, hn]
  unfold number
  simp only [htake, hdrop]
  split
  · rename_i hnil
    exact (Nat.toDigits_ne_nil hnil).elim
  · rename_i hzero
    obtain rfl | hpos := Nat.eq_zero_or_pos n
    · cases hzero
    · obtain ⟨c, cs, hdigits, hc⟩ := head_toDigits hpos
      rw [hdigits] at hzero
      cases hzero
      exact (hc rfl).elim
  · exact hinteger ▸ rfl

/-! ## Values one after another -/

/-- A comma is followed by an item and the others. -/
theorem items_comma {rest : List Char} {h : rest.length < cs.length}
    (hvalue : value cs = (d, some ⟨rest, h⟩)) :
    items false (',' :: cs) = (d :: (items false rest).1, (items false rest).2.1,
      (items false rest).2.2.weaken (Nat.le_succ_of_le (Nat.le_of_lt h))) := by
  rw [items]
  split
  · rename_i h
    cases h
  · rename_i h
    cases h
    rw [if_neg (by decide)]
    simp only [Bool.false_eq_true, if_false, if_true, hvalue]

theorem members_comma (cs : List Char) :
    members false (',' :: cs) = ((member cs).1, (member cs).2.1,
      (member cs).2.2.weaken (Nat.le_succ _)) := by
  rw [members]
  split
  · rename_i h
    cases h
  · rename_i h
    cases h
    rw [if_neg (by decide)]
    simp only [Bool.false_eq_true, if_false, if_true]

theorem Reads.items_comma {rest : List Char} {ds : List Draft} (h : Reads cs d rest)
    (hrest : ReadsItems false rest ds after) : ReadsItems false (',' :: cs) (d :: ds) after := by
  obtain ⟨hshorter, hvalue⟩ := h.value_eq
  obtain ⟨hfound, hending, hlength, hafter⟩ := hrest
  rw [ReadsItems, Reader.items_comma hvalue, hfound, hending, hafter]
  exact ⟨rfl, rfl, Nat.lt_succ_of_lt (Nat.lt_trans hlength hshorter), rfl⟩

theorem ReadsMembers.comma {ms : List (Draft × Draft)} (h : ReadsMembers true ('"' :: cs) ms after) :
    ReadsMembers false (',' :: '"' :: cs) ms after := by
  obtain ⟨hfound, hending, hlength, hafter⟩ := h
  rw [members_first (by decide) (by decide)] at hfound hending hafter
  rw [ReadsMembers, members_comma]
  refine ⟨hfound, hending, Nat.lt_succ_of_lt hlength, ?_⟩
  obtain ⟨rest, hrest, hr⟩ := Option.map_eq_some_iff.mp hafter
  cases hr
  rw [hrest]
  rfl

end Reader

/-! ## What is read of a written value -/

open Reader

/-- The text layer reads this number as it writes it. -/
def ReadsBack (x : Float) : Prop := Reads (realText x).toList (.real x) []

mutual

/-- All numbers inside a value are read back: the doubles, and the integers as they are natural
numbers that fit into a word. -/
def Readable : Json → Prop
  | .integer n => ∃ k < UInt64.size, n = (k : ℕ)
  | .real x => ReadsBack x
  | .array items => ReadableItems items
  | .object members => ReadableMembers members
  | _ => True

def ReadableItems : List Json → Prop
  | [] => True
  | item :: rest => item.Readable ∧ ReadableItems rest

def ReadableMembers : List (String × Json) → Prop
  | [] => True
  | (_, value) :: rest => value.Readable ∧ ReadableMembers rest

end

theorem readableItems_iff {items : List Json} :
    ReadableItems items ↔ ∀ item ∈ items, item.Readable := by
  induction items with
  | nil => simp [ReadableItems]
  | cons item rest ih => simp [ReadableItems, ih]

theorem readableMembers_iff {members : List (String × Json)} :
    ReadableMembers members ↔ ∀ m ∈ members, m.2.Readable := by
  induction members with
  | nil => simp [ReadableMembers]
  | cons m rest ih => simp [ReadableMembers, ih]

/-- What stands between an item and the end of its array. -/
def renderRest : List Json → List Char
  | [] => []
  | item :: rest => ',' :: renderItems (item :: rest)

theorem renderItems_cons (item : Json) (rest : List Json) :
    renderItems (item :: rest) = item.render ++ renderRest rest := by
  cases rest with
  | nil => simp [renderItems, renderRest]
  | cons next rest => rfl

/-- What stands between a member and the end of its object. -/
def renderMore : List (String × Json) → List Char
  | [] => []
  | member :: rest => ',' :: renderMembers (member :: rest)

theorem renderMembers_cons (key : String) (value : Json) (rest : List (String × Json)) :
    renderMembers ((key, value) :: rest) =
      stringText key ++ ':' :: (value.render ++ renderMore rest) := by
  cases rest with
  | nil => simp [renderMembers, renderMore]
  | cons next rest => rfl

/-! ### The first character -/

/-- The text begins neither with a blank nor as if an array ended. -/
def Begun (cs : List Char) : Prop :=
  ∃ c rest, cs = c :: rest ∧ isBlank c = false ∧ c ≠ ']'

theorem Begun.append {cs : List Char} (h : Begun cs) (rest : List Char) : Begun (cs ++ rest) := by
  obtain ⟨c, more, rfl, hc⟩ := h
  exact ⟨c, more ++ rest, rfl, hc⟩

theorem begun_of_isDigit {c : Char} (hc : c.isDigit = true) (rest : List Char) :
    Begun (c :: rest) :=
  ⟨c, rest, rfl, isBlank_of_isDigit hc, ne_of_isDigit hc (by decide)⟩

theorem exists_toDigits (n : ℕ) : ∃ c cs, Nat.toDigits 10 n = c :: cs ∧ c.isDigit = true := by
  cases hdigits : Nat.toDigits 10 n with
  | nil => exact (Nat.toDigits_ne_nil hdigits).elim
  | cons c cs => exact ⟨c, cs, rfl, Decimal.isDigit_of_mem_toDigits (hdigits ▸ List.mem_cons_self)⟩

theorem begun_toDigits (n : ℕ) : Begun (Nat.toDigits 10 n) := by
  obtain ⟨c, cs, hdigits, hc⟩ := exists_toDigits n
  exact hdigits ▸ begun_of_isDigit hc cs

theorem begun_positionalText (keepsPoint : Bool) (d : Decimal.Digits) :
    Begun (Decimal.positionalText keepsPoint d) := by
  obtain ⟨c, cs, hdigits, hc⟩ := exists_toDigits d.digits
  unfold Decimal.positionalText
  dsimp only
  split_ifs with hwhole hpoint
  · exact ((begun_toDigits d.digits).append _).append _
  · exact ((begun_toDigits d.digits).append _).append _
  · obtain ⟨k, hk⟩ := Nat.exists_eq_succ_of_ne_zero
      (show (((Nat.toDigits 10 d.digits).length : ℤ) + d.exponent).toNat ≠ 0 by omega)
    rw [hk, hdigits]
    exact begun_of_isDigit hc _
  · exact begun_of_isDigit (by decide) _

theorem begun_digitsText (layout : Decimal.Layout) (d : Decimal.Digits) :
    Begun (layout.digitsText d) := by
  have hexponent : Begun (Decimal.exponentText d) := by
    obtain ⟨c, cs, hdigits, hc⟩ := exists_toDigits d.digits
    simp only [Decimal.exponentText, hdigits]
    exact begun_of_isDigit hc _
  unfold Decimal.Layout.digitsText
  dsimp only
  split
  · split
    · exact begun_positionalText _ d
    · exact hexponent
  · exact begun_positionalText _ d

theorem begun_realText (x : Float) : Begun (realText x).toList := by
  unfold realText Decimal.Layout.text
  split
  · split
    · exact ⟨'N', _, rfl, by decide, by decide⟩
    · split
      · exact ⟨'-', _, rfl, by decide, by decide⟩
      · exact ⟨'i', _, rfl, by decide, by decide⟩
    · rw [String.toList_ofList]
      split
      · exact ⟨'-', _, rfl, by decide, by decide⟩
      · rw [List.nil_append]
        exact begun_digitsText _ _
  · exact ⟨'n', _, rfl, by decide, by decide⟩

theorem begun_render (value : Json) : Begun value.render := by
  cases value with
  | null => exact ⟨'n', _, rfl, by decide, by decide⟩
  | bool b =>
      cases b
      · exact ⟨'f', _, rfl, by decide, by decide⟩
      · exact ⟨'t', _, rfl, by decide, by decide⟩
  | integer n =>
      rw [render]
      split
      · exact ⟨'-', _, rfl, by decide, by decide⟩
      · exact begun_toDigits _
  | real x => exact begun_realText x
  | string s => exact ⟨'"', _, rfl, by decide, by decide⟩
  | array items => exact ⟨'[', _, rfl, by decide, by decide⟩
  | object members => exact ⟨'\x7b', _, rfl, by decide, by decide⟩

/-! ### The whole text -/

theorem delimited_renderRest (items : List Json) (after : List Char) :
    Delimited (renderRest items ++ ']' :: after) := by
  cases items with
  | nil => exact .inr (.inl rfl)
  | cons item rest => exact .inl rfl

theorem delimited_renderMore (members : List (String × Json)) (after : List Char) :
    Delimited (renderMore members ++ '\x7d' :: after) := by
  cases members with
  | nil => exact .inr (.inr rfl)
  | cons item rest => exact .inl rfl

theorem reads_stringText (s : String) (after : List Char) :
    Reads (stringText s ++ after) (.string s) after := by
  have htext : text [] false (s.toList.flatMap escapeChar ++ '"' :: after) =
      (.string s, some after) := by
    rw [text_escaped, List.reverse_nil, List.nil_append, String.ofList_toList]
  have hcs : stringText s ++ after = '"' :: (s.toList.flatMap escapeChar ++ '"' :: after) := by
    simp [stringText]
  rw [hcs]
  refine reads_of_token (htext ▸ value_quote _) ?_
  simp only [List.length_cons, List.length_append]
  omega

theorem word_append (d : Draft) (name after : List Char) :
    word d name (name ++ after) = (d, some after) := by
  induction name with
  | nil => rfl
  | cons c name ih => simpa [word] using ih

/-- What a literal name is read as. -/
theorem reads_word (name : List Char) {c : Char} {d : Draft} {after : List Char}
    (h : value (c :: (name ++ after)) = token _ (word d name (name ++ after))) :
    Reads (c :: (name ++ after)) d after := by
  refine reads_of_token (word_append d name after ▸ h) ?_
  simp only [List.length_cons, List.length_append]
  omega

theorem reads_null (after : List Char) : Reads ("null".toList ++ after) .null after :=
  reads_word "ull".toList ((value_cons (by decide) _).trans rfl)

theorem reads_bool (b : Bool) (after : List Char) :
    Reads ((Json.bool b).render ++ after) (.bool b) after := by
  cases b with
  | true => exact reads_word "rue".toList ((value_cons (by decide) _).trans rfl)
  | false => exact reads_word "alse".toList ((value_cons (by decide) _).trans rfl)

theorem reads_toDigits {n : ℕ} (hn : n < UInt64.size) {after : List Char}
    (hafter : Delimited after) : Reads (Nat.toDigits 10 n ++ after) (.integer n) after := by
  obtain ⟨c, cs, hdigits, hc⟩ := exists_toDigits n
  have hnumber := number_append (number_toDigits hn) hafter
  rw [hdigits] at hnumber ⊢
  refine reads_of_token (hnumber ▸ value_digit hc (cs ++ after)) ?_
  simp only [List.length_append, List.length_cons]
  omega

mutual

/-- What is written of a value is read as that value, whatever may follow a value. -/
theorem reads_render (value : Json) (h : value.Readable) {after : List Char}
    (hafter : Delimited after) : Reads (value.render ++ after) (Draft.ofJson value) after := by
  match value, h with
  | .null, _ => exact reads_null after
  | .bool b, _ => exact reads_bool b after
  | .integer n, h =>
      obtain ⟨k, hk, rfl⟩ := h
      have hdigits : render (.integer k) = Nat.toDigits 10 k := by simp [render]
      rw [hdigits]
      exact reads_toDigits hk hafter
  | .real x, h =>
      obtain ⟨c, more, hcs, hblank, -⟩ := begun_realText x
      rw [Readable, ReadsBack, hcs] at h
      rw [render, hcs]
      exact h.real_append hblank hafter
  | .string s, _ => exact reads_stringText s after
  | .array [], _ => exact (readsItems_end true after).array
  | .array (item :: rest), h =>
      obtain ⟨c, more, hcs, hblank, hend⟩ := begun_render item
      have hitem := reads_render item h.1 (delimited_renderRest rest after)
      rw [hcs] at hitem
      have hitems := (hitem.items hblank hend (readsItems_renderRest rest h.2 after)).array
      rw [render, renderItems_cons, hcs]
      simpa [Draft.ofJson, Draft.ofItems] using hitems
  | .object members, h =>
      have hmembers := (readsMembers_renderMembers members h after).object
      simpa [render, Draft.ofJson] using hmembers

theorem readsItems_renderRest (items : List Json) (h : ReadableItems items) (after : List Char) :
    ReadsItems false (renderRest items ++ ']' :: after) (Draft.ofItems items) after := by
  match items, h with
  | [], _ => exact readsItems_end false after
  | item :: rest, h =>
      have hitem := reads_render item h.1 (delimited_renderRest rest after)
      have hrest := hitem.items_comma (readsItems_renderRest rest h.2 after)
      rw [renderRest, renderItems_cons]
      simpa [Draft.ofItems] using hrest

theorem readsMembers_renderMembers (members : List (String × Json)) (h : ReadableMembers members)
    (after : List Char) :
    ReadsMembers true (renderMembers members ++ '\x7d' :: after) (Draft.ofMembers members) after := by
  match members, h with
  | [], _ => exact readsMembers_end true after
  | (key, value) :: rest, h =>
      have hvalue := reads_render value h.1 (delimited_renderMore rest after)
      have hrest : ReadsMembers false (renderMore rest ++ '\x7d' :: after) (Draft.ofMembers rest)
          after := by
        match rest, h.2 with
        | [], _ => exact readsMembers_end false after
        | (nextKey, next) :: more, h =>
            have hmore := readsMembers_renderMembers ((nextKey, next) :: more) h after
            have hcs : renderMembers ((nextKey, next) :: more) = '"' :: (nextKey.toList.flatMap
                escapeChar ++ '"' :: ':' :: (next.render ++ renderMore more)) := by
              simp [renderMembers_cons, stringText]
            rw [hcs] at hmore
            rw [renderMore, hcs]
            exact hmore.comma
      have hkey := text_escaped [] key.toList
        (':' :: (value.render ++ (renderMore rest ++ '\x7d' :: after)))
      have hmember := hvalue.members hkey (by simp; omega) hrest
      rw [renderMembers_cons]
      simpa [stringText, Draft.ofMembers] using hmember

end

/-- The text of a value is read as that value and nothing else. -/
theorem read_compact {value : Json} (h : value.Readable) :
    read value.compact = (Draft.ofJson value, false) := by
  have hreads : Reads value.compact.toList (Draft.ofJson value) [] := by
    simpa [compact] using reads_render value h (show Delimited [] from trivial)
  obtain ⟨hlength, hvalue⟩ := hreads.value_eq
  unfold read
  rw [hvalue]
  rfl

/-- What a decoder makes of a value it makes of the text of the value. -/
theorem Decoder.ofText_compact {α : Type} {decoder : Decoder α} {value : Json} {a : α}
    (h : value.Readable) (hdecoder : decoder .text (Draft.ofJson value) = .ok a) :
    decoder.ofText value.compact = .ok a := by
  unfold ofText
  rw [read_compact h]
  simp only [hdecoder]
  rfl

/-! ## Tenths -/

/-- A number of tenths below ten is read back where dividing by ten is exact. -/
theorem readsBack_of_tenths {x : Float} {a b : Char} {n : ℕ} (ha : a.isDigit = true)
    (hb : b.isDigit = true) (hwhole : (absorb 0 0 [a]).2 = 1)
    (htenths : absorb (absorb 0 0 [a]).1 0 [b] = (n, 1))
    (htext : (realText x).toList = [a, '.', b]) (hx : n.toUInt64.toFloat / powerOfTen 1 = x) :
    ReadsBack x := by
  have hscale : ∀ y : Float, scale y (-1) = some (y / powerOfTen 1) := by
    intro y
    rw [scale]
    rfl
  have hreal : realDraft false [a] [b] 0 = .real x := by
    unfold realDraft
    simp only [htenths, hwhole]
    simp [hscale, hx]
  have hnumber : number false [a, '.', b] = (.real x, some []) := by
    simp [number, ha, hb, hreal]
  rw [ReadsBack, htext]
  exact reads_of_token (hnumber ▸ value_digit ha _) (by simp)

end Slideshow.Json
