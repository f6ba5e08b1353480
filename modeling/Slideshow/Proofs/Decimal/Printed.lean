import Slideshow.Decimal.Reader
import Slideshow.Proofs.Scene.Aspect
import Slideshow.Proofs.Filter.Label
import Mathlib.Data.List.TakeWhile

/-! # Printed numbers

What a number that was printed stands for when its text is read as a decimal. Six places are kept in
filter expressions and three in input options, so a number that is too small is printed as zero, and
two that are close to one another are printed alike. -/

namespace Slideshow

namespace Decimal

/-- What a text of digits, with at most one point among them, stands for. -/
def rational? (cs : List Char) : Option ℚ :=
  if cs.all fun c => c.isDigit || c == '.' then
    (numeral? false cs).map fun n => n.digits * 10 ^ n.exponent
  else none

variable {cs whole fraction : List Char} {k n : ℕ}

/-- Nothing but digits. -/
def Digital (cs : List Char) : Prop := ∀ c ∈ cs, c.isDigit = true

theorem digital_toDigits (n : ℕ) : Digital (Nat.toDigits 10 n) :=
  fun _ hc => isDigit_of_mem_toDigits hc

theorem digital_zeros (k : ℕ) : Digital (zeros k) := by
  intro c hc
  rw [List.eq_of_mem_replicate hc]
  rfl

theorem Digital.append {cs' : List Char} (h : Digital cs) (h' : Digital cs') :
    Digital (cs ++ cs') := fun c hc => (List.mem_append.mp hc).elim (h c) (h' c)

/-! ## The value of digits -/

theorem digitsValue_append_zeros (cs : List Char) (k : ℕ) :
    digitsValue (cs ++ zeros k) = digitsValue cs * 10 ^ k := by
  induction k with
  | zero => simp [zeros]
  | succ k ih =>
      rw [zeros, List.replicate_succ', ← List.append_assoc, digitsValue, List.foldl_append]
      change 10 * digitsValue (cs ++ zeros k) + 0 = _
      rw [ih, pow_succ]
      ring

theorem digitsValue_zeros_append (k : ℕ) (cs : List Char) :
    digitsValue (zeros k ++ cs) = digitsValue cs := by
  induction k with
  | zero => rfl
  | succ k ih => exact ih

theorem digitsValue_toDigits (n : ℕ) : digitsValue (Nat.toDigits 10 n) = n :=
  Nat.ofDigitChars_ten_toDigits

/-! ## Reading decimals -/

theorem rational?_whole (h : Digital whole) (hne : whole ≠ []) :
    rational? whole = some (digitsValue whole : ℚ) := by
  have htake : whole.takeWhile Char.isDigit = whole := List.takeWhile_eq_self_iff.mpr h
  have hdrop : whole.dropWhile Char.isDigit = [] := List.dropWhile_eq_nil_iff.mpr h
  have hall : (whole.all fun c => c.isDigit || c == '.') = true :=
    List.all_eq_true.mpr fun c hc => by rw [h c hc, Bool.true_or]
  have hnumeral : numeral? false whole = some ⟨false, digitsValue whole, 0⟩ := by
    simp [numeral?, htake, hdrop, hne, exponentValue?]
  rw [rational?, if_pos hall, hnumeral]
  simp

theorem rational?_fraction (h : Digital whole) (hne : whole ≠ []) (h' : Digital fraction) :
    rational? (whole ++ '.' :: fraction) =
      some ((digitsValue (whole ++ fraction) : ℚ) / 10 ^ fraction.length) := by
  have hall : ((whole ++ '.' :: fraction).all fun c => c.isDigit || c == '.') = true := by
    rw [List.all_eq_true]
    intro c hc
    rcases List.mem_append.mp hc with hc | hc
    · rw [h c hc, Bool.true_or]
    · rcases List.mem_cons.mp hc with rfl | hc
      · rfl
      · rw [h' c hc, Bool.true_or]
  have htake : (whole ++ '.' :: fraction).takeWhile Char.isDigit = whole := by
    rw [List.takeWhile_append_of_pos h, List.takeWhile_cons_of_neg (by decide), List.append_nil]
  have hdrop : (whole ++ '.' :: fraction).dropWhile Char.isDigit = '.' :: fraction := by
    rw [List.dropWhile_append_of_pos h, List.dropWhile_cons_of_neg (by decide)]
  have htake' : fraction.takeWhile Char.isDigit = fraction := List.takeWhile_eq_self_iff.mpr h'
  have hdrop' : fraction.dropWhile Char.isDigit = [] := List.dropWhile_eq_nil_iff.mpr h'
  have hnumeral : numeral? false (whole ++ '.' :: fraction) =
      some ⟨false, digitsValue (whole ++ fraction), -fraction.length⟩ := by
    simp [numeral?, htake, hdrop, htake', hdrop', hne, exponentValue?]
  rw [rational?, if_pos hall, hnumeral]
  simp [div_eq_mul_inv]

/-! ## Places -/

/-- A number with places is written as digits, a point, and as many digits. -/
theorem exists_placesText (hk : 0 < k) (n : ℕ) :
    ∃ whole fraction, placesText k n = whole ++ '.' :: fraction ∧ whole ≠ [] ∧ Digital whole ∧
      Digital fraction ∧ fraction.length = k ∧ digitsValue (whole ++ fraction) = n := by
  set cs := zeros (k + 1 - (Nat.toDigits 10 n).length) ++ Nat.toDigits 10 n with hcs
  have hlength : k < cs.length := by
    simp only [hcs, zeros, List.length_append, List.length_replicate]
    omega
  have hdigital : Digital cs := (digital_zeros _).append (digital_toDigits n)
  refine ⟨cs.take (cs.length - k), cs.drop (cs.length - k), ?_, ?_, ?_, ?_, ?_, ?_⟩
  · rw [placesText, if_neg hk.ne']
  · exact List.ne_nil_of_length_pos (by rw [List.length_take]; omega)
  · exact fun c hc => hdigital c (List.mem_of_mem_take hc)
  · exact fun c hc => hdigital c (List.mem_of_mem_drop hc)
  · rw [List.length_drop]
    omega
  · rw [List.take_append_drop, hcs, digitsValue_zeros_append, digitsValue_toDigits]

theorem rational?_placesText (hk : 0 < k) (n : ℕ) :
    rational? (placesText k n) = some ((n : ℚ) / 10 ^ k) := by
  obtain ⟨whole, fraction, htext, hne, hwhole, hfraction, rfl, rfl⟩ := exists_placesText hk n
  rw [htext, rational?_fraction hwhole hne hfraction]

/-! ## Millionths -/

/-- A text without the zeros at its end, and without a point that is left there. -/
def trimmed (cs : List Char) : List Char :=
  (match cs.reverse.dropWhile (· = '0') with
    | '.' :: whole => whole
    | cs => cs).reverse

/-- The zeros behind the point are left out, and the point with them if nothing else is behind
it. -/
theorem exists_trimmed (h : Digital fraction) (whole : List Char) :
    ∃ kept j, fraction = kept ++ zeros j ∧
      trimmed (whole ++ '.' :: fraction) = if kept = [] then whole else whole ++ '.' :: kept := by
  set left := fraction.reverse.dropWhile (· = '0') with hleft
  set cut := fraction.reverse.takeWhile (· = '0') with hcut
  have hzeros : cut.reverse = zeros cut.length := by
    refine List.eq_replicate_of_mem (fun c hc => ?_) |>.trans (by rw [List.length_reverse]; rfl)
    simpa using List.mem_takeWhile_imp (List.mem_reverse.mp hc)
  have hsplit : fraction = left.reverse ++ zeros cut.length := by
    have hparts : cut ++ left = fraction.reverse := List.takeWhile_append_dropWhile
    rw [← hzeros, ← List.reverse_append, hparts, List.reverse_reverse]
  refine ⟨left.reverse, cut.length, hsplit, ?_⟩
  have hreverse : (whole ++ '.' :: fraction).reverse.dropWhile (· = '0') =
      if left = [] then '.' :: whole.reverse else left ++ '.' :: whole.reverse := by
    rw [List.reverse_append, List.reverse_cons, List.append_assoc, List.singleton_append,
      List.dropWhile_append, ← hleft]
    simp
  rw [trimmed, hreverse]
  cases hcases : left with
  | nil => simp
  | cons c rest =>
      have hdigit : c.isDigit = true := h c (by
        rw [hsplit, hcases]
        simp)
      have hpoint : c ≠ '.' := by
        rintro rfl
        cases hdigit
      simp [hpoint]

theorem rational?_millionthsText (n : ℕ) :
    rational? (millionthsText n).toList = some ((n : ℚ) / 10 ^ 6) := by
  obtain ⟨whole, fraction, htext, hne, hwhole, hfraction, hlength, hvalue⟩ :=
    exists_placesText (k := 6) (by decide) n
  obtain ⟨kept, j, rfl, htrimmed⟩ := exists_trimmed hfraction whole
  have hmillionths : (millionthsText n).toList =
      if kept = [] then whole else whole ++ '.' :: kept := by
    have hnonneg : ¬ (n : ℤ) < 0 := by omega
    rw [← htrimmed, ← htext, millionthsText, if_neg hnonneg, String.toList_ofList, List.nil_append,
      Int.natAbs_natCast]
    rfl
  have hkept : Digital kept := fun c hc => hfraction c (List.mem_append_left _ hc)
  rw [← List.append_assoc, digitsValue_append_zeros] at hvalue
  rw [List.length_append, zeros, List.length_replicate] at hlength
  rw [hmillionths, ← hvalue, ← hlength]
  split
  · next hnil =>
      subst hnil
      rw [rational?_whole hwhole hne]
      simp
  · rw [rational?_fraction hwhole hne hkept]
    simp [pow_add, mul_div_mul_right]

/-- The number of millionths that a number is printed with. -/
def millionths (x : ℚ) : ℕ := ⌊x * 1000000 + 1 / 2⌋₊

/-- A text that stands for a number greater than zero. -/
def Positive (cs : List Char) : Prop := ∃ v, rational? cs = some v ∧ 0 < v

/-- Texts that stand for two numbers of which the first is smaller. -/
def Before (cs cs' : List Char) : Prop :=
  ∃ u v, rational? cs = some u ∧ rational? cs' = some v ∧ u < v

instance (cs : List Char) : Decidable (Positive cs) :=
  decidable_of_iff ((rational? cs).any (0 < ·) = true) (by simp [Positive, Option.any_eq_true])

instance (cs cs' : List Char) : Decidable (Before cs cs') :=
  decidable_of_iff ((rational? cs).any (fun u => (rational? cs').any (u < ·)) = true)
    (by simp [Before, Option.any_eq_true])

variable {x y : ℚ}

theorem rational?_filterText (hx : 0 ≤ x) :
    rational? (Scalar.filterText x).toList = some ((millionths x : ℚ) / 10 ^ 6) := by
  have htext : Scalar.filterText x = millionthsText (millionths x) := by
    have hscaled : 0 ≤ x * 1000000 := by linarith
    change millionthsText (nearestInt (x * 1000000)) = _
    rw [SceneOptions.nearestInt_of_nonneg hscaled]
    rfl
  rw [htext, rational?_millionthsText]

theorem positive_filterText (hx : 0 ≤ x) :
    Positive (Scalar.filterText x).toList ↔ 1 / 2000000 ≤ x := by
  have hone : 1 ≤ millionths x ↔ 1 / 2000000 ≤ x := by
    rw [millionths, Nat.one_le_floor_iff]
    constructor <;> intro h <;> linarith
  rw [Positive, rational?_filterText hx, ← hone]
  simp [Nat.one_le_iff_ne_zero, Nat.pos_iff_ne_zero]

theorem before_filterText (hx : 0 ≤ x) (hy : 0 ≤ y) :
    Before (Scalar.filterText x).toList (Scalar.filterText y).toList ↔
      millionths x < millionths y := by
  rw [Before, rational?_filterText hx, rational?_filterText hy]
  simp [div_lt_div_iff_of_pos_right]

/-! ## Three places -/

theorem le_choose (tie : Tie) (low twice whole : ℕ) : low ≤ tie.choose low twice whole := by
  unfold Tie.choose
  split
  · exact le_rfl
  · split
    · exact Nat.le_succ low
    · cases tie with
      | up => exact Nat.le_succ low
      | even =>
          dsimp only
          split <;> omega

/-- A half is rounded down to zero. -/
theorem roundDiv_even_pos (p : ℕ) {q : ℕ} (hq : 0 < q) : 0 < roundDiv .even p q ↔ q < 2 * p := by
  rcases Nat.lt_or_ge p q with hlt | hge
  · rw [roundDiv, Nat.div_eq_of_lt hlt, Nat.mod_eq_of_lt hlt, Tie.choose]
    split
    · omega
    · split
      · omega
      · simp
        omega
  · have hpos : 0 < p / q := Nat.div_pos hge hq
    have hle := le_choose .even (p / q) (2 * (p % q)) q
    rw [roundDiv]
    omega

theorem positive_inputText (hx : 0 ≤ x) : Positive (Scalar.inputText x).toList ↔ 1 / 2000 < x := by
  have hnonneg : ¬ x < 0 := not_lt.mpr hx
  have htext : (Scalar.inputText x).toList =
      placesText 3 (roundDiv .even (x.num.toNat * 1000) x.den) := by
    simp [Scalar.inputText, hnonneg]
  have hvalue : x = (x.num.toNat : ℚ) / x.den := by
    have hnum : (x.num.toNat : ℤ) = x.num := Int.toNat_of_nonneg (Rat.num_nonneg.mpr hx)
    conv_lhs => rw [← Rat.num_div_den x, ← hnum]
    rfl
  have hden : (0 : ℚ) < x.den := by exact_mod_cast x.den_pos
  have hhalf : x.den < 2 * (x.num.toNat * 1000) ↔ 1 / 2000 < x := by
    conv_rhs => rw [hvalue, div_lt_div_iff₀ (by norm_num) hden, one_mul]
    rw [← Nat.cast_lt (α := ℚ)]
    push_cast
    constructor <;> intro h <;> linarith
  rw [Positive, htext, rational?_placesText (by decide), ← hhalf, ← roundDiv_even_pos _ x.den_pos]
  simp

/-! ## Characters -/

/-- What numbers are written with: letters, where a number is not finite, digits, points and
signs. -/
def Numeric (cs : List Char) : Prop := ∀ c ∈ cs, c.isAlphanum = true ∨ c = '.' ∨ c = '-'

instance (cs : List Char) : Decidable (Numeric cs) := List.decidableBAll _ _

theorem Digital.numeric (h : Digital cs) : Numeric cs := fun c hc =>
  .inl (by rw [Char.isAlphanum, h c hc, Bool.or_true])

theorem Numeric.append {cs' : List Char} (h : Numeric cs) (h' : Numeric cs') :
    Numeric (cs ++ cs') :=
  List.forall_mem_append.mpr ⟨h, h'⟩

theorem numeric_point (h : Digital whole) (h' : Digital fraction) :
    Numeric (whole ++ '.' :: fraction) :=
  h.numeric.append (List.forall_mem_cons.mpr ⟨.inr (.inl rfl), h'.numeric⟩)

theorem numeric_sign (negative : Prop) [Decidable negative] :
    Numeric (if negative then ['-'] else []) := by
  split <;> decide

theorem numeric_natText (n : ℕ) : Numeric (natText n).toList := by
  rw [toList_natText]
  exact (digital_toDigits n).numeric

theorem numeric_filterText (x : ℚ) : Numeric (Scalar.filterText x).toList := by
  change Numeric (millionthsText (nearestInt (x * 1000000))).toList
  set n := nearestInt (x * 1000000)
  obtain ⟨whole, fraction, htext, -, hwhole, hfraction, -, -⟩ :=
    exists_placesText (k := 6) (by decide) n.natAbs
  obtain ⟨kept, j, rfl, htrimmed⟩ := exists_trimmed hfraction whole
  have hmillionths : (millionthsText n).toList = (if n < 0 then ['-'] else []) ++
      if kept = [] then whole else whole ++ '.' :: kept := by
    rw [← htrimmed, ← htext, millionthsText, String.toList_ofList]
    rfl
  rw [hmillionths]
  refine (numeric_sign _).append ?_
  split
  · exact hwhole.numeric
  · exact numeric_point hwhole fun c hc => hfraction c (List.mem_append_left _ hc)

theorem numeric_positionalText (keepsPoint : Bool) (digits : Digits) :
    Numeric (positionalText keepsPoint digits) := by
  have hdigits := digital_toDigits digits.digits
  unfold positionalText
  dsimp only
  split
  · refine (hdigits.append (digital_zeros _)).numeric.append ?_
    split <;> decide
  · split
    · exact numeric_point (fun c hc => hdigits c (List.mem_of_mem_take hc))
        fun c hc => hdigits c (List.mem_of_mem_drop hc)
    · exact numeric_point (digital_zeros 1) ((digital_zeros _).append hdigits)

theorem numeric_floatFilterText (x : Float) : Numeric (Scalar.filterText x).toList := by
  change Numeric (floatFilterText x).toList
  unfold floatFilterText
  dsimp only
  split
  · decide
  · unfold Layout.text
    split
    · decide
    · split <;> decide
    · rw [String.toList_ofList]
      exact (numeric_sign _).append (numeric_positionalText _ _)

end Decimal

end Slideshow
