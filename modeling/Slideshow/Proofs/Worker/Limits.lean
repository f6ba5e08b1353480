import Slideshow.Proofs.Decimal.Double
import Slideshow.Proofs.Scene.Aspect
import Slideshow.Proofs.Worker.Request

/-! # The limits of a frame

Sides that are asked for are checked, and they stay within the limits when they are made even. A
side that follows the source is not checked: it is within the limits exactly where the ratio of the
source puts it there, and so are the options in which the worker fixes both sides. Lengths are
doubles here. The quotient that derives a side is rounded, but no whole number lies between it and
the exact one, so neither of the limits is missed. -/

namespace Slideshow

namespace SceneOptions

open Double

/-- A number of pixels that may be asked for. -/
def Side.Admissible (n : ℕ) : Prop := minDimension ≤ n ∧ n ≤ maxDimension

instance (n : ℕ) : Decidable (Side.Admissible n) := inferInstanceAs (Decidable (_ ∧ _))

/-- The pixels that are asked for along a side. -/
def given {α : Type} (o : SceneOptions α) : Side → Option ℕ
  | .width => o.width
  | .height => o.height

/-- The even count of a length fits into a word. -/
def FitsWord {α : Type} [Scalar α] (length : α) : Prop :=
  Scalar.nearestNat maxWord32 (length / Scalar.ofNat 2) * 2 < UInt32.size

/-- What holds of the size for a source, and of the options in which the worker fixes it. -/
structure Limits (o : SceneOptions Float) (source : ℕ × ℕ) : Prop where
  given : ∀ side n, o.given side = some n →
    FitsWord (Scalar.ofNat n : Float) ∧ side.of (o.resolveSize (some source)) = n + n % 2 ∧
      Side.Admissible (n + n % 2)
  /-- Where no side follows the source. -/
  settled : o.needsSourceSize = false →
    ∀ side : Side, Side.Admissible (side.of (o.resolveSize (some source)))
  /-- Where a side follows the source, and the source prescribes a length for it that can be
  counted. -/
  derived : ∀ side n, o.Asks side n → across side source n < UInt32.size - 1 →
    FitsWord (derivedLength n (some (side.of source, side.other.of source)) : Float) ∧
      (Side.Admissible (side.other.of (o.resolveSize (some source))) ↔
        15 ≤ across side source n ∧ across side source n < 7681)
  fixed : (o.sized source).validate = .ok () ↔
    ∀ side : Side, Side.Admissible (side.of (o.resolveSize (some source)))

/-! ## Counting in doubles -/

variable {x : Float} {v : ℚ} {n along opposite : ℕ} {side : Side} {source : ℕ × ℕ}

/-- The pixels that a double is rounded to depend on the whole part of the number that it stands
for. -/
theorem nearestNat_half (h : Stands x v) (hv : InRange (v / 2)) :
    Scalar.nearestNat maxWord32 (x / Scalar.ofNat 2) = min maxWord32 ((⌊v⌋₊ + 1) / 2) := by
  obtain ⟨w, hw, hround⟩ := h.div (stands_ofNat (n := 2) two_pos (by norm_num))
    (by rwa [Nat.cast_ofNat])
  -- halving is exact
  have hexact : w = v / 2 := by
    obtain ⟨m, e, -, -, -, hm, -, -, rfl⟩ := h
    rw [Nat.cast_ofNat] at hround
    refine hround.exact m (e - 1) hm ?_
    rw [zpow_sub_one₀ two_ne_zero, mul_div_assoc, div_eq_mul_inv (2 ^ e : ℚ)]
  have hfloor : ⌊v / 2 + 1 / 2⌋₊ = (⌊v⌋₊ + 1) / 2 := by
    have hpos : 0 ≤ v := by
      have := (two_zpow_pos (-1000)).le.trans hv.1
      linarith
    rw [← add_div, ← Nat.cast_ofNat (R := ℚ) (n := 2), Nat.floor_div_natCast,
      Nat.floor_add_one hpos]
  change Scalar.nearestNat maxWord32 (x / Float.ofNat 2) = _
  rw [hw.nearestNat_eq, hexact, hfloor]

theorem evenCount_of_stands (h : Stands x v) (hv : InRange (v / 2)) (hfits : ⌊v⌋₊ < maxWord32) :
    FitsWord x ∧ evenCount x = max 2 ((⌊v⌋₊ + 1) / 2 * 2) := by
  have hword : (⌊v⌋₊ + 1) / 2 * 2 < UInt32.size := by
    simp only [maxWord32, UInt32.size] at hfits ⊢
    omega
  have hnearest : Scalar.nearestNat maxWord32 (x / Scalar.ofNat 2) = (⌊v⌋₊ + 1) / 2 := by
    rw [nearestNat_half h hv]
    omega
  rw [FitsWord, evenCount, hnearest, Nat.mod_eq_of_lt hword]
  exact ⟨hword, rfl⟩

theorem inRange_of_le (hlow : 1 / 2 ^ 64 ≤ v) (hhigh : v ≤ 2 ^ 64) : InRange v := by
  constructor
  · refine le_trans ?_ hlow
    rw [one_div, ← zpow_natCast, ← zpow_neg]
    exact zpow_le_zpow_right₀ one_le_two (by norm_num)
  · refine hhigh.trans ?_
    rw [← zpow_natCast]
    exact zpow_le_zpow_right₀ one_le_two (by norm_num)

/-- The length that is derived in doubles has the whole part of the one the source prescribes. -/
theorem exists_stands_derivedLength (hn : 0 < n ∧ n ≤ maxDimension)
    (halong : 0 < along ∧ along < UInt32.size) (hopposite : 0 < opposite ∧ opposite < UInt32.size) :
    ∃ w, Stands (derivedLength n (some (along, opposite))) w ∧ InRange (w / 2) ∧
      ⌊w⌋₊ = n * opposite / along := by
  simp only [maxDimension, UInt32.size] at hn halong hopposite
  have hsmall : n * opposite < 2 ^ 45 := by nlinarith
  have hpos : 0 < n * opposite := Nat.mul_pos hn.1 hopposite.1
  obtain ⟨p, hp, hproduct⟩ := (stands_ofNat hn.1 (by omega)).mul
    (stands_ofNat hopposite.1 (by omega)) (by
      rw [← Nat.cast_mul]
      exact inRange_natCast hpos (by omega))
  rw [← Nat.cast_mul] at hproduct
  obtain rfl := hproduct.eq_natCast (by omega)
  have halong' : (0 : ℚ) < along := by exact_mod_cast halong.1
  have hlow : 1 / 2 ^ 32 ≤ ((n * opposite : ℕ) : ℚ) / along := by
    rw [div_le_div_iff₀ (by positivity) halong', one_mul]
    exact_mod_cast (by nlinarith : along ≤ n * opposite * 2 ^ 32)
  have hhigh : ((n * opposite : ℕ) : ℚ) / along ≤ 2 ^ 45 := by
    rw [div_le_iff₀ halong']
    exact_mod_cast (by nlinarith : n * opposite ≤ 2 ^ 45 * along)
  obtain ⟨w, hw, hround⟩ := hp.div (stands_ofNat halong.1 (by omega))
    (inRange_of_le (by linarith) (by linarith))
  have hlength : (derivedLength n (some (along, opposite)) : Float) =
      Float.ofNat n * Float.ofNat opposite / Float.ofNat along := if_pos halong.1
  have hnear := abs_le.mp hround.near
  refine ⟨w, hlength ▸ hw, inRange_of_le ?_ ?_, hround.floor_eq (by omega) halong.1⟩ <;> linarith

/-! ## The limits -/

theorem fitsWord_ofNat (hpos : 0 < n) (hn : n ≤ maxDimension) :
    FitsWord (Scalar.ofNat n : Float) ∧ evenCount (Scalar.ofNat n : Float) = n + n % 2 := by
  simp only [maxDimension] at hn
  have hcast : (1 : ℚ) ≤ n ∧ (n : ℚ) ≤ 2 ^ 53 := by
    constructor
    · exact_mod_cast hpos
    · exact_mod_cast (by omega : n ≤ 2 ^ 53)
  obtain ⟨hfitsWord, hcount⟩ := evenCount_of_stands (stands_ofNat hpos (by omega))
    (inRange_of_le (by linarith) (by linarith))
    (by rw [Nat.floor_natCast]; simp only [maxWord32, UInt32.size]; omega)
  rw [Nat.floor_natCast] at hcount
  exact ⟨hfitsWord, hcount.trans (by omega)⟩

theorem admissible_even (h : Side.Admissible n) : Side.Admissible (n + n % 2) := by
  unfold Side.Admissible minDimension maxDimension at *
  omega

theorem admissible_of_given {α : Type} [Scalar α] {o : SceneOptions α} (ho : o.validate = .ok ())
    (h : o.given side = some n) : Side.Admissible n := by
  have haccepted := accepted_of_validate ho
  cases side with
  | width =>
      have hwidth : o.width = some n := h
      exact bounds_of_checkSide (hwidth ▸ haccepted.width)
  | height =>
      have hheight : o.height = some n := h
      exact bounds_of_checkSide (hheight ▸ haccepted.height)

/-- A side that is asked for is made even, whatever becomes of the other. -/
theorem of_resolveSize_given {α : Type} [Scalar α] {o : SceneOptions α}
    (h : o.given side = some n) (source : Option (ℕ × ℕ)) :
    side.of (o.resolveSize source) = evenCount (Scalar.ofNat n : α) := by
  cases side with
  | width =>
      have hwidth : o.width = some n := h
      rw [resolveSize, hwidth]
      cases o.height <;> rfl
  | height =>
      have hheight : o.height = some n := h
      rw [resolveSize, hheight]
      cases o.width <;> rfl

theorem floor_across (side : Side) (source : ℕ × ℕ) (n : ℕ) :
    ⌊across side source n⌋₊ = n * side.other.of source / side.of source := by
  rw [across, ← Nat.cast_mul, Nat.floor_div_eq_div]

theorem admissible_count (k : ℕ) :
    Side.Admissible (max 2 ((k + 1) / 2 * 2)) ↔ 15 ≤ k ∧ k < 7681 := by
  unfold Side.Admissible minDimension maxDimension
  omega

theorem checkSide_some (side : Side) (n : ℕ) :
    checkSide side (some n) = .ok () ↔ Side.Admissible n := by
  simp [checkSide, Side.Admissible]

/-- Options that are accepted are so with other sides exactly where these sides are. -/
theorem validate_with_sides {α : Type} [Scalar α] {o : SceneOptions α} (ho : o.validate = .ok ())
    (w h : Option ℕ) :
    ({ o with width := w, height := h } : SceneOptions α).validate = .ok () ↔
      checkSide .width w = .ok () ∧ checkSide .height h = .ok () := by
  simp only [validate] at ho ⊢
  split_ifs at ho ⊢
  cases checkSide .width w <;> cases checkSide .height h <;> simp [bind, Except.bind]

variable {o : SceneOptions Float}

theorem derived_of_asks (ho : o.validate = .ok ()) (hsource : 0 < source.1 ∧ 0 < source.2)
    (hword : source.1 < UInt32.size ∧ source.2 < UInt32.size) (h : o.Asks side n)
    (hfits : across side source n < UInt32.size - 1) :
    FitsWord (derivedLength n (some (side.of source, side.other.of source)) : Float) ∧
      (Side.Admissible (side.other.of (o.resolveSize (some source))) ↔
        15 ≤ across side source n ∧ across side source n < 7681) := by
  obtain ⟨hmin, hmax⟩ := bounds_of_asks ho h
  have hsides : (0 < side.of source ∧ side.of source < UInt32.size) ∧
      0 < side.other.of source ∧ side.other.of source < UInt32.size := by
    cases side with
    | width => exact ⟨⟨hsource.1, hword.1⟩, hsource.2, hword.2⟩
    | height => exact ⟨⟨hsource.2, hword.2⟩, hsource.1, hword.1⟩
  obtain ⟨w, hw, hrange, hfloor⟩ := exists_stands_derivedLength
    ⟨Nat.lt_of_lt_of_le (by decide) hmin, hmax⟩ hsides.1 hsides.2
  have hnonneg := across_nonneg side source n
  rw [← floor_across] at hfloor
  have hlt : ⌊w⌋₊ < maxWord32 := by
    rw [hfloor, Nat.floor_lt hnonneg]
    exact hfits.trans_eq (by norm_num [maxWord32, UInt32.size])
  obtain ⟨hfitsWord, hcount⟩ := evenCount_of_stands hw hrange hlt
  refine ⟨hfitsWord, ?_⟩
  rw [(sides_of_asks h source).2, hcount, admissible_count, hfloor, Nat.le_floor_iff hnonneg,
    Nat.floor_lt hnonneg]
  norm_num

theorem given_of_validate (ho : o.validate = .ok ()) (h : o.given side = some n) :
    FitsWord (Scalar.ofNat n : Float) ∧ side.of (o.resolveSize (some source)) = n + n % 2 ∧
      Side.Admissible (n + n % 2) := by
  have hn := admissible_of_given ho h
  obtain ⟨hfitsWord, hcount⟩ := fitsWord_ofNat (Nat.lt_of_lt_of_le (by decide) hn.1) hn.2
  exact ⟨hfitsWord, (of_resolveSize_given h _).trans hcount, admissible_even hn⟩

theorem settled_of_validate (ho : o.validate = .ok ()) (h : o.needsSourceSize = false)
    (side : Side) : Side.Admissible (side.of (o.resolveSize (some source))) := by
  have hboth : o.width.isSome = o.height.isSome := by simpa [needsSourceSize] using h
  cases hgiven : o.given side with
  | some n =>
      have hgives : side.of (o.resolveSize (some source)) = n + n % 2 ∧
          Side.Admissible (n + n % 2) := (given_of_validate ho hgiven).2
      exact hgives.1 ▸ hgives.2
  | none =>
      have hneither : o.width = none ∧ o.height = none := by
        cases side with
        | width =>
            have hwidth : o.width = none := hgiven
            exact ⟨hwidth, by simpa [hwidth] using hboth⟩
        | height =>
            have hheight : o.height = none := hgiven
            exact ⟨by simpa [hheight] using hboth, hheight⟩
      rw [resolveSize, hneither.1, hneither.2]
      change Side.Admissible (side.of standardSize)
      cases side <;> decide

theorem validate_sized (ho : o.validate = .ok ()) :
    (o.sized source).validate = .ok () ↔
      ∀ side : Side, Side.Admissible (side.of (o.resolveSize (some source))) := by
  rw [sized]
  split
  · rw [validate_with_sides ho, checkSide_some, checkSide_some]
    exact ⟨fun h side => by cases side; exacts [h.1, h.2], fun h => ⟨h .width, h .height⟩⟩
  · next h => exact iff_of_true ho (settled_of_validate ho (Bool.not_eq_true _ ▸ h))

/-- The sides that are asked for are within the limits; where both are asked for, or neither, the
whole size is. A side that follows the source is within them as far as the ratio of the source
is. -/
theorem limits_of_validate (ho : o.validate = .ok ()) (hsource : 0 < source.1 ∧ 0 < source.2)
    (hword : source.1 < UInt32.size ∧ source.2 < UInt32.size) : o.Limits source where
  given _ _ h := given_of_validate ho h
  settled h := settled_of_validate ho h
  derived _ _ h hfits := derived_of_asks ho hsource hword h hfits
  fixed := validate_sized ho

/-- Options that ask for a frame 16 pixels wide. -/
def sixteenWide : SceneOptions Float := { standard with width := some 16 }

theorem limits_sixteenWide : sixteenWide.Limits (100, 1) :=
  limits_of_validate (by decide +kernel) (by decide) (by decide)

/-- A source a hundred times as wide as it is high gives this frame a height of two pixels, and the
options with that height are refused; a source that is as steep gives it too many. -/
theorem not_admissible_sixteenWide :
    sixteenWide.validate = .ok () ∧ ¬ Side.Admissible (sixteenWide.resolveSize (some (100, 1))).2 ∧
      (sixteenWide.sized (100, 1)).validate = .error (.outOfRange .height) ∧
      ¬ Side.Admissible (sixteenWide.resolveSize (some (1, 1000))).2 := by
  have hflat : sixteenWide.resolveSize (some (100, 1)) = (16, 2) := by decide +kernel
  have hsteep : sixteenWide.resolveSize (some (1, 1000)) = (16, 16000) := by decide +kernel
  rw [hflat, hsteep]
  exact ⟨by decide +kernel, by decide, by decide +kernel, by decide⟩

end SceneOptions

end Slideshow
