import Slideshow.Proofs.Scene.Accepted
import Slideshow.Proofs.Scene.Frame
import Mathlib.Algebra.Order.Floor.Semifield
import Mathlib.Tactic.Linarith
import Mathlib.Tactic.Ring
import Mathlib.Tactic.FieldSimp

/-! # The aspect ratio of a frame

Where one side of the frame is asked for, the other follows the source. The ratio is taken of the side
as it was asked for; afterwards both sides are made even, and at least two. So the frame is within a
pixel of the ratio of its source where an even side was asked for and the other one is no less than a
pixel, and an odd side adds the ratio of the source to that. -/

namespace Slideshow

namespace SceneOptions

/-! ## Sides -/

/-- The side next to this one. -/
def Side.other : Side → Side
  | .width => .height
  | .height => .width

/-- The pixels of a frame along a side. -/
def Side.of : Side → ℕ × ℕ → ℕ
  | .width, frame => frame.1
  | .height, frame => frame.2

/-- This side alone is asked for, with some pixels. -/
def Asks {α : Type} (o : SceneOptions α) : Side → ℕ → Prop
  | .width, n => o.width = some n ∧ o.height = none
  | .height, n => o.height = some n ∧ o.width = none

/-- The pixels that the ratio of a source prescribes for the other side of one with `n` pixels. -/
def across (side : Side) (source : ℕ × ℕ) (n : ℕ) : ℚ := n * side.other.of source / side.of source

/-- The size is even, and its derived side is within a pixel of what the source prescribes for the
other one. -/
def KeepsAspect (o : SceneOptions ℚ) (source : ℕ × ℕ) : Prop :=
  ∀ side n, o.Asks side n →
    let size := o.resolveSize (some source)
    Even size.1 ∧ Even size.2 ∧
      |(side.other.of size : ℚ) - across side source (side.of size)| ≤ 1

/-- What the size has of the aspect ratio of its source where a side with `n` pixels is asked for. -/
structure FollowsAspect (side : Side) (n : ℕ) (source size : ℕ × ℕ) : Prop where
  even : Even size.1 ∧ Even size.2
  /-- The side that is asked for is rounded up. -/
  asked : side.of size = n + n % 2
  within : 1 ≤ across side source n → |(side.other.of size : ℚ) - across side source n| ≤ 1
  least : across side source n < 1 → side.other.of size = 2
  /-- An even side is left as it is, an odd one adds the ratio of the source. -/
  drift : 1 ≤ across side source n →
    |(side.other.of size : ℚ) - across side source (side.of size)| ≤
      1 + (n % 2 : ℕ) * across side source 1

variable {o : SceneOptions ℚ} {side : Side} {n : ℕ} {source : ℕ × ℕ} {x : ℚ}

theorem across_nonneg (side : Side) (source : ℕ × ℕ) (n : ℕ) : 0 ≤ across side source n :=
  div_nonneg (mul_nonneg n.cast_nonneg (Nat.cast_nonneg _)) (Nat.cast_nonneg _)

theorem across_add (side : Side) (source : ℕ × ℕ) (m n : ℕ) :
    across side source (m + n) = across side source m + n * across side source 1 := by
  simp only [across, Nat.cast_add, Nat.cast_one]
  ring

section Asked

variable {α : Type} [Scalar α] {o : SceneOptions α}

/-- A side is asked for within bounds. -/
theorem bounds_of_asks (ho : o.validate = .ok ()) (h : o.Asks side n) :
    minDimension ≤ n ∧ n ≤ maxDimension := by
  have haccepted := accepted_of_validate ho
  cases side with
  | width => exact bounds_of_checkSide (h.1 ▸ haccepted.width)
  | height => exact bounds_of_checkSide (h.1 ▸ haccepted.height)

/-- The side that is asked for is made even, and so is the length derived for the other. -/
theorem sides_of_asks (h : o.Asks side n) (source : ℕ × ℕ) :
    side.of (o.resolveSize (some source)) = evenCount (Scalar.ofNat n : α) ∧
      side.other.of (o.resolveSize (some source)) =
        evenCount (derivedLength n (some (side.of source, side.other.of source)) : α) := by
  rw [resolveSize]
  cases side with
  | width =>
      rw [h.1, h.2]
      exact ⟨rfl, rfl⟩
  | height =>
      rw [h.1, h.2]
      exact ⟨rfl, rfl⟩

end Asked

/-! ## Rounding to an even count -/

theorem nearestInt_of_nonneg (hx : 0 ≤ x) : nearestInt x = ⌊x + 1 / 2⌋₊ := by
  rw [nearestInt, if_neg (not_lt.mpr hx)]
  have hsum : 0 ≤ x + 1 / 2 := by linarith
  exact (Int.natCast_floor_eq_floor hsum).symm

/-- A length is rounded to the nearest even count where it fits into a word. -/
theorem evenCount_eq (h0 : 0 ≤ x) (hx : x < UInt32.size - 1) :
    evenCount x = max 2 (2 * ⌊x / 2 + 1 / 2⌋₊) := by
  have hhalf : 0 ≤ x / 2 := by linarith
  have hfits : ⌊x / 2 + 1 / 2⌋₊ < 2 ^ 31 := by
    rw [Nat.floor_lt (by linarith)]
    norm_num [UInt32.size] at hx ⊢
    linarith
  have hnearest : Scalar.nearestNat maxWord32 (x / Scalar.ofNat 2) = ⌊x / 2 + 1 / 2⌋₊ := by
    change min maxWord32 (nearestInt (x / ((2 : ℕ) : ℚ))).toNat = _
    rw [Nat.cast_ofNat, nearestInt_of_nonneg hhalf, Int.toNat_natCast]
    exact min_eq_right (by simp only [maxWord32, UInt32.size]; omega)
  rw [evenCount, hnearest, Nat.mul_comm, Nat.mod_eq_of_lt (by simp only [UInt32.size]; omega)]

theorem evenCount_natCast (hn : n ≤ maxDimension) (hpos : 0 < n) :
    evenCount (Scalar.ofNat n : ℚ) = n + n % 2 := by
  have hfloor : ⌊(n : ℚ) / 2 + 1 / 2⌋₊ = (n + 1) / 2 := by
    rw [← Nat.floor_div_eq_div (K := ℚ)]
    congr 1
    push_cast
    ring
  have hlt : (n : ℚ) < UInt32.size - 1 := by
    have : (n : ℚ) ≤ maxDimension := Nat.cast_le.mpr hn
    norm_num [maxDimension, UInt32.size] at this ⊢
    linarith
  change evenCount (n : ℚ) = n + n % 2
  rw [evenCount_eq n.cast_nonneg hlt, hfloor]
  omega

/-- Within a pixel, or two pixels for less than one. -/
theorem abs_evenCount_sub_le (hx1 : 1 ≤ x) (hx : x < UInt32.size - 1) :
    |(evenCount x : ℚ) - x| ≤ 1 := by
  have hfloor_le := Nat.floor_le (show 0 ≤ x / 2 + 1 / 2 by linarith)
  have hlt_floor := Nat.lt_floor_add_one (x / 2 + 1 / 2)
  have hpos : 1 ≤ ⌊x / 2 + 1 / 2⌋₊ := Nat.le_floor (by push_cast; linarith)
  rw [evenCount_eq (by linarith) hx, max_eq_right (by omega), abs_le]
  push_cast
  constructor <;> linarith

theorem evenCount_of_lt_one (h0 : 0 ≤ x) (hx : x < 1) : evenCount x = 2 := by
  have hfits : x < UInt32.size - 1 := by norm_num [UInt32.size]; linarith
  have hzero : ⌊x / 2 + 1 / 2⌋₊ = 0 := Nat.floor_eq_zero.mpr (by linarith)
  rw [evenCount_eq h0 hfits, hzero]
  rfl

/-! ## The size -/

theorem derivedLength_eq (hsource : 0 < side.of source) :
    derivedLength n (some (side.of source, side.other.of source)) = across side source n :=
  if_pos hsource

/-- The side that is asked for is made even, and so is what the source prescribes for the other. -/
theorem resolveSize_of_asks (h : o.Asks side n) (hsource : 0 < side.of source) :
    side.of (o.resolveSize (some source)) = evenCount (Scalar.ofNat n : ℚ) ∧
      side.other.of (o.resolveSize (some source)) = evenCount (across side source n) :=
  derivedLength_eq hsource ▸ sides_of_asks h source

/-- Where one side is asked for, the size follows the aspect ratio of the source, as long as the other
side is not too long to be counted. -/
theorem followsAspect_of_asks (ho : o.validate = .ok ()) (h : o.Asks side n)
    (hsource : 0 < source.1 ∧ 0 < source.2) (hfits : across side source n < UInt32.size - 1) :
    FollowsAspect side n source (o.resolveSize (some source)) := by
  obtain ⟨hmin, hmax⟩ := bounds_of_asks ho h
  have hpositive : 0 < side.of source := by
    cases side with
    | width => exact hsource.1
    | height => exact hsource.2
  obtain ⟨hasked, hderived⟩ := resolveSize_of_asks h hpositive
  obtain ⟨hwidth, hheight⟩ := valid_resolveSize o (some source)
  rw [evenCount_natCast hmax (Nat.lt_of_lt_of_le (by decide) hmin)] at hasked
  have hwithin (hone : 1 ≤ across side source n) :
      |(side.other.of (o.resolveSize (some source)) : ℚ) - across side source n| ≤ 1 :=
    hderived ▸ abs_evenCount_sub_le hone hfits
  refine ⟨⟨hwidth.even, hheight.even⟩, hasked, hwithin,
    fun hless => hderived.trans (evenCount_of_lt_one (across_nonneg ..) hless), fun hone => ?_⟩
  have hbetween := abs_le.mp (hwithin hone)
  have hratio : 0 ≤ ((n % 2 : ℕ) : ℚ) * across side source 1 :=
    mul_nonneg (Nat.cast_nonneg _) (across_nonneg ..)
  rw [hasked, across_add, abs_le]
  constructor <;> linarith

/-- Options that ask for a frame 17 pixels wide. -/
def seventeenWide : SceneOptions ℚ := { standard with width := some 17 }

/-- Its frame is 18 pixels wide, and 1700 pixels high where the source is a hundred times as high as
it is wide. -/
theorem followsAspect_seventeenWide :
    FollowsAspect .width 17 (1, 100) (seventeenWide.resolveSize (some (1, 100))) :=
  followsAspect_of_asks (by decide +kernel) ⟨rfl, rfl⟩ (by decide)
    (by norm_num [across, Side.of, Side.other, UInt32.size])

/-- That is a hundred pixels off the ratio of the source. And where the source is a hundred times as
wide as it is high, the frame is two pixels high in place of less than one. -/
theorem not_keepsAspect_seventeenWide :
    seventeenWide.validate = .ok () ∧ ¬ seventeenWide.KeepsAspect (1, 100) ∧
      ¬ seventeenWide.KeepsAspect (100, 1) := by
  have hsteep : seventeenWide.resolveSize (some (1, 100)) = (18, 1700) := by decide +kernel
  have hflat : seventeenWide.resolveSize (some (100, 1)) = (18, 2) := by decide +kernel
  refine ⟨by decide +kernel, fun h => ?_, fun h => ?_⟩
  · have hwithin := (h .width 17 ⟨rfl, rfl⟩).2.2
    rw [hsteep] at hwithin
    norm_num [across, Side.of, Side.other] at hwithin
  · have hwithin := (h .width 17 ⟨rfl, rfl⟩).2.2
    rw [hflat] at hwithin
    norm_num [across, Side.of, Side.other, abs_le] at hwithin

end SceneOptions

end Slideshow
