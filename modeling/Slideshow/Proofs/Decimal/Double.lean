import Slideshow.Scalar
import Mathlib

/-! # Doubles at their exact value

A double that is neither too large nor too small stands for a number `m * 2 ^ e` with 53 binary
digits. Products and quotients of such doubles are rounded to the nearest of them. They are off by
at most one part in `2 ^ 53`, and not at all where the exact result has few enough digits. -/

namespace Slideshow.Double

open Float.Model (Format UnpackedFloat totalExponent)
open Float.Model.UnpackedFloat

/-! ## Rounding in units of the last place -/

/-- The part of a unit that is left over where a mantissa is cut off. -/
def Leaves : Accuracy → ℚ → Prop
  | .exact, r => r = 0
  | .inexact .lt, r => 0 < r ∧ 2 * r < 1
  | .inexact .eq, r => 2 * r = 1
  | .inexact .gt, r => 1 < 2 * r ∧ r < 1

/-- The mantissa and its residual bits say where a number lies. -/
def Locates (em : ExtendedMantissa) (u : ℚ) : Prop := Leaves em.accuracy (u - em.mantissa)

variable {em : ExtendedMantissa} {a : Accuracy} {m k : ℕ} {e : ℤ} {u v w : ℚ}

theorem locates_ofMantissaAndAccuracy (h : Leaves a (u - m)) :
    Locates (.ofMantissaAndAccuracy m a) u := by
  rcases a with _ | (_ | _ | _) <;> exact h

theorem Locates.shiftRightOne (h : Locates em (2 * u)) : Locates em.shiftRightOne u := by
  obtain ⟨m, roundBit, stickyBit⟩ := em
  have hsplit : (m : ℚ) = 2 * (m / 2 : ℕ) + (m % 2 : ℕ) := by
    exact_mod_cast (Nat.div_add_mod m 2).symm
  rcases Nat.mod_two_eq_zero_or_one m with hm | hm <;> cases roundBit <;> cases stickyBit <;>
    simp only [Locates, Leaves, ExtendedMantissa.shiftRightOne, ExtendedMantissa.accuracy, hm,
      Nat.cast_zero, Nat.cast_one, bne_self_eq_false, Bool.or_false, Bool.or_true, Bool.or_self,
      Nat.reduceBNe] at h hsplit ⊢ <;>
    grind

theorem Locates.shiftRight (h : Locates em (2 ^ k * u)) : Locates (em >>> k) u := by
  induction k generalizing u with
  | zero =>
      rw [pow_zero, one_mul] at h
      exact h
  | succ k ih =>
      have hnext : Locates (em >>> k) (2 * u) := ih (by rwa [← mul_assoc, ← pow_succ])
      exact hnext.shiftRightOne

theorem mantissa_shiftRight (em : ExtendedMantissa) (k : ℕ) :
    (em >>> k).mantissa = em.mantissa / 2 ^ k := by
  induction k with
  | zero => exact (Nat.div_one _).symm
  | succ k ih =>
      change (em >>> k).mantissa / 2 = _
      rw [ih, Nat.div_div_eq_div_mul, ← pow_succ]

/-- Rounding goes to a nearest integer. -/
theorem Locates.abs_sub_le (h : Locates em u) : 2 * |(em.roundedMantissa : ℚ) - u| ≤ 1 := by
  rw [← abs_two, ← abs_mul, abs_le]
  obtain ⟨m, roundBit, stickyBit⟩ := em
  cases roundBit <;> cases stickyBit <;>
    simp only [Locates, Leaves, ExtendedMantissa.roundedMantissa, ExtendedMantissa.accuracy,
      Accuracy.roundToNearestEven] at h ⊢
  · grind
  · grind
  · rcases Nat.mod_two_eq_zero_or_one m with hm | hm <;> rw [hm] <;> push_cast <;> grind
  · push_cast
    grind

theorem roundedMantissa_bounds (em : ExtendedMantissa) :
    em.mantissa ≤ em.roundedMantissa ∧ em.roundedMantissa ≤ em.mantissa + 1 := by
  obtain ⟨m, roundBit, stickyBit⟩ := em
  cases roundBit <;> cases stickyBit <;>
    simp only [ExtendedMantissa.roundedMantissa, ExtendedMantissa.accuracy,
      Accuracy.roundToNearestEven] <;>
    omega

/-! ## Rounding to 53 digits -/

theorem shiftToTargetExponent_eq (hm : 52 ≤ m.log2) (he : -1022 ≤ m.log2 + e) :
    shiftToTargetExponent Format.binary64 m e a =
      (ExtendedMantissa.ofMantissaAndAccuracy m a >>> (m.log2 - 52), e + (m.log2 - 52 : ℕ)) := by
  have htarget : (Format.binary64.targetExponent (totalExponent m e) - e).toNat = m.log2 - 52 := by
    simp only [Format.targetExponent, totalExponent, Format.mantissaBits, Format.minExponent]
    omega
  rw [shiftToTargetExponent, shiftToExponent, htarget]

/-- The rounded mantissa of a number with enough digits. -/
def rounded (m : ℕ) (a : Accuracy) : ℕ :=
  (ExtendedMantissa.ofMantissaAndAccuracy m a >>> (m.log2 - 52)).roundedMantissa

theorem mantissa_ofMantissaAndAccuracy (m : ℕ) (a : Accuracy) :
    (ExtendedMantissa.ofMantissaAndAccuracy m a).mantissa = m := by
  rcases a with _ | (_ | _ | _) <;> rfl

theorem rounded_bounds (hm : 52 ≤ m.log2) : 2 ^ 52 ≤ rounded m a ∧ rounded m a ≤ 2 ^ 53 := by
  have hpos : m ≠ 0 := by
    rintro rfl
    simp at hm
  have hbounds := roundedMantissa_bounds
    (ExtendedMantissa.ofMantissaAndAccuracy m a >>> (m.log2 - 52))
  rw [mantissa_shiftRight, mantissa_ofMantissaAndAccuracy] at hbounds
  have hlow : 2 ^ 52 ≤ m / 2 ^ (m.log2 - 52) := by
    rw [Nat.le_div_iff_mul_le (Nat.two_pow_pos _), ← pow_add, Nat.add_sub_cancel' hm]
    exact Nat.log2_self_le hpos
  have hhigh : m / 2 ^ (m.log2 - 52) < 2 ^ 53 := by
    rw [Nat.div_lt_iff_lt_mul (Nat.two_pow_pos _), ← pow_add,
      show 53 + (m.log2 - 52) = m.log2 + 1 by omega]
    exact Nat.lt_log2_self
  exact ⟨hlow.trans hbounds.1, hbounds.2.trans hhigh⟩

/-- A number with enough digits is rounded to 53 of them. -/
theorem exists_roundWithAccuracy (s : Sign) (hm : 52 ≤ m.log2) (he : -1022 ≤ m.log2 + e) :
    ∃ (n : ℕ) (t : ℤ) (hn : 0 < n), roundWithAccuracy Format.binary64 s m e a = .finite s n t hn ∧
      2 ^ 52 ≤ n ∧ n < 2 ^ 53 ∧ e + (m.log2 - 52 : ℕ) ≤ t ∧ t ≤ e + (m.log2 - 52 : ℕ) + 1 ∧
      (n : ℚ) * 2 ^ t = rounded m a * 2 ^ (e + (m.log2 - 52 : ℕ)) := by
  obtain ⟨hlow, hhigh⟩ := rounded_bounds (a := a) hm
  have hpos : rounded m a ≠ 0 := by omega
  have hlog : 52 ≤ (rounded m a).log2 := (Nat.le_log2 hpos).mpr hlow
  set t : ℤ := e + (m.log2 - 52 : ℕ) with ht
  have hagain := shiftToTargetExponent_eq (a := .exact) hlog
    (show -1022 ≤ (rounded m a).log2 + t by omega)
  have hround : ∀ (n : ℕ) (t' : ℤ) (hn : 0 < n),
      (ExtendedMantissa.ofMantissaAndAccuracy (rounded m a) .exact >>>
        ((rounded m a).log2 - 52)).mantissa = n → t + ((rounded m a).log2 - 52 : ℕ) = t' →
      roundWithAccuracy Format.binary64 s m e a = .finite s n t' hn := by
    rintro n t' hn hmantissa rfl
    rw [roundWithAccuracy, shiftToTargetExponent_eq hm he]
    change (let (final, exponent) := shiftToTargetExponent Format.binary64 (rounded m a) t .exact;
      if h : final.mantissa = 0 then UnpackedFloat.zero s
      else UnpackedFloat.finite s final.mantissa exponent (Nat.pos_of_ne_zero h)) = _
    rw [hagain]
    dsimp only
    subst hmantissa
    rw [dif_neg hn.ne']
  rw [mantissa_shiftRight, mantissa_ofMantissaAndAccuracy] at hround
  rcases hhigh.lt_or_eq with hlt | heq
  · have hlog' : (rounded m a).log2 - 52 = 0 := by
      have := (Nat.log2_lt hpos).mpr hlt
      omega
    rw [hlog'] at hround
    exact ⟨_, t, _, hround _ _ (Nat.pos_of_ne_zero hpos) (Nat.div_one _) (by simp), hlow, hlt,
      le_rfl, by omega, rfl⟩
  · rw [heq, Nat.log2_two_pow] at hround
    refine ⟨2 ^ 52, t + 1, by decide, hround _ _ _ rfl rfl, le_rfl, by decide, by omega,
      le_rfl, ?_⟩
    rw [heq, zpow_add_one₀ two_ne_zero]
    push_cast
    ring

/-- A number is off by at most one part in `2 ^ 53`, and not at all if 53 digits are enough. -/
structure Rounds (v w : ℚ) : Prop where
  near : |w - v| ≤ v / 2 ^ 53
  exact : ∀ (n : ℕ) (j : ℤ), n < 2 ^ 53 → v = n * 2 ^ j → w = v

/-- A positive number that is neither too large nor too small for 53 digits. -/
def InRange (v : ℚ) : Prop := 2 ^ (-1000 : ℤ) ≤ v ∧ v ≤ 2 ^ (1000 : ℤ)

theorem two_zpow_pos (j : ℤ) : (0 : ℚ) < 2 ^ j := zpow_pos two_pos j

/-- The binary digits of a number that a mantissa leaves a part of. -/
theorem log2_bounds (hm : m ≠ 0) (h : Leaves a (v / 2 ^ e - m)) :
    2 ^ (m.log2 + e : ℤ) ≤ v ∧ v < 2 ^ (m.log2 + e + 1 : ℤ) := by
  have hbetween : (m : ℚ) ≤ v / 2 ^ e ∧ v / 2 ^ e < m + 1 := by
    rcases a with _ | (_ | _ | _) <;> simp only [Leaves] at h <;> constructor <;> linarith
  have hlow : ((2 ^ m.log2 : ℕ) : ℚ) ≤ m := Nat.cast_le.mpr (Nat.log2_self_le hm)
  have hhigh : (m : ℚ) + 1 ≤ ((2 ^ (m.log2 + 1) : ℕ) : ℚ) := by
    exact_mod_cast Nat.lt_log2_self
  push_cast at hlow hhigh
  constructor
  · rw [zpow_add₀ two_ne_zero, zpow_natCast, ← le_div_iff₀ (two_zpow_pos e)]
    exact hlow.trans hbetween.1
  · rw [show (m.log2 + e + 1 : ℤ) = (m.log2 + 1 : ℕ) + e by push_cast; ring,
      zpow_add₀ two_ne_zero, zpow_natCast, ← div_lt_iff₀ (two_zpow_pos e)]
    exact hbetween.2.trans_le hhigh

/-- The rounded mantissa is off by at most half a unit in the last place. -/
theorem abs_rounded_sub_le (h : Leaves a (v / 2 ^ e - m)) :
    2 * |(rounded m a : ℚ) - v / 2 ^ (e + (m.log2 - 52 : ℕ))| ≤ 1 := by
  have hscale : 2 ^ (m.log2 - 52) * (v / 2 ^ (e + (m.log2 - 52 : ℕ))) = v / 2 ^ e := by
    rw [zpow_add₀ two_ne_zero, zpow_natCast]
    field_simp
  have hlocates : Locates (ExtendedMantissa.ofMantissaAndAccuracy m a >>> (m.log2 - 52))
      (v / 2 ^ (e + (m.log2 - 52 : ℕ))) :=
    Locates.shiftRight (locates_ofMantissaAndAccuracy (hscale.symm ▸ h))
  exact hlocates.abs_sub_le

/-- Where 53 digits are enough, the unit of the last one of a number with 53 is fine enough. -/
theorem le_of_digits {n : ℕ} {t j : ℤ} (hn : n < 2 ^ 53)
    (hdigits : (2 : ℚ) ^ t * 2 ^ 52 ≤ n * 2 ^ j) : t ≤ j := by
  have hbelow : (n : ℚ) * 2 ^ j < 2 ^ 53 * 2 ^ j :=
    mul_lt_mul_of_pos_right (by exact_mod_cast hn) (two_zpow_pos j)
  have hpowers : (2 : ℚ) ^ (t + (52 : ℕ)) < 2 ^ (((53 : ℕ) : ℤ) + j) := by
    rw [zpow_add₀ two_ne_zero t, zpow_add₀ two_ne_zero _ j, zpow_natCast, zpow_natCast]
    exact hdigits.trans_lt hbelow
  have := (zpow_lt_zpow_iff_right₀ one_lt_two).mp hpowers
  omega

/-- The rounded mantissa stands for a number that is off by little. -/
theorem rounds_rounded (hm : 52 ≤ m.log2) (h : Leaves a (v / 2 ^ e - m)) :
    Rounds v (rounded m a * 2 ^ (e + (m.log2 - 52 : ℕ))) := by
  have hpos : m ≠ 0 := by
    rintro rfl
    simp at hm
  have hhalf := abs_rounded_sub_le h
  set t : ℤ := e + (m.log2 - 52 : ℕ) with ht
  have hunit := two_zpow_pos t
  obtain ⟨hlow, -⟩ := log2_bounds hpos h
  have hdigits : 2 ^ t * 2 ^ 52 ≤ v := by
    rwa [← zpow_natCast (2 : ℚ) 52, ← zpow_add₀ two_ne_zero,
      show t + (52 : ℕ) = m.log2 + e by omega]
  have hscaled : |(rounded m a : ℚ) * 2 ^ t - v| = |(rounded m a : ℚ) - v / 2 ^ t| * 2 ^ t := by
    rw [← abs_of_pos hunit, ← abs_mul, abs_of_pos hunit, sub_mul, div_mul_cancel₀ _ hunit.ne']
  constructor
  · rw [hscaled, le_div_iff₀ (by positivity)]
    calc |(rounded m a : ℚ) - v / 2 ^ t| * 2 ^ t * 2 ^ 53
        = 2 * |(rounded m a : ℚ) - v / 2 ^ t| * (2 ^ t * 2 ^ 52) := by ring
      _ ≤ 1 * (2 ^ t * 2 ^ 52) := mul_le_mul_of_nonneg_right hhalf (by positivity)
      _ ≤ v := by rwa [one_mul]
  · rintro n j hn rfl
    have hfine : t ≤ j := le_of_digits hn hdigits
    have hwhole : (n : ℚ) * 2 ^ j / 2 ^ t = (n * 2 ^ (j - t).toNat : ℕ) := by
      push_cast
      rw [← zpow_natCast, Int.toNat_of_nonneg (by omega), zpow_sub₀ two_ne_zero, mul_div_assoc]
    rw [hwhole] at hhalf
    have hequal : rounded m a = n * 2 ^ (j - t).toNat := by
      have hsmall : |((rounded m a : ℤ) - (n * 2 ^ (j - t).toNat : ℕ) : ℤ)| < 1 := by
        have : |((rounded m a : ℚ) - (n * 2 ^ (j - t).toNat : ℕ))| < 1 := by linarith
        exact_mod_cast this
      have := Int.abs_lt_one_iff.mp hsmall
      omega
    rw [hequal, ← hwhole, div_mul_cancel₀ _ hunit.ne']

/-! ## The number a double stands for -/

/-- A positive double that takes all 53 digits stands for its mantissa times a power of two. -/
def Stands (x : Float) (v : ℚ) : Prop :=
  ∃ (m : ℕ) (e : ℤ) (hm : 0 < m), x.toModel.unpack = .finite .positive m e hm ∧
    2 ^ 52 ≤ m ∧ m < 2 ^ 53 ∧ -1074 ≤ e ∧ e ≤ 971 ∧ v = m * 2 ^ e

variable {x y : Float} {n : ℕ}

theorem log2_eq (hlow : 2 ^ 52 ≤ m) (hhigh : m < 2 ^ 53) : m.log2 = 52 :=
  (Nat.log2_eq_iff (by omega)).mpr ⟨hlow, hhigh⟩

theorem ofBitVec_unpackSign (s : Sign) (exponent : BitVec 11) (mantissa : BitVec 52) :
    Sign.ofBitVec (unpackSign (packComponents Format.binary64 s exponent mantissa)) = s := by
  change Sign.ofBitVec ((s.toBitVec ++ exponent ++ mantissa).extractLsb' 63 1) = s
  rw [BitVec.extractLsb'_append_eq_of_le (by decide),
    BitVec.extractLsb'_append_eq_of_le (by decide)]
  cases s <;> rfl

theorem toNat_one_append (b : BitVec 52) : (1#1 ++ b).toNat = 2 ^ 52 + b.toNat := by
  rw [BitVec.toNat_append, ← Nat.shiftLeft_add_eq_or_of_lt b.isLt]
  rfl

/-- Packing keeps a number that takes all 53 digits. -/
theorem unpack_pack (s : Sign) (hm : 0 < m) (hlow : 2 ^ 52 ≤ m) (hhigh : m < 2 ^ 53)
    (hleast : -1074 ≤ e) (hmost : e ≤ 971) :
    unpack Format.binary64 (pack Format.binary64 (.finite s m e hm)) = .finite s m e hm := by
  have hbias : (e + Format.binary64.exponentBias +
      Format.binary64.mantissaBitsWithoutImplicit).toNat = (e + 1075).toNat := by
    change (e + 1023 + 52).toNat = _
    rw [add_assoc]
    rfl
  have hbits : (BitVec.ofNat 11 (e + 1075).toNat).toNat = (e + 1075).toNat := by
    rw [BitVec.toNat_ofNat]
    omega
  have hordinary : BitVec.ofNat 11 (e + 1075).toNat ≠ -1#11 ∧
      BitVec.ofNat 11 (e + 1075).toNat ≠ 0#11 := by
    constructor <;> intro h <;> have := hbits.symm.trans (congrArg BitVec.toNat h) <;>
      simp at this <;> omega
  have hmantissa : (1#1 ++ BitVec.ofNat 52 m).toNat = m := by
    rw [toNat_one_append, BitVec.toNat_ofNat]
    omega
  have hexponent : ((e + 1075).toNat : ℤ) - (Format.binary64.exponentBias + 52 : ℕ) = e := by
    change ((e + 1075).toNat : ℤ) - (1023 + 52 : ℕ) = e
    omega
  simp only [pack, log2_eq hlow hhigh, hbias]
  rw [if_neg (by change ¬ 2048 ≤ _; omega), if_pos (by rfl)]
  simp only [unpack, unpackMantissa_packComponents, unpackExponent_packComponents,
    ofBitVec_unpackSign, if_neg hordinary.1, if_neg hordinary.2, hmantissa, hbits]
  congr

theorem stands_pack (hm : 0 < m) (hlow : 2 ^ 52 ≤ m) (hhigh : m < 2 ^ 53) (hleast : -1074 ≤ e)
    (hmost : e ≤ 971) : Stands (.ofModel (.pack (.finite .positive m e hm))) (m * 2 ^ e) :=
  ⟨m, e, hm, unpack_pack .positive hm hlow hhigh hleast hmost, hlow, hhigh, hleast, hmost, rfl⟩

/-- What rounding gives stands for a number that is off by little. -/
theorem exists_stands_roundWithAccuracy (hm : 52 ≤ m.log2) (h : Leaves a (v / 2 ^ e - m))
    (hv : InRange v) :
    ∃ w, Stands (.ofModel (.pack (roundWithAccuracy Format.binary64 .positive m e a))) w ∧
      Rounds v w := by
  have hpos : m ≠ 0 := by
    rintro rfl
    simp at hm
  obtain ⟨hlow, hhigh⟩ := log2_bounds hpos h
  have hleast := (zpow_lt_zpow_iff_right₀ one_lt_two).mp (hv.1.trans_lt hhigh)
  have hmost := (zpow_le_zpow_iff_right₀ one_lt_two).mp (hlow.trans hv.2)
  obtain ⟨n, t, hn, heq, hlown, hhighn, hlowt, hhight, hvalue⟩ :=
    exists_roundWithAccuracy (a := a) .positive hm (show -1022 ≤ m.log2 + e by omega)
  rw [heq]
  refine ⟨n * 2 ^ t, stands_pack hn hlown hhighn (by omega) (by omega), ?_⟩
  rw [hvalue]
  exact rounds_rounded hm h

/-- The product of two doubles is the exact one but for rounding. -/
theorem Stands.mul (hx : Stands x u) (hy : Stands y v) (h : InRange (u * v)) :
    ∃ w, Stands (x * y) w ∧ Rounds (u * v) w := by
  obtain ⟨m₁, e₁, hm₁, hx, hlow₁, hhigh₁, -, -, rfl⟩ := hx
  obtain ⟨m₂, e₂, hm₂, hy, hlow₂, hhigh₂, -, -, rfl⟩ := hy
  have hproduct : x * y = .ofModel (.pack
      (roundWithAccuracy Format.binary64 .positive (m₁ * m₂) (e₁ + e₂) .exact)) := by
    change Float.ofModel (.pack (Float.Model.UnpackedFloat.mul _ _ _)) = _
    rw [hx, hy]
    rfl
  have hexact : Leaves .exact ((m₁ * 2 ^ e₁ * (m₂ * 2 ^ e₂) : ℚ) / 2 ^ (e₁ + e₂) -
      (m₁ * m₂ : ℕ)) := by
    rw [zpow_add₀ two_ne_zero, mul_mul_mul_comm, mul_div_assoc, Nat.cast_mul,
      div_self (mul_pos (two_zpow_pos e₁) (two_zpow_pos e₂)).ne', mul_one]
    exact sub_self _
  rw [hproduct]
  refine exists_stands_roundWithAccuracy ?_ hexact h
  rw [Nat.le_log2 (by positivity)]
  nlinarith

theorem leaves_accuracyOfFraction {p q : ℕ} (hlt : p < q) :
    Leaves (accuracyOfFraction p q) ((p : ℚ) / q) := by
  have hq : (0 : ℚ) < q := by exact_mod_cast (Nat.zero_le p).trans_lt hlt
  have hlt' : (p : ℚ) < q := by exact_mod_cast hlt
  rw [accuracyOfFraction]
  split
  · next h => simp [h, Leaves]
  · next h =>
      have hp : (0 : ℚ) < p := by exact_mod_cast Nat.pos_of_ne_zero h
      rcases hcompare : compare (2 * p) q with _ | _ | _ <;> simp only [Leaves]
      · have : ((2 * p : ℕ) : ℚ) < q := by exact_mod_cast Nat.compare_eq_lt.mp hcompare
        push_cast at this
        exact ⟨by positivity, by rw [mul_div, div_lt_one hq]; exact this⟩
      · have : ((2 * p : ℕ) : ℚ) = q := by exact_mod_cast Nat.compare_eq_eq.mp hcompare
        push_cast at this
        rw [mul_div, this, div_self hq.ne']
      · have : (q : ℚ) < ((2 * p : ℕ) : ℚ) := by exact_mod_cast Nat.compare_eq_gt.mp hcompare
        push_cast at this
        exact ⟨by rw [mul_div, one_lt_div hq]; exact this, by rw [div_lt_one hq]; exact hlt'⟩

theorem cast_div_sub (p : ℕ) {q : ℕ} (hq : 0 < q) :
    (p : ℚ) / q - (p / q : ℕ) = (p % q : ℕ) / q := by
  have hdivision : (p : ℚ) = q * (p / q : ℕ) + (p % q : ℕ) := by
    exact_mod_cast (Nat.div_add_mod p q).symm
  have hpos : (0 : ℚ) < q := by exact_mod_cast hq
  field_simp
  linarith

section Quotient

variable {m₁ m₂ : ℕ} {e₁ e₂ : ℤ}

/-- A quotient of mantissas is less than two, so one that is not too small has no small exponent. -/
theorem le_sub_of_inRange (hm₂ : 0 < m₂) (hlow₂ : 2 ^ 52 ≤ m₂) (hhigh₁ : m₁ < 2 ^ 53)
    (h : InRange (m₁ * 2 ^ e₁ / (m₂ * 2 ^ e₂))) : -1021 ≤ e₁ - e₂ := by
  have hpos₂ : (0 : ℚ) < m₂ := by exact_mod_cast hm₂
  have htwice : (m₁ / m₂ : ℚ) < 2 := by
    rw [div_lt_iff₀ hpos₂]
    exact_mod_cast (by omega : m₁ < 2 * m₂)
  have hbelow : (m₁ * 2 ^ e₁ / (m₂ * 2 ^ e₂) : ℚ) < 2 ^ (e₁ - e₂ + 1) := by
    rw [mul_div_mul_comm, zpow_add_one₀ two_ne_zero, zpow_sub₀ two_ne_zero, mul_comm]
    exact mul_lt_mul_of_pos_left htwice (div_pos (two_zpow_pos e₁) (two_zpow_pos e₂))
  have := (zpow_lt_zpow_iff_right₀ one_lt_two).mp (h.1.trans_lt hbelow)
  omega

/-- Mantissas of 53 digits are divided after 53 binary digits are added to the first. -/
theorem divCore_eq (hlow₁ : 2 ^ 52 ≤ m₁) (hhigh₁ : m₁ < 2 ^ 53) (hlow₂ : 2 ^ 52 ≤ m₂)
    (hhigh₂ : m₂ < 2 ^ 53) (hexponent : -1021 ≤ e₁ - e₂) :
    divCore Format.binary64 m₁ e₁ m₂ e₂ =
      (2 ^ 53 * m₁ / m₂, e₁ - e₂ - 53, accuracyOfFraction (2 ^ 53 * m₁ % m₂) m₂) := by
  have htarget : min (e₁ - e₂) (Format.binary64.targetExponent
      (totalExponent m₁ e₁ - totalExponent m₂ e₂)) = e₁ - e₂ - 53 := by
    simp only [Format.targetExponent, totalExponent, log2_eq hlow₁ hhigh₁, log2_eq hlow₂ hhigh₂,
      Format.mantissaBits, Format.minExponent]
    omega
  have hshift : (e₁ - e₂ - (e₁ - e₂ - 53)).toNat = 53 := by omega
  simp only [divCore, htarget, hshift, Nat.shiftLeft_eq, mul_comm m₁]

end Quotient

/-- The quotient of two doubles is the exact one but for rounding. -/
theorem Stands.div (hx : Stands x u) (hy : Stands y v) (h : InRange (u / v)) :
    ∃ w, Stands (x / y) w ∧ Rounds (u / v) w := by
  obtain ⟨m₁, e₁, hm₁, hx, hlow₁, hhigh₁, -, -, rfl⟩ := hx
  obtain ⟨m₂, e₂, hm₂, hy, hlow₂, hhigh₂, -, -, rfl⟩ := hy
  have hpos₁ : (0 : ℚ) < m₁ := by exact_mod_cast hm₁
  have hpos₂ : (0 : ℚ) < m₂ := by exact_mod_cast hm₂
  have hvalue : (m₁ * 2 ^ e₁ / (m₂ * 2 ^ e₂) : ℚ) / 2 ^ (e₁ - e₂ - 53) = 2 ^ 53 * m₁ / m₂ := by
    rw [show e₁ - e₂ - 53 = e₁ - e₂ + -(53 : ℕ) by rfl, zpow_add₀ two_ne_zero,
      zpow_sub₀ two_ne_zero, zpow_neg, zpow_natCast]
    have := two_zpow_pos e₁
    have := two_zpow_pos e₂
    field_simp
  have hcore := divCore_eq hlow₁ hhigh₁ hlow₂ hhigh₂ (le_sub_of_inRange hm₂ hlow₂ hhigh₁ h)
  have hquotient : x / y = .ofModel (.pack (roundWithAccuracy Format.binary64 .positive
      (2 ^ 53 * m₁ / m₂) (e₁ - e₂ - 53) (accuracyOfFraction (2 ^ 53 * m₁ % m₂) m₂))) := by
    change Float.ofModel (.pack (Float.Model.UnpackedFloat.div _ _ _)) = _
    rw [hx, hy, UnpackedFloat.div]
    simp only [hcore]
    rfl
  rw [hquotient]
  refine exists_stands_roundWithAccuracy ?_ ?_ h
  · have hdigits : 2 ^ 52 ≤ 2 ^ 53 * m₁ / m₂ := by
      rw [Nat.le_div_iff_mul_le hm₂]
      omega
    exact (Nat.le_log2 (by omega)).mpr hdigits
  · have hpart := cast_div_sub (2 ^ 53 * m₁) hm₂
    rw [Nat.cast_mul, Nat.cast_pow, Nat.cast_two] at hpart
    rw [hvalue, hpart]
    exact leaves_accuracyOfFraction (Nat.mod_lt _ hm₂)

theorem inRange_natCast (hpos : 0 < n) (hn : n < 2 ^ 53) : InRange n := by
  constructor
  · exact (zpow_le_one_of_nonpos₀ one_le_two (by norm_num)).trans (by exact_mod_cast hpos)
  · have : (n : ℚ) ≤ 2 ^ (53 : ℤ) := by exact_mod_cast hn.le
    exact this.trans (zpow_le_zpow_right₀ one_le_two (by norm_num))

theorem Rounds.eq_natCast (h : Rounds n w) (hn : n < 2 ^ 53) : w = n :=
  h.exact n 0 hn (by rw [zpow_zero, mul_one])

theorem stands_toFloat (hpos : 0 < n) (hn : n < 2 ^ 53) : Stands n.toUInt64.toFloat n := by
  have hlog : n.log2 < 53 := (Nat.log2_lt hpos.ne').mpr hn
  have hshift : (0 - Format.binary64.targetExponent (totalExponent n 0)).toNat = 52 - n.log2 := by
    simp only [Format.targetExponent, totalExponent, Format.mantissaBits, Format.minExponent]
    omega
  have hword : n.toUInt64.toNat = n := Nat.mod_eq_of_lt (hn.trans (by decide))
  have hcompare : compare (n : ℤ) 0 = .gt := Int.compare_eq_gt.mpr (by omega)
  have hfloat : n.toUInt64.toFloat = .ofModel (.pack (roundWithAccuracy Format.binary64 .positive
      (n * 2 ^ (52 - n.log2)) (0 - (52 - n.log2 : ℕ)) .exact)) := by
    change Float.ofModel (.pack (UnpackedFloat.normalize Format.binary64
      (n.toUInt64.toNat : ℤ) 0 .positive)) = _
    simp only [UnpackedFloat.normalize, hword, hcompare, Int.toNat_natCast, UnpackedFloat.round,
      decreaseExponent, hshift, Nat.shiftLeft_eq]
  have hdigits : 2 ^ 52 ≤ n * 2 ^ (52 - n.log2) :=
    calc 2 ^ 52 = 2 ^ n.log2 * 2 ^ (52 - n.log2) := by rw [← pow_add]; congr 1; omega
      _ ≤ n * 2 ^ (52 - n.log2) := Nat.mul_le_mul_right _ (Nat.log2_self_le hpos.ne')
  have hexact : Leaves .exact ((n : ℚ) / 2 ^ (0 - (52 - n.log2 : ℕ) : ℤ) -
      (n * 2 ^ (52 - n.log2) : ℕ)) := by
    rw [zero_sub, zpow_neg, zpow_natCast, div_inv_eq_mul, Nat.cast_mul, Nat.cast_pow,
      Nat.cast_two]
    exact sub_self _
  obtain ⟨w, hw, hround⟩ := exists_stands_roundWithAccuracy
    ((Nat.le_log2 (by omega)).mpr hdigits) hexact (inRange_natCast hpos hn)
  rwa [← hround.eq_natCast hn, hfloat]

/-- A whole number of at most 53 digits is a double. -/
theorem stands_ofNat (hpos : 0 < n) (hn : n < 2 ^ 53) : Stands (Float.ofNat n) n := by
  have hone : Stands (Float.ofBits 0x3FF0000000000000) 1 :=
    ⟨2 ^ 52, -52, by decide, rfl, le_rfl, by decide, by decide, by decide, by norm_num⟩
  have hrange := inRange_natCast hpos hn
  rw [← mul_one (n : ℚ)] at hrange
  obtain ⟨w, hw, hround⟩ := (stands_toFloat hpos hn).mul hone hrange
  rw [mul_one] at hround
  have heq : Float.ofNat n = n.toUInt64.toFloat * Float.ofBits 0x3FF0000000000000 := by
    change Float.ofScientific n false 0 = _
    rw [Float.ofScientific, dif_pos ⟨hn, by decide⟩]
    rfl
  rwa [heq, ← hround.eq_natCast hn]

/-! ## Reading a double -/

variable (b : BitVec 64)

theorem toNat_unpackMantissa : (@unpackMantissa Format.binary64 b).toNat = b.toNat % 2 ^ 52 := by
  simp [unpackMantissa]

theorem toNat_unpackExponent :
    (@unpackExponent Format.binary64 b).toNat = b.toNat / 2 ^ 52 % 2 ^ 11 := by
  simp [unpackExponent, Nat.shiftRight_eq_div_pow]

theorem toNat_unpackSign : (@unpackSign Format.binary64 b).toNat = b.toNat / 2 ^ 63 := by
  have := b.isLt
  simp only [unpackSign, BitVec.toNat_cast, BitVec.extractLsb_toNat, Nat.shiftRight_eq_div_pow]
  change b.toNat / 2 ^ 63 % 2 = _
  omega

/-- The parts of a double are the mantissa and the exponent of the number it stands for. -/
theorem Stands.exists_parts (h : Stands x v) :
    ∃ b : Decimal.Binary, Decimal.Parts.ofFloat x = .finite false b ∧
      v = b.mantissa * 2 ^ b.exponent := by
  obtain ⟨m, e, hm, hx, hlow, -, -, -, rfl⟩ := h
  change unpack Format.binary64 x.toBits.toBitVec = _ at hx
  have hmantissa := toNat_unpackMantissa x.toBits.toBitVec
  have hexponent := toNat_unpackExponent x.toBits.toBitVec
  have hsign := toNat_unpackSign x.toBits.toBitVec
  rw [UInt64.toNat_toBitVec] at hmantissa hexponent hsign
  rw [unpack] at hx
  dsimp only at hx
  split at hx
  · split at hx <;> cases hx
  · next hfinite =>
      split at hx
      · split at hx
        · cases hx
        · injection hx with _ hnarrow
          omega
      · next hnormal =>
          injection hx with hpositive hm' he'
          -- the bits of the fields, as numbers
          have hnot : x.toBits.toNat / 2 ^ 63 ≠ 1 := by
            intro hone
            rw [hone] at hsign
            rw [Sign.ofBitVec, if_neg] at hpositive
            · cases hpositive
            · intro hzero
              rw [hzero] at hsign
              cases hsign
          have hmost : x.toBits.toNat / 2 ^ 52 % 2 ^ 11 ≠ 2047 := fun h =>
            hfinite (BitVec.eq_of_toNat_eq (hexponent.trans h))
          have hleast : x.toBits.toNat / 2 ^ 52 % 2 ^ 11 ≠ 0 := fun h =>
            hnormal (BitVec.eq_of_toNat_eq (hexponent.trans h))
          rw [toNat_one_append, hmantissa] at hm'
          rw [hexponent] at he'
          simp only [Decimal.Parts.ofFloat, Decimal.Parts.ofBits, Nat.pow_eq]
          rw [if_neg hmost, if_neg hleast, beq_false_of_ne hnot]
          refine ⟨_, rfl, ?_⟩
          rw [← hm', ← he', add_comm (2 ^ 52)]
          rfl

/-! ## Whole numbers near a double -/

theorem roundDiv_up (p : ℕ) {q : ℕ} (hq : 0 < q) :
    Decimal.roundDiv .up p q = (2 * p + q) / (2 * q) := by
  have hp := Nat.div_add_mod p q
  have hr := Nat.mod_lt p hq
  have hlow : p / q * (2 * q) = 2 * (q * (p / q)) := by ring
  have hhigh : (p / q + 1) * (2 * q) = 2 * (q * (p / q)) + 2 * q := by ring
  symm
  rw [Decimal.roundDiv, Decimal.Tie.choose]
  split
  · rw [Nat.div_eq_iff (by omega), hlow]
    omega
  · split <;> rw [Nat.div_eq_iff (by omega), hhigh] <;> omega

/-- The whole number nearest to a double is the one nearest to what it stands for. -/
theorem Stands.nearestNat_eq (h : Stands x v) (limit : ℕ) :
    Scalar.nearestNat limit x = min limit ⌊v + 1 / 2⌋₊ := by
  obtain ⟨⟨m, e, _⟩, hparts, rfl⟩ := h.exists_parts
  change divideFloat (Decimal.roundDiv .up) limit x = _
  rw [divideFloat, hparts]
  simp only [Nat.pow_eq, Bool.false_eq_true, if_false]
  rw [roundDiv_up _ (Nat.two_pow_pos _), ← Nat.floor_div_eq_div (K := ℚ)]
  congr 2
  have hsplit : (2 : ℚ) ^ e = 2 ^ e.toNat / 2 ^ (-e).toNat := by
    rw [← zpow_natCast, ← zpow_natCast, ← zpow_sub₀ two_ne_zero, Int.toNat_sub_toNat_neg]
  rw [hsplit]
  push_cast
  field_simp

/-- The whole part of a fraction of few digits outlasts its rounding. -/
theorem Rounds.floor_eq {p q : ℕ} (h : Rounds ((p : ℚ) / q) w) (hp : p < 2 ^ 53) (hq : 0 < q) :
    ⌊w⌋₊ = p / q := by
  have hpos : (0 : ℚ) < q := by exact_mod_cast hq
  have hpart := cast_div_sub p hq
  suffices ((p / q : ℕ) : ℚ) ≤ w ∧ w < (p / q : ℕ) + 1 from
    (Nat.floor_eq_iff ((Nat.cast_nonneg _).trans this.1)).mpr this
  rcases (p % q).eq_zero_or_pos with hr | hr
  · -- a whole number is not rounded
    rw [hr, Nat.cast_zero, zero_div] at hpart
    have hexact := h.exact (p / q) 0 ((Nat.div_le_self p q).trans_lt hp)
      (by rw [zpow_zero, mul_one]; linarith)
    constructor <;> linarith
  · -- otherwise a whole number is further off than the rounding goes
    have hstep : (p : ℚ) / q / 2 ^ 53 < 1 / q := by
      rw [div_right_comm, div_lt_div_iff_of_pos_right hpos, div_lt_one (by norm_num)]
      exact_mod_cast hp
    have hmore : (1 : ℚ) / q ≤ (p % q : ℕ) / q := by
      rw [div_le_div_iff_of_pos_right hpos]
      exact_mod_cast hr
    have hless : ((p % q : ℕ) : ℚ) / q + 1 / q ≤ 1 := by
      rw [← add_div, div_le_one hpos]
      exact_mod_cast Nat.mod_lt p hq
    have hnear := abs_le.mp h.near
    constructor <;> linarith

end Slideshow.Double
