import TinyLisp.Proofs.Double.Packing

/-!
# Rounding to doubles

A number is rounded by shifting its mantissa to the exponent that a double of
its magnitude has.  The bits that fall off decide about the last one that stays.

There are two groups.

* `roundWithAccuracy_exact`: a number in canonical form is its own rounding,
  whatever zeros have been put behind its mantissa.
* `roundWithAccuracy_rounded`: every number is rounded to zero or to a number in
  canonical form.
-/

namespace TinyLisp.Double

open Float.Model (UnpackedFloat Format totalExponent)
open Float.Model.UnpackedFloat
open Float.Model.Format (binary64)

/-- The exponent at which a number with the given magnitude is rounded. -/
theorem targetExponent_eq (mantissa : Nat) (exponent : Int) :
    binary64.targetExponent (totalExponent mantissa exponent) =
      max (mantissa.log2 + 1 + exponent - 53) (-1074) :=
  rfl

theorem Rounded.targetExponent {m : Nat} {e : Int} (h : Rounded m e) (hm : 0 < m) :
    binary64.targetExponent (totalExponent m e) = e := by
  have hlowest := h.lowest
  rw [targetExponent_eq]
  have hlt : m.log2 < 53 := (Nat.log2_lt (by omega)).2 h.lt
  by_cases hn : m < 2 ^ 52
  · have he := h.normal hn
    have := (Nat.log2_lt (by omega)).2 hn
    omega
  · have := (Nat.le_log2 (by omega)).2 (Nat.not_lt.1 hn)
    omega

/-! ## Numbers that are exact -/

@[simp] theorem mantissa_shiftRight (em : ExtendedMantissa) (n : Nat) :
    (em >>> n).mantissa = em.mantissa / 2 ^ n := by
  change (Nat.repeat ExtendedMantissa.shiftRightOne n em).mantissa = _
  induction n with
  | zero => simp [Nat.repeat]
  | succ n ih =>
    rw [Nat.repeat, ExtendedMantissa.shiftRightOne, ih, Nat.div_div_eq_div_mul, Nat.pow_succ]

@[simp] theorem mantissa_ofMantissaAndAccuracy (m : Nat) (accuracy : Accuracy) :
    (ExtendedMantissa.ofMantissaAndAccuracy m accuracy).mantissa = m := by
  match accuracy with
  | .exact | .inexact .lt | .inexact .eq | .inexact .gt => rfl

theorem roundToNearestEven_bounds (m : Nat) (accuracy : Accuracy) :
    m ≤ accuracy.roundToNearestEven m ∧ accuracy.roundToNearestEven m ≤ m + 1 := by
  match accuracy with
  | .exact | .inexact .lt | .inexact .eq | .inexact .gt =>
    simp only [Accuracy.roundToNearestEven]
    omega

/-- A mantissa that ends in `n` zeros loses nothing when it is shifted by `n`. -/
theorem exact_shiftRight (m n : Nat) :
    (ExtendedMantissa.ofMantissaAndAccuracy (m * 2 ^ n) .exact) >>> n =
      ExtendedMantissa.ofMantissaAndAccuracy m .exact := by
  change Nat.repeat ExtendedMantissa.shiftRightOne n _ = _
  induction n generalizing m with
  | zero => simp [Nat.repeat]
  | succ n ih =>
    rw [Nat.repeat, Nat.pow_succ, Nat.mul_comm (2 ^ n) 2, ← Nat.mul_assoc, ih (m * 2)]
    simp [ExtendedMantissa.shiftRightOne, ExtendedMantissa.ofMantissaAndAccuracy]

theorem log2_mul_two_pow {m : Nat} (hm : 0 < m) (n : Nat) : (m * 2 ^ n).log2 = m.log2 + n := by
  induction n with
  | zero => simp
  | succ n ih =>
    have hpos : m * 2 ^ n ≠ 0 :=
      Nat.mul_ne_zero (Nat.pos_iff_ne_zero.1 hm) (Nat.pos_iff_ne_zero.1 (Nat.two_pow_pos n))
    rw [Nat.pow_succ, ← Nat.mul_assoc, Nat.mul_comm _ 2, Nat.log2_two_mul hpos, ih, Nat.add_assoc]

/-- A number in canonical form is not changed by rounding. -/
theorem roundWithAccuracy_exact (sign : Sign) {m : Nat} {e : Int} (h : Rounded m e) (hm : 0 < m)
    (n : Nat) :
    roundWithAccuracy binary64 sign (m * 2 ^ n) (e - n) .exact = .finite sign m e hm := by
  have ht : binary64.targetExponent (totalExponent (m * 2 ^ n) (e - n)) = e := by
    have hbefore := h.targetExponent hm
    rw [targetExponent_eq] at hbefore ⊢
    rw [log2_mul_two_pow hm]
    omega
  have hshift : shiftToTargetExponent binary64 (m * 2 ^ n) (e - n) .exact =
      (ExtendedMantissa.ofMantissaAndAccuracy m .exact, e) := by
    rw [shiftToTargetExponent, ht, shiftToExponent, show (e - (e - n)).toNat = n by omega]
    simp only [exact_shiftRight]
    congr 1
    omega
  have hagain : shiftToTargetExponent binary64 m e .exact =
      (ExtendedMantissa.ofMantissaAndAccuracy m .exact, e) := by
    rw [shiftToTargetExponent, h.targetExponent hm, shiftToExponent]
    simp
    rfl
  have hround : (ExtendedMantissa.ofMantissaAndAccuracy m .exact).roundedMantissa = m := rfl
  simp only [roundWithAccuracy, hshift, hround, hagain, mantissa_ofMantissaAndAccuracy]
  rw [dif_neg (by omega)]

/-! ## Any number -/

/-- The first shift leaves at most 53 bits, and exactly that many above the lowest exponent. -/
theorem shifted_bounds {m : Nat} {e t : Int}
    (ht : t = binary64.targetExponent (totalExponent m e)) (h : e ≤ t) :
    m / 2 ^ (t - e).toNat < 2 ^ 53 ∧ (-1074 < t → 2 ^ 52 ≤ m / 2 ^ (t - e).toNat) := by
  rw [targetExponent_eq] at ht
  constructor
  · rw [Nat.div_lt_iff_lt_mul (Nat.two_pow_pos _), ← Nat.pow_add]
    have hm : m < 2 ^ (m.log2 + 1) := Nat.lt_log2_self
    have hle : 2 ^ (m.log2 + 1) ≤ 2 ^ (53 + (t - e).toNat) :=
      Nat.pow_le_pow_right (by omega) (by omega)
    omega
  · intro hlow
    have hm : m ≠ 0 := by
      rintro rfl
      simp at ht
      omega
    rw [Nat.le_div_iff_mul_le (Nat.two_pow_pos _), ← Nat.pow_add]
    have hn : 52 + (t - e).toNat = m.log2 := by omega
    rw [hn]
    exact Nat.log2_self_le hm

/-- A mantissa that has been rounded up to 54 bits is shifted once more; any other stays. -/
theorem final_shift {r : Nat} {t : Int} (hr : r ≤ 2 ^ 53) (hlow : -1074 ≤ t)
    (hnormal : -1074 < t → 2 ^ 52 ≤ r) :
    ∃ (m : Nat) (e : Int), (shiftToTargetExponent binary64 r t .exact).1.mantissa = m ∧
      (shiftToTargetExponent binary64 r t .exact).2 = e ∧ Rounded m e ∧ t ≤ e := by
  by_cases htop : r = 2 ^ 53
  · subst htop
    have htarget : binary64.targetExponent (totalExponent (2 ^ 53) t) = t + 1 := by
      rw [targetExponent_eq, Nat.log2_two_pow]
      omega
    refine ⟨2 ^ 52, t + 1, ?_, ?_, ⟨by omega, by omega, by omega⟩, by omega⟩
    · rw [shiftToTargetExponent, htarget, shiftToExponent, mantissa_shiftRight,
        mantissa_ofMantissaAndAccuracy, show (t + 1 - t).toNat = 1 by omega]
      rfl
    · rw [shiftToTargetExponent, htarget, shiftToExponent]
      simp only
      omega
  · have hrounded : Rounded r t := ⟨by omega, hlow, fun h => by omega⟩
    have htarget : binary64.targetExponent (totalExponent r t) = t := by
      by_cases hzero : r = 0
      · subst hzero
        rw [targetExponent_eq]
        simp
        omega
      · exact hrounded.targetExponent (by omega)
    refine ⟨r, t, ?_, ?_, hrounded, Int.le_refl t⟩
    · rw [shiftToTargetExponent, htarget, shiftToExponent]
      simp
    · rw [shiftToTargetExponent, htarget, shiftToExponent]
      simp only
      omega

/-- Rounding gives zero or a number in canonical form, which may still be beyond
all doubles.  Its exponent is not below the one that it was rounded at. -/
theorem roundWithAccuracy_rounded (sign : Sign) (m : Nat) (e : Int) (accuracy : Accuracy)
    (h : e ≤ binary64.targetExponent (totalExponent m e)) :
    roundWithAccuracy binary64 sign m e accuracy = .zero sign ∨
      ∃ (m' : Nat) (e' : Int) (hm : 0 < m'),
        roundWithAccuracy binary64 sign m e accuracy = .finite sign m' e' hm ∧ Rounded m' e' ∧
        binary64.targetExponent (totalExponent m e) ≤ e' := by
  obtain ⟨t, ht⟩ : ∃ t, t = binary64.targetExponent (totalExponent m e) := ⟨_, rfl⟩
  have hlow : -1074 ≤ t := by
    rw [ht, targetExponent_eq]
    omega
  rw [← ht] at h ⊢
  obtain ⟨hlt, hnormal⟩ := shifted_bounds ht h
  obtain ⟨em, hem⟩ :
      ∃ em, em = ExtendedMantissa.ofMantissaAndAccuracy m accuracy >>> (t - e).toNat :=
    ⟨_, rfl⟩
  have hfirst : shiftToTargetExponent binary64 m e accuracy = (em, t) := by
    rw [shiftToTargetExponent, ← ht, shiftToExponent, ← hem]
    simp only [Prod.mk.injEq, true_and]
    omega
  have hmantissa : em.mantissa = m / 2 ^ (t - e).toNat := by
    rw [hem, mantissa_shiftRight, mantissa_ofMantissaAndAccuracy]
  have hbounds := roundToNearestEven_bounds em.mantissa em.accuracy
  obtain ⟨m', e', hm', he', hrounded, hle⟩ :=
    final_shift (r := em.roundedMantissa) (t := t)
      (by rw [ExtendedMantissa.roundedMantissa]; omega) hlow
      (fun h => by have := hnormal h; rw [ExtendedMantissa.roundedMantissa]; omega)
  simp only [roundWithAccuracy, hfirst]
  by_cases hzero : m' = 0
  · left
    rw [dif_pos (by rw [hm', hzero])]
  · right
    refine ⟨m', e', by omega, ?_, hrounded, hle⟩
    rw [dif_neg (by rw [hm']; exact hzero)]
    simp only [hm', he']
end TinyLisp.Double
