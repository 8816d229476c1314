import TinyLisp.Proofs.Double.Reading

/-!
# The numbers that doubles stand for

A finite double stands for a rational number.  Rounding looks at nothing else, so sums and
differences are the roundings of the exact ones, and the order of doubles is the order of
their numbers.

There are four groups.

* `BinaryFraction.value`: the number, and `value_mantissaAt` and `compareInt_eq` for the
  operations of the fractions.
* `round_shift` and `ofFraction_congr`: zeros behind the bits of a mantissa change nothing.
* `Represents`: a finite double with the fraction it stands for.  `eq_ofFraction` says that
  it is the rounding of its own number.
* `exists_add`, `exists_sub`, `lt_iff`, `le_iff` and `beq_iff_value`: two doubles.
-/

namespace TinyLisp

open Float.Model (UnpackedFloat Format totalExponent)
open Float.Model.UnpackedFloat
open Float.Model.Format (binary64)

/-! ## Fractions -/

namespace BinaryFraction

/-- The number itself. -/
def value (x : BinaryFraction) : ℚ :=
  x.mantissa * 2 ^ x.exponent

/-- The mantissa at a lower exponent stands for the same number. -/
theorem value_mantissaAt (x : BinaryFraction) {e : Int} (h : e ≤ x.exponent) :
    value ⟨x.mantissaAt e, e⟩ = x.value := by
  have hpower : (2 : ℚ) ^ x.exponent = 2 ^ (x.exponent - e).toNat * 2 ^ e := by
    rw [← zpow_natCast, ← zpow_add₀ two_ne_zero, Int.toNat_of_nonneg (by omega), sub_add_cancel]
  rw [value, value, mantissaAt, Double.powerOfTwo_eq, hpower]
  push_cast
  ring

theorem scaled_eq (x : BinaryFraction) : (x.scaled : ℚ) = x.value * 2 ^ x.places := by
  have hvalue := x.value_mantissaAt (min_le_left x.exponent 0)
  have hplaces : min x.exponent 0 = -(x.places : Int) := by
    rw [places]
    omega
  rw [← hvalue, value, scaled, hplaces, mul_assoc, zpow_neg, zpow_natCast,
    inv_mul_cancel₀ (by positivity), mul_one]

theorem compareInt_eq (x : BinaryFraction) (n : Int) : x.compareInt n = compare x.value n := by
  have hpower : (0 : ℚ) < 2 ^ x.places := by positivity
  have hscaled : (x.scaled : ℚ) = x.value * 2 ^ x.places := x.scaled_eq
  have hn : ((n * powerOfTwo x.places : Int) : ℚ) = n * 2 ^ x.places := by
    rw [Double.powerOfTwo_eq]
    push_cast
    rfl
  rw [compareInt]
  rcases lt_trichotomy x.value n with h | h | h
  · rw [compare_lt_iff_lt.2 h, compare_lt_iff_lt, ← Int.cast_lt (R := ℚ), hscaled, hn]
    exact mul_lt_mul_of_pos_right h hpower
  · rw [compare_eq_iff_eq.2 h, compare_eq_iff_eq, ← Int.cast_inj (α := ℚ), hscaled, hn, h]
  · rw [compare_gt_iff_gt.2 h, compare_gt_iff_gt, ← Int.cast_lt (R := ℚ), hscaled, hn]
    exact mul_lt_mul_of_pos_right h hpower

end BinaryFraction

namespace Double

/-! ## Rounding a number -/

/-- Zeros behind a mantissa are shifted out without a trace. -/
theorem zeros_shiftRight (m k j : Nat) :
    (ExtendedMantissa.ofMantissaAndAccuracy (m * 2 ^ k) .exact) >>> (k + j) =
      (ExtendedMantissa.ofMantissaAndAccuracy m .exact) >>> j := by
  rw [← exact_shiftRight m k]
  change Nat.repeat ExtendedMantissa.shiftRightOne (k + j) _ =
    Nat.repeat ExtendedMantissa.shiftRightOne j (Nat.repeat ExtendedMantissa.shiftRightOne k _)
  induction j with
  | zero => rfl
  | succ j ih => exact congrArg ExtendedMantissa.shiftRightOne ih

theorem targetExponent_shift {m : Nat} (hm : 0 < m) (e : Int) (k : Nat) :
    binary64.targetExponent (totalExponent (m * 2 ^ k) (e - k)) =
      binary64.targetExponent (totalExponent m e) := by
  rw [targetExponent_eq, targetExponent_eq, log2_mul_two_pow hm]
  omega

theorem roundWithAccuracy_shift (sign : Sign) {m : Nat} (hm : 0 < m) {e : Int} (k : Nat)
    (h : e ≤ binary64.targetExponent (totalExponent m e)) :
    roundWithAccuracy binary64 sign (m * 2 ^ k) (e - k) .exact =
      roundWithAccuracy binary64 sign m e .exact := by
  have hshift : shiftToTargetExponent binary64 (m * 2 ^ k) (e - k) .exact =
      shiftToTargetExponent binary64 m e .exact := by
    unfold shiftToTargetExponent
    rw [targetExponent_shift hm]
    generalize binary64.targetExponent (totalExponent m e) = t at h
    have hamount : (t - (e - k)).toNat = k + (t - e).toNat := by omega
    simp only [shiftToExponent, hamount, zeros_shiftRight, Prod.mk.injEq, true_and]
    omega
  unfold roundWithAccuracy
  rw [hshift]

/-- Rounding depends on the number, not on how many zeros stand behind its bits. -/
theorem round_shift (sign : Sign) {m : Nat} (hm : 0 < m) (e : Int) (k : Nat) :
    UnpackedFloat.round binary64 sign (m * 2 ^ k) (e - k) =
      UnpackedFloat.round binary64 sign m e := by
  unfold UnpackedFloat.round
  simp only [targetExponent_shift hm, decreaseExponent, Nat.shiftLeft_eq]
  obtain ⟨t, ht⟩ : ∃ t, t = binary64.targetExponent (totalExponent m e) := ⟨_, rfl⟩
  rw [← ht]
  -- both mantissas are brought down to the target, where they differ in `extra` zeros
  obtain ⟨down, hdown⟩ : ∃ down, down = (e - t).toNat := ⟨_, rfl⟩
  obtain ⟨extra, hextra⟩ : ∃ extra, k + (e - k - t).toNat = down + extra :=
    Nat.exists_eq_add_of_le (by omega)
  have hmantissa : m * 2 ^ k * 2 ^ (e - k - t).toNat = m * 2 ^ down * 2 ^ extra := by
    rw [Nat.mul_assoc, Nat.mul_assoc, ← Nat.pow_add, ← Nat.pow_add, hextra]
  have hexponent : e - k - ((e - k - t).toNat : Int) = e - down - extra := by omega
  have hlow : e - down ≤ binary64.targetExponent (totalExponent (m * 2 ^ down) (e - down)) := by
    rw [targetExponent_shift hm, ← ht]
    omega
  rw [hmantissa, hexponent, ← hdown,
    roundWithAccuracy_shift sign (Nat.mul_pos hm (Nat.two_pow_pos down)) extra hlow]

theorem round_congr (sign : Sign) {m m' : Nat} (hm : 0 < m) (hm' : 0 < m') {e e' : Int}
    (h : (m : ℚ) * 2 ^ e = m' * 2 ^ e') :
    UnpackedFloat.round binary64 sign m e = UnpackedFloat.round binary64 sign m' e' := by
  wlog hle : e ≤ e' generalizing m m' e e'
  · exact (this hm' hm h.symm (by omega)).symm
  obtain ⟨k, rfl⟩ : ∃ k : Nat, e = e' - k := ⟨(e' - e).toNat, by omega⟩
  have hmantissa : m = m' * 2 ^ k := by
    have hpower : (2 : ℚ) ^ e' = 2 ^ k * 2 ^ (e' - k) := by
      rw [← zpow_natCast, ← zpow_add₀ two_ne_zero, add_sub_cancel]
    rw [hpower, ← mul_assoc] at h
    exact_mod_cast mul_right_cancel₀ (zpow_ne_zero _ two_ne_zero) h
  rw [hmantissa, round_shift sign hm']

theorem round_rounded (sign : Sign) {m : Nat} {e : Int} (h : Rounded m e) (hm : 0 < m) :
    UnpackedFloat.round binary64 sign m e = .finite sign m e hm := by
  unfold UnpackedFloat.round
  simp only [h.targetExponent hm, decreaseExponent, Int.sub_self, Int.toNat_zero,
    Nat.shiftLeft_zero, Int.natCast_zero, Int.sub_zero]
  simpa using roundWithAccuracy_exact sign h hm 0

/-! ## Rounding a fraction -/

theorem exists_apply {n : Int} (h : n ≠ 0) :
    ∃ (sign : Sign) (m : Nat), 0 < m ∧ n = sign.apply m := by
  rcases Int.lt_or_gt_of_ne h with hneg | hpos
  · exact ⟨.negative, n.natAbs, by omega, by rw [Sign.apply]; omega⟩
  · exact ⟨.positive, n.natAbs, by omega, by rw [Sign.apply]; omega⟩

theorem normalize_apply (sign zeroSign : Sign) {m : Nat} (hm : 0 < m) (e : Int) :
    UnpackedFloat.normalize binary64 (sign.apply m) e zeroSign =
      UnpackedFloat.round binary64 sign m e := by
  unfold UnpackedFloat.normalize
  cases sign with
  | negative =>
    have hlt : compare (-(m : Int)) 0 = .lt := Int.compare_eq_lt.2 (by omega)
    rw [Sign.apply, hlt]
    simp
  | positive =>
    have hgt : compare (m : Int) 0 = .gt := Int.compare_eq_gt.2 (by omega)
    rw [Sign.apply, hgt]
    simp

theorem value_apply_pos {m : Nat} (hm : 0 < m) (e : Int) :
    0 < BinaryFraction.value ⟨Sign.positive.apply m, e⟩ ∧
      BinaryFraction.value ⟨Sign.negative.apply m, e⟩ < 0 := by
  have hpos : (0 : ℚ) < m * 2 ^ e := by positivity
  constructor
  · exact hpos
  · simpa [BinaryFraction.value, Sign.apply] using hpos

theorem value_eq_zero_iff {x : BinaryFraction} : x.value = 0 ↔ x.mantissa = 0 := by
  simp [BinaryFraction.value, zpow_ne_zero]

/-- Equal numbers are rounded to the same double. -/
theorem ofFraction_congr {x y : BinaryFraction} (zeroSign zeroSign' : Sign)
    (h : x.value = y.value) (hne : x.value ≠ 0) :
    ofFraction x zeroSign = ofFraction y zeroSign' := by
  obtain ⟨mantissa, e⟩ := x
  obtain ⟨mantissa', e'⟩ := y
  obtain ⟨sign, m, hm, rfl⟩ := exists_apply (mt value_eq_zero_iff.2 hne)
  obtain ⟨sign', m', hm', rfl⟩ := exists_apply (mt value_eq_zero_iff.2 (h ▸ hne))
  obtain ⟨hpos, hneg⟩ := value_apply_pos hm e
  obtain ⟨hpos', hneg'⟩ := value_apply_pos hm' e'
  have hround :
      UnpackedFloat.round binary64 sign m e = UnpackedFloat.round binary64 sign' m' e' := by
    cases sign <;> cases sign'
    · apply round_congr _ hm hm'
      simpa [BinaryFraction.value, Sign.apply] using h
    · exact absurd h (hneg.trans hpos').ne
    · exact absurd h (hneg'.trans hpos).ne'
    · exact round_congr _ hm hm' h
  rw [ofFraction, ofFraction, normalize_apply _ _ hm, normalize_apply _ _ hm', hround]

theorem ofFraction_of_value_eq_zero {x : BinaryFraction} (zeroSign : Sign) (h : x.value = 0) :
    ofFraction x zeroSign = ofParts (.zero zeroSign) := by
  obtain ⟨mantissa, e⟩ := x
  obtain rfl : mantissa = 0 := value_eq_zero_iff.1 h
  rfl

/-! ## Finite doubles -/

/-- A finite double and the fraction that is found in it. -/
inductive Represents : Float → BinaryFraction → Prop where
  | zero (sign : Sign) : Represents (ofParts (.zero sign)) ⟨0, 0⟩
  | finite (sign : Sign) {m : Nat} {e : Int} (h : Canonical m e) :
      Represents (ofParts (.finite sign m e h.pos)) ⟨sign.apply m, e⟩

theorem represents_iff {x : Float} {f : BinaryFraction} :
    Represents x f ↔ fraction? x = some f := by
  constructor
  · intro h
    cases h with
    | zero sign => rw [fraction?, unpack_ofParts (.zero sign)]
    | finite sign h => exact fraction?_finite sign h
  · intro h
    obtain ⟨parts, hparts, rfl⟩ := exists_parts x
    rw [fraction?, unpack_ofParts hparts] at h
    cases hparts with
    | infinity sign | notANumber => cases h
    | zero sign =>
      cases h
      exact .zero sign
    | finite sign hc =>
      cases h
      exact .finite sign hc

namespace Represents

variable {x y : Float} {f g : BinaryFraction}

theorem isNaN_eq (h : Represents x f) : x.isNaN = false := by
  cases h with
  | zero sign => exact isNaN_ofParts nofun
  | finite sign h => exact isNaN_ofParts nofun

/-- A finite double is the rounding of its own number. -/
theorem eq_ofFraction (h : Represents x f) : ∃ zeroSign, x = ofFraction f zeroSign := by
  cases h with
  | zero sign => exact ⟨sign, rfl⟩
  | finite sign h =>
    refine ⟨.positive, ?_⟩
    rw [ofFraction, normalize_apply sign _ h.pos, round_rounded sign h.toRounded h.pos, ofParts]

/-! ## Sums and differences -/

/-- Operands are brought to a lower exponent before their mantissas are put together. -/
theorem apply_shift (sign : Sign) (m : Nat) (e target : Int) :
    sign.apply ((m <<< (e - target).toNat : Nat) : Int) =
      BinaryFraction.mantissaAt ⟨sign.apply m, e⟩ target := by
  have hshift : ((m <<< (e - target).toNat : Nat) : Int) = m * powerOfTwo (e - target).toNat := by
    rw [Nat.shiftLeft_eq, Int.natCast_mul]
    rfl
  rw [hshift]
  cases sign with
  | negative => exact (Int.neg_mul _ _).symm
  | positive => rfl

theorem add_ofParts {parts parts' : UnpackedFloat} (h : Normalised parts)
    (h' : Normalised parts') :
    ofParts parts + ofParts parts' = ofParts (parts.add binary64 parts') := by
  show Float.ofModel (.pack ((ofParts parts).toModel.unpack.add binary64
    (ofParts parts').toModel.unpack)) = _
  rw [unpack_ofParts h, unpack_ofParts h', ofParts]

theorem apply_neg (sign : Sign) (n : Int) : (-sign).apply n = -sign.apply n := by
  cases sign with
  | negative => exact (Int.neg_neg n).symm
  | positive => rfl

/-- A difference is a sum with a negative. -/
theorem sub_eq_add (x y : Float) : x - y = x + -y := by
  obtain ⟨parts, h, rfl⟩ := exists_parts x
  obtain ⟨parts', h', rfl⟩ := exists_parts y
  have hsub : parts.sub binary64 parts' = parts.add binary64 parts'.neg := by
    cases parts with
    | notANumber => rfl
    | infinity sign => cases parts' <;> rfl
    | zero sign => cases parts' <;> rfl
    | finite sign m e hm =>
      cases parts' with
      | finite sign' m' e' hm' =>
        rw [UnpackedFloat.neg, UnpackedFloat.sub, UnpackedFloat.add]
        simp only [apply_neg, Int.sub_eq_add_neg]
      | notANumber | infinity | zero => rfl
  rw [neg_ofParts h', add_ofParts h h'.neg, ← hsub]
  show Float.ofModel (.pack ((ofParts parts).toModel.unpack.sub binary64
    (ofParts parts').toModel.unpack)) = _
  rw [unpack_ofParts h, unpack_ofParts h', ofParts]

theorem neg (h : Represents x f) : Represents (-x) ⟨-f.mantissa, f.exponent⟩ := by
  cases h with
  | zero sign =>
    rw [neg_ofParts (.zero sign)]
    exact .zero (-sign)
  | finite sign h =>
    rw [neg_ofParts (.finite sign h), ← apply_neg]
    exact .finite (-sign) h

/-- The sum is the rounding of the exact sum. -/
theorem exists_add (hx : Represents x f) (hy : Represents y g) :
    ∃ h zeroSign, h.value = f.value + g.value ∧ x + y = ofFraction h zeroSign := by
  have hzero : BinaryFraction.value ⟨0, 0⟩ = 0 := value_eq_zero_iff.2 rfl
  cases hx with
  | zero sign =>
    cases hy with
    | zero sign' =>
      refine ⟨⟨0, 0⟩, if sign == sign' then sign else .positive, by rw [hzero, add_zero], ?_⟩
      rw [add_ofParts (.zero sign) (.zero sign'), UnpackedFloat.add]
      split <;> rfl
    | @finite sign' m' e' h =>
      obtain ⟨zeroSign, heq⟩ := (Represents.finite sign' h).eq_ofFraction
      refine ⟨⟨sign'.apply m', e'⟩, zeroSign, by rw [hzero, zero_add], ?_⟩
      exact (add_ofParts (.zero sign) (.finite sign' h)).trans heq
  | @finite sign m e h =>
    cases hy with
    | zero sign' =>
      obtain ⟨zeroSign, heq⟩ := (Represents.finite sign h).eq_ofFraction
      refine ⟨⟨sign.apply m, e⟩, zeroSign, by rw [hzero, add_zero], ?_⟩
      exact (add_ofParts (.finite sign h) (.zero sign')).trans heq
    | @finite sign' m' e' h' =>
      refine ⟨⟨_, _⟩, .positive, ?_, add_ofParts (.finite sign h) (.finite sign' h')⟩
      rw [apply_shift, apply_shift, BinaryFraction.value, Int.cast_add, add_mul]
      exact congrArg₂ _ (BinaryFraction.value_mantissaAt _ (min_le_left e e'))
        (BinaryFraction.value_mantissaAt _ (min_le_right e e'))

/-- The difference is the rounding of the exact difference. -/
theorem exists_sub (hx : Represents x f) (hy : Represents y g) :
    ∃ h zeroSign, h.value = f.value - g.value ∧ x - y = ofFraction h zeroSign := by
  obtain ⟨h, zeroSign, hvalue, heq⟩ := hx.exists_add hy.neg
  refine ⟨h, zeroSign, ?_, (sub_eq_add x y).trans heq⟩
  rw [hvalue, sub_eq_add_neg, BinaryFraction.value, BinaryFraction.value, BinaryFraction.value,
    Int.cast_neg, neg_mul]

/-! ## Order -/

/-- Of two canonical forms the one with the larger exponent stands for the larger number. -/
theorem lt_of_exponent_lt {m m' : Nat} {e e' : Int} (h : Canonical m e) (h' : Canonical m' e')
    (he : e < e') : (m : ℚ) * 2 ^ e < m' * 2 ^ e' := by
  have hlowest := h.lowest
  have hlow : (2 : ℚ) ^ 52 ≤ m' := by
    exact_mod_cast Nat.not_lt.1 fun hm' => by
      have := h'.normal hm'
      omega
  have hhigh : (m : ℚ) < 2 ^ 53 := by exact_mod_cast h.lt
  calc (m : ℚ) * 2 ^ e < 2 ^ 53 * 2 ^ e := mul_lt_mul_of_pos_right hhigh (by positivity)
    _ = 2 ^ 52 * 2 ^ (e + 1) := by
      rw [zpow_add_one₀ two_ne_zero]
      ring
    _ ≤ m' * 2 ^ (e + 1) := mul_le_mul_of_nonneg_right hlow (by positivity)
    _ ≤ m' * 2 ^ e' := by
      gcongr
      · norm_num
      · omega

theorem compare_magnitudes {m m' : Nat} {e e' : Int} (h : Canonical m e) (h' : Canonical m' e') :
    (compare e e').then (compare m m') = compare ((m : ℚ) * 2 ^ e) (m' * 2 ^ e') := by
  rcases lt_trichotomy e e' with he | rfl | he
  · rw [compare_lt_iff_lt.2 he, compare_lt_iff_lt.2 (lt_of_exponent_lt h h' he)]
    rfl
  · have hpower : (0 : ℚ) < 2 ^ e := by positivity
    rw [compare_eq_iff_eq.2 rfl]
    show compare m m' = _
    rcases lt_trichotomy m m' with hm | rfl | hm
    · rw [compare_lt_iff_lt.2 hm, eq_comm, compare_lt_iff_lt]
      exact mul_lt_mul_of_pos_right (by exact_mod_cast hm) hpower
    · rw [compare_eq_iff_eq.2 rfl, compare_eq_iff_eq.2 rfl]
    · rw [compare_gt_iff_gt.2 hm, eq_comm, compare_gt_iff_gt]
      exact mul_lt_mul_of_pos_right (by exact_mod_cast hm) hpower
  · rw [compare_gt_iff_gt.2 he, compare_gt_iff_gt.2 (lt_of_exponent_lt h' h he)]
    rfl

theorem swap_compare (a b : ℚ) : (compare a b).swap = compare (-a) (-b) := by
  rcases lt_trichotomy a b with h | rfl | h
  · rw [compare_lt_iff_lt.2 h, compare_gt_iff_gt.2 (neg_lt_neg h)]
    rfl
  · rw [compare_eq_iff_eq.2 rfl, compare_eq_iff_eq.2 rfl]
    rfl
  · rw [compare_gt_iff_gt.2 h, compare_lt_iff_lt.2 (neg_lt_neg h)]
    rfl

/-- Finite doubles compare as their numbers do. -/
theorem compare_eq (hx : Represents x f) (hy : Represents y g) :
    x.toModel.unpack.compare y.toModel.unpack = some (compare f.value g.value) := by
  have hzero : BinaryFraction.value ⟨0, 0⟩ = 0 := value_eq_zero_iff.2 rfl
  cases hx with
  | zero sign =>
    rw [unpack_ofParts (.zero sign)]
    cases hy with
    | zero sign' =>
      rw [unpack_ofParts (.zero sign'), compare_eq_iff_eq.2 rfl]
      rfl
    | finite sign' h =>
      obtain ⟨hpos, hneg⟩ := value_apply_pos h.pos _
      rw [unpack_ofParts (.finite sign' h), hzero]
      cases sign' with
      | negative =>
        rw [compare_gt_iff_gt.2 hneg]
        rfl
      | positive =>
        rw [compare_lt_iff_lt.2 hpos]
        rfl
  | finite sign h =>
    obtain ⟨hpos, hneg⟩ := value_apply_pos h.pos _
    rw [unpack_ofParts (.finite sign h)]
    cases hy with
    | zero sign' =>
      rw [unpack_ofParts (.zero sign'), hzero]
      cases sign with
      | negative =>
        rw [compare_lt_iff_lt.2 hneg]
        rfl
      | positive =>
        rw [compare_gt_iff_gt.2 hpos]
        rfl
    | finite sign' h' =>
      obtain ⟨hpos', hneg'⟩ := value_apply_pos h'.pos _
      rw [unpack_ofParts (.finite sign' h')]
      cases sign <;> cases sign'
      · rw [UnpackedFloat.compare, compare_magnitudes h h', swap_compare]
        simp [BinaryFraction.value, Sign.apply]
      · rw [compare_lt_iff_lt.2 (hneg.trans hpos')]
        rfl
      · rw [compare_gt_iff_gt.2 (hneg'.trans hpos)]
        rfl
      · exact congrArg some (compare_magnitudes h h')

theorem lt_iff (hx : Represents x f) (hy : Represents y g) : x < y ↔ f.value < g.value := by
  have hlt : x < y ↔ (x.toModel.unpack.compare y.toModel.unpack == some .lt) = true :=
    decide_eq_true_iff
  rw [hlt, compare_eq hx hy]
  simp [compare_lt_iff_lt]

theorem le_iff (hx : Represents x f) (hy : Represents y g) : x ≤ y ↔ f.value ≤ g.value := by
  have hle : x ≤ y ↔ (x.toModel.unpack.compare y.toModel.unpack).any (·.isLE) = true :=
    decide_eq_true_iff
  rw [hle, compare_eq hx hy, Option.any_some]
  rw [Ordering.isLE_iff_ne_gt, ← not_lt, ← compare_gt_iff_gt]

theorem beq_iff_value (hx : Represents x f) (hy : Represents y g) :
    (x == y) = true ↔ f.value = g.value := by
  show (x.toModel.unpack.compare y.toModel.unpack == some .eq) = true ↔ _
  rw [compare_eq hx hy]
  simp

end Represents

end Double
end TinyLisp
