import TinyLisp.Number.Decimal
import TinyLisp.Proofs.Double.Rounding

/-!
# Decimals of doubles

The decimals that a double is written with are read as the same double.  Nothing
is assumed about the conversions: both are computed with integers.

There are five groups.

* `ofParts`: a double as the parts it is made of.  `exists_parts` says that every
  double has such parts, and `ofParts_inj` that they are its own.
* `toDouble_whole`: an integral double is found again in the integer it is.
* `mod_of_toDouble`: a whole number is not read as a double with a fraction.
* `toDouble_shortest`: a double with a fraction is found again in its shortest
  decimal.  `shortest_exponent_neg` says that this decimal has a fraction, too.
* `isNaN_toDouble`: what a decimal is read as is a number.
-/

namespace TinyLisp.Double

open Float.Model (UnpackedFloat Format totalExponent)
open Float.Model.UnpackedFloat
open Float.Model.Format (binary64)

/-! ## The kinds of doubles -/

/-- The double with the given parts. -/
def ofParts (parts : UnpackedFloat) : Float :=
  .ofModel (.pack parts)

/-- The parts that a double is made of and found in it again. -/
inductive Normalised : UnpackedFloat → Prop where
  | infinity (sign : Sign) : Normalised (.infinity sign)
  | notANumber : Normalised .notANumber
  | zero (sign : Sign) : Normalised (.zero sign)
  | finite (sign : Sign) {m : Nat} {e : Int} (h : Canonical m e) :
      Normalised (.finite sign m e h.pos)

theorem unpack_ofParts {parts : UnpackedFloat} (h : Normalised parts) :
    (ofParts parts).toModel.unpack = parts := by
  have hpack : (ofParts parts).toModel.unpack = unpack binary64 (pack binary64 parts) := by
    simp [ofParts, Float.Model.unpack, Float.Model.pack]
  rw [hpack]
  cases h with
  | infinity sign => cases sign <;> rfl
  | notANumber => rfl
  | zero sign => cases sign <;> rfl
  | finite sign h => exact unpack_pack_finite sign h

/-- Every double is made of its parts. -/
theorem exists_parts (x : Float) : ∃ parts, Normalised parts ∧ x = ofParts parts := by
  refine ⟨x.toModel.unpack, ?_, ?_⟩
  · have hu := unpacked_unpack x.toModel.toBits.toBitVec
    rw [Float.Model.unpack]
    generalize unpack binary64 x.toModel.toBits.toBitVec = u at hu ⊢
    cases hu with
    | infinity sign => exact .infinity sign
    | notANumber => exact .notANumber
    | zero sign => exact .zero sign
    | finite sign h => exact .finite sign h
  · rw [ofParts, pack_unpack]

/-- Two doubles with the same parts are the same. -/
theorem ofParts_inj {parts parts' : UnpackedFloat} (h : Normalised parts)
    (h' : Normalised parts') : ofParts parts = ofParts parts' ↔ parts = parts' := by
  constructor
  · intro heq
    rw [← unpack_ofParts h, heq, unpack_ofParts h']
  · rintro rfl
    rfl

theorem Normalised.neg {parts : UnpackedFloat} (h : Normalised parts) : Normalised parts.neg := by
  cases h with
  | infinity sign => exact .infinity _
  | notANumber => exact .notANumber
  | zero sign => exact .zero _
  | finite sign h => exact .finite _ h

theorem neg_ofParts {parts : UnpackedFloat} (h : Normalised parts) :
    -ofParts parts = ofParts parts.neg := by
  show Float.ofModel (.pack (ofParts parts).toModel.unpack.neg) = _
  rw [unpack_ofParts h, ofParts]

theorem abs_ofParts {parts : UnpackedFloat} (h : Normalised parts) :
    (ofParts parts).abs = ofParts parts.abs := by
  show Float.ofModel (.pack (ofParts parts).toModel.unpack.abs) = _
  rw [unpack_ofParts h, ofParts]

theorem negative_zero : (-0.0 : Float) = ofParts (.zero .negative) := by
  decide

/-! ## The fraction of a double -/

theorem fraction?_finite (sign : Sign) {m : Nat} {e : Int} (h : Canonical m e) :
    fraction? (ofParts (.finite sign m e h.pos)) = some ⟨sign.apply m, e⟩ := by
  rw [fraction?, unpack_ofParts (.finite sign h)]

theorem natAbs_apply (sign : Sign) (m : Nat) : (sign.apply m).natAbs = m := by
  cases sign <;> simp [Sign.apply]

theorem powerOfTwo_eq (n : Nat) : powerOfTwo n = ((2 ^ n : Nat) : Int) :=
  rfl

/-- The scaled mantissa of a number without bits behind the point. -/
theorem scaled_of_nonneg (m : Int) {e : Int} (he : 0 ≤ e) :
    BinaryFraction.scaled ⟨m, e⟩ = m * powerOfTwo e.toNat ∧ BinaryFraction.places ⟨m, e⟩ = 0 := by
  rw [BinaryFraction.scaled, BinaryFraction.mantissaAt, BinaryFraction.places]
  simp only
  rw [Int.min_eq_right he, Int.sub_zero]
  exact ⟨rfl, Int.toNat_of_nonpos (by omega)⟩

/-- The scaled mantissa of a number with bits behind the point only. -/
theorem scaled_of_nonpos (m : Int) {e : Int} (he : e ≤ 0) :
    BinaryFraction.scaled ⟨m, e⟩ = m := by
  rw [BinaryFraction.scaled, BinaryFraction.mantissaAt]
  simp only
  rw [Int.min_eq_left he, Int.sub_self, powerOfTwo_eq]
  simp

/-! ## Decimals without a fraction -/

/-- A whole number of ordinary size is read by rounding it at the 53rd binary place. -/
theorem ofScientific_whole {digits : Nat} (places : Nat) (hdigits : digits ≠ 0)
    (hplaces : places ≤ 2048) :
    UnpackedFloat.ofScientific binary64 digits places =
      roundWithAccuracy binary64 .positive (digits * 10 ^ places * 2 ^ 53) (-53) .exact := by
  rw [UnpackedFloat.ofScientific, dif_neg hdigits, if_neg, if_neg, if_pos (by omega)]
  · show roundWithAccuracy binary64 .positive (digits <<< 53 * 10 ^ (places : Int).toNat) (-53 + 0)
        .exact = _
    rw [Nat.shiftLeft_eq, Int.toNat_natCast]
    congr 1
    rw [Nat.mul_assoc, Nat.mul_comm (2 ^ 53), ← Nat.mul_assoc]
  · show ¬ ((places : Int) < -((2 ^ 11 : Int) + digits.log2))
    omega
  · show ¬ ((places : Int) > 2 ^ 11)
    omega

/-- A whole number that is a mantissa at an exponent is read as just this double. -/
theorem toDouble_whole {n m : Nat} {e : Int} (h : Canonical m e) (k : Nat)
    (hn : n * 2 ^ 53 = m * 2 ^ k) (he : e - k = -53) :
    (⟨n, 0⟩ : Decimal).toDouble = ofParts (.finite .positive m e h.pos) := by
  have hpos : n ≠ 0 := by
    rintro rfl
    have : m * 2 ^ k ≠ 0 :=
      Nat.mul_ne_zero (Nat.pos_iff_ne_zero.1 h.pos) (Nat.pos_iff_ne_zero.1 (Nat.two_pow_pos k))
    omega
  rw [Decimal.toDouble, Float.Model.ofScientific, ofParts]
  have hread := ofScientific_whole 0 hpos (by omega)
  rw [Int.natCast_zero] at hread
  rw [hread, Nat.pow_zero, Nat.mul_one, hn, ← he, roundWithAccuracy_exact _ h.toRounded h.pos]

/-- Beyond the highest exponent stands infinity. -/
theorem ofParts_beyond (sign : Sign) {m : Nat} {e : Int} (hm : 0 < m) (he : 971 < e) :
    ofParts (.finite sign m e hm) = ofParts (.infinity sign) := by
  have hbias : (e + binary64.exponentBias + binary64.mantissaBitsWithoutImplicit).toNat
      = (e + 1075).toNat := by
    show (e + (1023 : Nat) + (52 : Nat)).toNat = (e + 1075).toNat
    omega
  have hpack : pack binary64 (.finite sign m e hm) = pack binary64 (.infinity sign) := by
    rw [pack, pack]
    simp only [hbias]
    rw [if_pos (by show 2048 ≤ _; omega)]
  simp only [ofParts, Float.Model.pack, hpack]

/-- The double that a rounded number is, unless it is beyond all doubles. -/
theorem eq_of_rounded {m m' : Nat} {e e' : Int} (h : Canonical m e) (h' : Rounded m' e')
    (hm : 0 < m') (heq : ofParts (.finite .positive m' e' hm) =
      ofParts (.finite .positive m e h.pos)) : m' = m ∧ e' = e := by
  by_cases he : 971 < e'
  · rw [ofParts_beyond _ hm he, ofParts_inj (.infinity _) (.finite _ h)] at heq
    cases heq
  · have hc : Canonical m' e' := ⟨h', hm, by omega⟩
    rw [ofParts_inj (.finite _ hc) (.finite _ h)] at heq
    simp only [UnpackedFloat.finite.injEq, true_and] at heq
    exact heq

/-- Whole numbers below `2 ^ 52` keep all their bits, and larger ones lose those below the
point: the double that a whole number is read as has no bits behind the point. -/
theorem mod_of_whole {n m : Nat} {e : Int} (hn : 0 < n) (h : Canonical m e) (he : e < 0)
    (hread :
      Float.ofModel (.pack (roundWithAccuracy binary64 .positive (n * 2 ^ 53) (-53) .exact)) =
      ofParts (.finite .positive m e h.pos)) : m % 2 ^ (-e).toNat = 0 := by
  by_cases hlog : n.log2 < 52
  · have hlow : 2 ^ n.log2 ≤ n := Nat.log2_self_le (by omega)
    have hhigh : n < 2 ^ (n.log2 + 1) := Nat.lt_log2_self
    obtain ⟨j, hj⟩ : ∃ j, j = 52 - n.log2 := ⟨_, rfl⟩
    have hjlow : 2 ^ 52 ≤ n * 2 ^ j := by
      have := Nat.mul_le_mul_right (2 ^ j) hlow
      rwa [← Nat.pow_add, show n.log2 + j = 52 by omega] at this
    have hjhigh : n * 2 ^ j < 2 ^ 53 := by
      have := Nat.mul_lt_mul_of_pos_right hhigh (Nat.two_pow_pos j)
      rwa [← Nat.pow_add, show n.log2 + 1 + j = 53 by omega] at this
    have hrounded : Rounded (n * 2 ^ j) (-j) := ⟨hjhigh, by omega, by omega⟩
    have hpos : 0 < n * 2 ^ j := by omega
    have hsplit : n * 2 ^ 53 = n * 2 ^ j * 2 ^ (53 - j) := by
      rw [Nat.mul_assoc, ← Nat.pow_add, show j + (53 - j) = 53 by omega]
    rw [hsplit, show (-53 : Int) = -j - (53 - j : Nat) by omega,
      roundWithAccuracy_exact _ hrounded hpos] at hread
    obtain ⟨rfl, rfl⟩ := eq_of_rounded h hrounded hpos hread
    simp
  · have htarget : binary64.targetExponent (totalExponent (n * 2 ^ 53) (-53)) = n.log2 - 52 := by
      rw [targetExponent_eq, log2_mul_two_pow hn]
      omega
    rcases roundWithAccuracy_rounded .positive (n * 2 ^ 53) (-53) .exact (by omega) with
      hzero | ⟨m', e', hm, hround, hrounded, hle⟩
    · rw [hzero] at hread
      have := (ofParts_inj (.zero _) (.finite _ h)).1 hread
      cases this
    · rw [hround] at hread
      obtain ⟨rfl, rfl⟩ := eq_of_rounded h hrounded hm hread
      omega

/-- A decimal without places behind the point is not read as a double with bits there. -/
theorem mod_of_toDouble {d : Decimal} {m : Nat} {e : Int} (h : Canonical m e) (he : e < 0)
    (hd : d.toDouble = ofParts (.finite .positive m e h.pos)) (hexp : 0 ≤ d.exponent) :
    m % 2 ^ (-e).toNat = 0 := by
  obtain ⟨digits, exponent⟩ := d
  obtain ⟨places, rfl⟩ := Int.eq_ofNat_of_zero_le hexp
  rw [Decimal.toDouble, Float.Model.ofScientific] at hd
  by_cases hdigits : digits = 0
  · subst hdigits
    have hzero : UnpackedFloat.ofScientific binary64 0 places = .zero .positive := rfl
    simp only [hzero] at hd
    have := (ofParts_inj (.zero _) (.finite _ h)).1 hd
    cases this
  · by_cases hplaces : places ≤ 2048
    · simp only [ofScientific_whole places hdigits hplaces] at hd
      exact mod_of_whole (Nat.mul_pos (by omega) (Nat.pow_pos (by omega))) h he hd
    · have hbeyond : UnpackedFloat.ofScientific binary64 digits places = .infinity .positive := by
        rw [UnpackedFloat.ofScientific, dif_neg hdigits, if_pos]
        show (places : Int) > 2 ^ 11
        omega
      simp only [hbeyond] at hd
      have := (ofParts_inj (.infinity _) (.finite _ h)).1 hd
      cases this

/-! ## Decimals with a fraction -/

theorem log2_mul_le {a b : Nat} (ha : a ≠ 0) (hb : b ≠ 0) :
    (a * b).log2 ≤ a.log2 + b.log2 + 1 := by
  have h : (a * b).log2 < a.log2 + 1 + (b.log2 + 1) := by
    rw [Nat.log2_lt (Nat.mul_ne_zero ha hb), Nat.pow_add]
    exact Nat.mul_lt_mul'' Nat.lt_log2_self Nat.lt_log2_self
  omega

/-- The quotient of the digits of a binary fraction by its power of ten is exact. -/
theorem divCore_exact {m k : Nat} (h : Canonical m (-k)) :
    ∃ n : Nat, divCore binary64 (m * 5 ^ k) 0 (10 ^ k) 0 = (m * 2 ^ n, -(k : Int) - n, .exact) := by
  have h5 : 5 ^ k ≠ 0 := Nat.pos_iff_ne_zero.1 (Nat.pow_pos (by omega))
  have hten : 10 ^ k = 5 ^ k * 2 ^ k := by rw [← Nat.mul_pow]
  have hlowest := h.lowest
  obtain ⟨t, ht⟩ : ∃ t, t = min (0 - 0 : Int) (binary64.targetExponent
      (totalExponent (m * 5 ^ k) 0 - totalExponent (10 ^ k) 0)) := ⟨_, rfl⟩
  have hle : t ≤ -k := by
    have hlog : m.log2 < 53 := (Nat.log2_lt (by have := h.pos; omega)).2 h.lt
    have hdividend := log2_mul_le (Nat.pos_iff_ne_zero.1 h.pos) h5
    have hdivisor : (10 ^ k).log2 = (5 ^ k).log2 + k := by
      rw [hten, log2_mul_two_pow (Nat.pos_iff_ne_zero.2 h5)]
    have htarget : binary64.targetExponent
        (totalExponent (m * 5 ^ k) 0 - totalExponent (10 ^ k) 0) =
        max ((m * 5 ^ k).log2 + 1 + 0 - ((10 ^ k).log2 + 1 + 0) - 53 : Int) (-1074) := rfl
    rw [htarget, hdivisor] at ht
    omega
  have hshift : (m * 5 ^ k) <<< (0 - 0 - t).toNat = m * 2 ^ ((-t).toNat - k) * 10 ^ k := by
    rw [Nat.shiftLeft_eq, hten, show (0 - 0 - t).toNat = (-t).toNat - k + k by omega, Nat.pow_add,
      Nat.mul_mul_mul_comm]
  have hmod : m * 2 ^ ((-t).toNat - k) * 10 ^ k % 10 ^ k = 0 := Nat.mul_mod_left _ _
  have hdiv : m * 2 ^ ((-t).toNat - k) * 10 ^ k / 10 ^ k = m * 2 ^ ((-t).toNat - k) :=
    Nat.mul_div_cancel _ (Nat.pow_pos (by omega))
  refine ⟨(-t).toNat - k, ?_⟩
  rw [divCore]
  simp only [← ht, hshift, hmod, hdiv]
  rw [accuracyOfFraction, if_pos rfl, show -(k : Int) - ((-t).toNat - k : Nat) = t by omega]

/-- The digits of a double with a fraction, all of them, are read as its magnitude. -/
theorem toDouble_exact {m : Nat} {e : Int} (h : Canonical m e) (he : e < 0) (sign : Sign) :
    (Decimal.exact ⟨sign.apply m, e⟩).toDouble = ofParts (.finite .positive m e h.pos) := by
  obtain ⟨k, hk⟩ : ∃ k : Nat, e = -k := ⟨(-e).toNat, by omega⟩
  subst hk
  obtain ⟨n, hdiv⟩ := divCore_exact h
  have hlowest := h.lowest
  have hdigits : m * 5 ^ k ≠ 0 :=
    Nat.mul_ne_zero (Nat.pos_iff_ne_zero.1 h.pos) (Nat.pos_iff_ne_zero.1 (Nat.pow_pos (by omega)))
  have hexact : Decimal.exact ⟨sign.apply m, -k⟩ = ⟨m * 5 ^ k, -k⟩ := by
    rw [Decimal.exact, if_neg (by simp only; omega), natAbs_apply]
    simp
  have hread : UnpackedFloat.ofScientific binary64 (m * 5 ^ k) (-k) =
      .finite .positive m (-k) h.pos := by
    rw [UnpackedFloat.ofScientific, dif_neg hdigits, if_neg, if_neg, if_neg (by omega)]
    · show (match divCore binary64 (m * 5 ^ k) 0 (10 ^ (- -(k : Int)).toNat) 0 with
        | (m, e, acc) => roundWithAccuracy binary64 .positive m e acc) = _
      rw [Int.neg_neg, Int.toNat_natCast, hdiv]
      exact roundWithAccuracy_exact _ h.toRounded h.pos n
    · show ¬ (-(k : Int) < -((2 ^ 11 : Int) + (m * 5 ^ k).log2))
      omega
    · show ¬ (-(k : Int) > 2 ^ 11)
      omega
  rw [hexact, Decimal.toDouble, Float.Model.ofScientific, hread, ofParts]

/-- The shortest decimal of a double with a fraction is read as its magnitude. -/
theorem toDouble_shortest {m : Nat} {e : Int} (h : Canonical m e) (he : e < 0) (sign : Sign) :
    (Decimal.shortest (ofParts (.finite sign m e h.pos)) ⟨sign.apply m, e⟩).toDouble =
      ofParts (.finite .positive m e h.pos) := by
  rw [Decimal.shortest, abs_ofParts (.finite sign h), Decimal.shortestOf]
  generalize hfound : List.findSome? _ _ = found
  cases found with
  | none => exact toDouble_exact h he sign
  | some d =>
    obtain ⟨count, -, hcount⟩ := List.exists_of_findSome?_eq_some hfound
    exact Decimal.toDouble_rounding hcount

/-- The shortest decimal of a double with a fraction has places behind the point. -/
theorem shortest_exponent_neg {m : Nat} {e : Int} (h : Canonical m e) (he : e < 0)
    (hm : m % 2 ^ (-e).toNat ≠ 0) (sign : Sign) :
    (Decimal.shortest (ofParts (.finite sign m e h.pos)) ⟨sign.apply m, e⟩).exponent < 0 := by
  rw [← Int.not_le]
  intro hexp
  exact hm (mod_of_toDouble h he (toDouble_shortest h he sign) hexp)

/-! ## Numbers -/

theorem isNaN_ofParts {parts : UnpackedFloat} (h : parts ≠ .notANumber) :
    (ofParts parts).isNaN = false := by
  have hparts : (ofParts parts).toModel.unpack ≠ .notANumber := by
    have hpack : (ofParts parts).toModel.unpack = unpack binary64 (pack binary64 parts) := by
      simp [ofParts, Float.Model.unpack, Float.Model.pack]
    rw [hpack]
    exact unpack_pack_ne_notANumber h
  show (ofParts parts).toModel.unpack.isNaN = false
  generalize (ofParts parts).toModel.unpack = unpacked at hparts
  cases unpacked with
  | notANumber => exact absurd rfl hparts
  | infinity | zero | finite => rfl

theorem isNaN_neg (x : Float) : (-x).isNaN = x.isNaN := by
  obtain ⟨parts, hparts, rfl⟩ := exists_parts x
  rw [neg_ofParts hparts]
  show (ofParts parts.neg).toModel.unpack.isNaN = (ofParts parts).toModel.unpack.isNaN
  rw [unpack_ofParts hparts, unpack_ofParts hparts.neg]
  cases parts <;> rfl

theorem roundWithAccuracy_ne_notANumber (sign : Sign) (m : Nat) (e : Int) (accuracy : Accuracy) :
    roundWithAccuracy binary64 sign m e accuracy ≠ .notANumber := by
  unfold roundWithAccuracy
  simp only
  split
  · exact nofun
  · exact nofun

/-- No decimal is read as a double that is no number. -/
theorem isNaN_toDouble (d : Decimal) : d.toDouble.isNaN = false := by
  apply isNaN_ofParts
  fun_cases UnpackedFloat.ofScientific binary64 d.digits d.exponent with
  | case1 | case2 | case3 => exact nofun
  | case4 | case5 => exact roundWithAccuracy_ne_notANumber _ _ _ _

end TinyLisp.Double
