import TinyLisp.Proofs.Double.Values

/-!
# Integers among the doubles

All integers up to `2 ^ 53` are doubles, and calculating with them is calculating with
integers as long as the results are not larger.

There are four groups.

* `IsInt`: a double that stands for an integer.  `isInt_ofFraction` says that the integers
  up to `2 ^ 53` are rounded to such doubles.
* `IsInt.add` and `IsInt.sub_eq`: sums and differences.
* `IsInt.lt_iff`, `IsInt.le_iff` and `IsInt.beq_iff`: order.
* `IsInt.remainder?`: the remainder of a division.
-/

namespace TinyLisp

namespace BinaryFraction

theorem value_int (n : Int) : value ⟨n, 0⟩ = n := by
  rw [value, zpow_zero, mul_one]

/-- The integer that a fraction is. -/
theorem truncate_of_value_eq {f : BinaryFraction} {n : Int} (h : f.value = n) :
    f.truncate = n := by
  have hscaled : f.scaled = n * powerOfTwo f.places := by
    have hvalue := f.scaled_eq
    rw [h] at hvalue
    rw [Double.powerOfTwo_eq]
    exact_mod_cast hvalue
  have hpower : powerOfTwo f.places ≠ 0 := Int.natCast_ne_zero.2 (Nat.two_pow_pos _).ne'
  rw [truncate, hscaled, Int.mul_tdiv_cancel _ hpower]

theorem compareInt_of_value_eq {f : BinaryFraction} {n : Int} (h : f.value = n) :
    f.compareInt n = .eq := by
  rw [compareInt_eq, h, compare_eq_iff_eq]

end BinaryFraction

namespace Double

open Float.Model (UnpackedFloat)
open Float.Model.UnpackedFloat
open Float.Model.Format (binary64)

/-! ## Integral doubles -/

/-- The double stands for the integer. -/
def IsInt (x : Float) (n : Int) : Prop :=
  ∃ f, fraction? x = some f ∧ f.value = n

/-- The double of an integer. -/
theorem ofInt_eq (n : Int) : Float.ofModel (.ofInt n) = ofFraction ⟨n, 0⟩ .positive :=
  rfl

/-- The mantissa of an integer is moved to the bits that a double has. -/
theorem exists_canonical {m : Nat} (hpos : 0 < m) (hle : m ≤ 2 ^ 53) :
    ∃ (m' : Nat) (e : Int), Canonical m' e ∧ (m' : ℚ) * 2 ^ e = m := by
  rcases Nat.lt_or_eq_of_le hle with hlt | rfl
  · obtain ⟨room, hroom⟩ : ∃ room, m.log2 + room = 52 := by
      have hlog : m.log2 < 53 := (Nat.log2_lt (by omega)).2 hlt
      exact ⟨52 - m.log2, by omega⟩
    have hlow : 2 ^ 52 ≤ m * 2 ^ room := by
      rw [← hroom, Nat.pow_add]
      exact Nat.mul_le_mul_right _ (Nat.log2_self_le (by omega))
    have hhigh : m * 2 ^ room < 2 ^ 53 := by
      rw [show 53 = m.log2 + 1 + room by omega, Nat.pow_add]
      exact Nat.mul_lt_mul_of_pos_right Nat.lt_log2_self (Nat.two_pow_pos _)
    refine ⟨m * 2 ^ room, -room, ⟨⟨hhigh, by omega, by omega⟩, by omega, by omega⟩, ?_⟩
    rw [zpow_neg, zpow_natCast]
    push_cast
    exact mul_inv_cancel_right₀ (by positivity) _
  · refine ⟨2 ^ 52, 1, ⟨⟨by norm_num, by norm_num, by norm_num⟩, by norm_num, by norm_num⟩, ?_⟩
    norm_num

theorem Represents.isInt {x : Float} {f : BinaryFraction} {n : Int} (h : Represents x f)
    (hn : f.value = n) : IsInt x n :=
  ⟨f, represents_iff.1 h, hn⟩

/-- An integer up to `2 ^ 53` is not changed by rounding. -/
theorem isInt_ofFraction {f : BinaryFraction} {n : Int} (sign : Sign) (hn : f.value = n)
    (h : n.natAbs ≤ 2 ^ 53) : IsInt (ofFraction f sign) n := by
  by_cases hzero : n = 0
  · subst hzero
    rw [Int.cast_zero] at hn
    rw [ofFraction_of_value_eq_zero sign hn]
    exact (Represents.zero sign).isInt (by rw [BinaryFraction.value_int])
  · obtain ⟨sign', m, hm, rfl⟩ := exists_apply hzero
    rw [natAbs_apply] at h
    obtain ⟨m', e, hcanonical, hvalue⟩ := exists_canonical hm h
    have happly : BinaryFraction.value ⟨sign'.apply m', e⟩ = (sign'.apply m : Int) := by
      cases sign' <;> simp [BinaryFraction.value, Sign.apply, hvalue]
    have hne : f.value ≠ 0 := by
      rw [hn]
      exact_mod_cast hzero
    rw [ofFraction_congr sign .positive (hn.trans happly.symm) hne, ofFraction,
      normalize_apply sign' _ hcanonical.pos, round_rounded sign' hcanonical.toRounded]
    exact (Represents.finite sign' hcanonical).isInt happly

theorem isInt_ofInt {n : Int} (h : n.natAbs ≤ 2 ^ 53) : IsInt (.ofModel (.ofInt n)) n := by
  rw [ofInt_eq]
  exact isInt_ofFraction .positive (BinaryFraction.value_int n) h

theorem isInt_zero : IsInt 0.0 0 := by
  rw [show (0.0 : Float) = .ofModel (.ofInt 0) by decide]
  exact isInt_ofInt (by decide)

theorem isInt_negativeZero : IsInt (-0.0) 0 := by
  rw [show (-0.0 : Float) = ofFraction ⟨0, 0⟩ .negative by decide]
  exact isInt_ofFraction .negative (BinaryFraction.value_int 0) (by decide)

theorem isInt_one : IsInt 1.0 1 := by
  rw [show (1.0 : Float) = .ofModel (.ofInt 1) by decide]
  exact isInt_ofInt (by decide)

theorem isInt_two : IsInt 2.0 2 := by
  rw [show (2.0 : Float) = .ofModel (.ofInt 2) by decide]
  exact isInt_ofInt (by decide)

variable {x y : Float} {m n : Int}

/-- The double of an integer other than zero is determined by the integer. -/
theorem IsInt.eq_ofInt (h : IsInt x n) (hne : n ≠ 0) : x = .ofModel (.ofInt n) := by
  obtain ⟨f, hf, hvalue⟩ := h
  obtain ⟨sign, rfl⟩ := (represents_iff.2 hf).eq_ofFraction
  rw [ofInt_eq]
  apply ofFraction_congr
  · rw [hvalue, BinaryFraction.value_int]
  · rw [hvalue]
    exact_mod_cast hne

/-! ## Sums and differences -/

theorem IsInt.add (hx : IsInt x m) (hy : IsInt y n) (h : (m + n).natAbs ≤ 2 ^ 53) :
    IsInt (x + y) (m + n) := by
  obtain ⟨f, hf, hfm⟩ := hx
  obtain ⟨g, hg, hgn⟩ := hy
  obtain ⟨sum, sign, hvalue, heq⟩ := (represents_iff.2 hf).exists_add (represents_iff.2 hg)
  rw [heq]
  apply isInt_ofFraction sign _ h
  rw [hvalue, hfm, hgn, Int.cast_add]

/-- The sum of two counts is the double of the count of both together. -/
theorem ofInt_add_ofInt {m n : Nat} (h : m + n ≤ 2 ^ 53) :
    Float.ofModel (.ofInt m) + Float.ofModel (.ofInt n) =
      Float.ofModel (.ofInt (m + n : Nat)) := by
  have hsum : IsInt (Float.ofModel (.ofInt m) + Float.ofModel (.ofInt n)) (m + n) :=
    (isInt_ofInt (by omega)).add (isInt_ofInt (by omega)) (by omega)
  by_cases hzero : m + n = 0
  · obtain ⟨rfl, rfl⟩ : m = 0 ∧ n = 0 := by omega
    decide
  · rw [hsum.eq_ofInt (by omega), Int.natCast_add]

/-- The difference of different integers, of any size, is the double of their difference. -/
theorem IsInt.sub_eq (hx : IsInt x m) (hy : IsInt y n) (h : m ≠ n) :
    x - y = .ofModel (.ofInt (m - n)) := by
  obtain ⟨f, hf, hfm⟩ := hx
  obtain ⟨g, hg, hgn⟩ := hy
  obtain ⟨difference, sign, hvalue, heq⟩ :=
    (represents_iff.2 hf).exists_sub (represents_iff.2 hg)
  rw [hfm, hgn, ← Int.cast_sub] at hvalue
  rw [heq, ofInt_eq]
  apply ofFraction_congr
  · rw [hvalue, BinaryFraction.value_int]
  · rw [hvalue]
    exact_mod_cast sub_ne_zero.2 h

/-! ## Order -/

theorem IsInt.lt_iff (hx : IsInt x m) (hy : IsInt y n) : x < y ↔ m < n := by
  obtain ⟨f, hf, hfm⟩ := hx
  obtain ⟨g, hg, hgn⟩ := hy
  rw [(represents_iff.2 hf).lt_iff (represents_iff.2 hg), hfm, hgn, Int.cast_lt]

theorem IsInt.le_iff (hx : IsInt x m) (hy : IsInt y n) : x ≤ y ↔ m ≤ n := by
  obtain ⟨f, hf, hfm⟩ := hx
  obtain ⟨g, hg, hgn⟩ := hy
  rw [(represents_iff.2 hf).le_iff (represents_iff.2 hg), hfm, hgn, Int.cast_le]

theorem IsInt.beq_iff (hx : IsInt x m) (hy : IsInt y n) : (x == y) = true ↔ m = n := by
  obtain ⟨f, hf, hfm⟩ := hx
  obtain ⟨g, hg, hgn⟩ := hy
  rw [(represents_iff.2 hf).beq_iff_value (represents_iff.2 hg), hfm, hgn, Int.cast_inj]

/-! ## Remainders -/

/-- Remainders may be taken at any exponent. -/
theorem value_tmod {a b m n e : Int} (ha : (a : ℚ) * 2 ^ e = m) (hb : (b : ℚ) * 2 ^ e = n) :
    ((a.tmod b : Int) : ℚ) * 2 ^ e = (m.tmod n : Int) := by
  have hright (k : Nat) {a b : Int} : (a * 2 ^ k).tmod (b * 2 ^ k) = a.tmod b * 2 ^ k := by
    rw [mul_comm a, mul_comm b, Int.mul_tmod_mul_of_pos _ _ (by positivity), mul_comm]
  rcases le_total 0 e with he | he
  · obtain ⟨k, rfl⟩ := Int.eq_ofNat_of_zero_le he
    obtain rfl : a * 2 ^ k = m := by exact_mod_cast ha
    obtain rfl : b * 2 ^ k = n := by exact_mod_cast hb
    rw [hright k]
    push_cast
    rw [zpow_natCast]
  · obtain ⟨k, rfl⟩ : ∃ k : Nat, e = -k := ⟨(-e).toNat, by omega⟩
    have hpower : (2 : ℚ) ^ k ≠ 0 := by positivity
    rw [zpow_neg, zpow_natCast, ← div_eq_mul_inv, div_eq_iff hpower] at ha hb ⊢
    obtain rfl : a = m * 2 ^ k := by exact_mod_cast ha
    obtain rfl : b = n * 2 ^ k := by exact_mod_cast hb
    rw [hright k]
    push_cast
    rfl

/-- The remainder of integers is the remainder that division towards zero leaves. -/
theorem IsInt.remainder? (hx : IsInt x m) (hy : IsInt y n)
    (hm : m.natAbs ≤ 2 ^ 53) (hn : n ≠ 0) :
    ∃ r, Double.remainder? x y = some r ∧ IsInt r (m.tmod n) := by
  obtain ⟨f, hf, hfm⟩ := hx
  obtain ⟨g, hg, hgn⟩ := hy
  have hdivisor : g.mantissa ≠ 0 := by
    rw [ne_eq, ← value_eq_zero_iff, hgn]
    exact_mod_cast hn
  have hbound : (m.tmod n).natAbs ≤ 2 ^ 53 := by
    rw [Int.natAbs_tmod]
    exact (Nat.mod_le _ _).trans hm
  refine ⟨remainderOfFractions f g (signOf x), ?_, isInt_ofFraction _ ?_ hbound⟩
  · rw [Double.remainder?, (represents_iff.2 hf).isNaN_eq, (represents_iff.2 hg).isNaN_eq, hf, hg]
    simp [hdivisor]
  · apply value_tmod
    · exact (f.value_mantissaAt (min_le_left _ _)).trans hfm
    · exact (g.value_mantissaAt (min_le_right _ _)).trans hgn

end Double
end TinyLisp
