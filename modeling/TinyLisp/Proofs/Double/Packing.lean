import Mathlib

/-!
# Packing doubles

A double is stored as a row of bits and is calculated with as a sign, a mantissa
and an exponent.  This module says that a double is not changed when it is taken
apart and put together again, in this order or in the other one.

There are three groups.

* `Rounded` and `Canonical`: the mantissas and exponents that a finite double is
  taken apart into.
* `unpack_pack_finite`: a number in canonical form is found again in its bits, and
  `unpack_pack_ne_notANumber`: any number is found to be one.
* `pack_unpack`: a double is put together again from its parts.
-/

namespace TinyLisp.Double

open Float.Model (UnpackedFloat Format)
open Float.Model.UnpackedFloat
open Float.Model.Format (binary64)

/-! ## Canonical form -/

/-- The mantissa and the exponent of a rounded number, which may be beyond all doubles. -/
structure Rounded (mantissa : Nat) (exponent : Int) : Prop where
  lt : mantissa < 2 ^ 53
  lowest : -1074 ≤ exponent
  normal : mantissa < 2 ^ 52 → exponent = -1074

/-- The mantissa and the exponent of a finite double other than zero. -/
structure Canonical (mantissa : Nat) (exponent : Int) : Prop extends Rounded mantissa exponent where
  pos : 0 < mantissa
  highest : exponent ≤ 971

/-! ## From parts to bits -/

theorem toBitVec_ofBitVec (v : BitVec 1) : (Sign.ofBitVec v).toBitVec = v := by
  revert v
  decide

theorem packComponents_unpack (bits : BitVec binary64.numBits) :
    packComponents binary64 (Sign.ofBitVec (unpackSign bits)) (unpackExponent bits)
      (unpackMantissa bits) = bits := by
  rw [packComponents, toBitVec_ofBitVec]
  ext i hi
  simp [unpackSign, unpackExponent, unpackMantissa]
  grind

theorem unpackSign_packComponents (sign : Sign) (exponent : BitVec 11) (mantissa : BitVec 52) :
    Sign.ofBitVec (unpackSign (packComponents binary64 sign exponent mantissa)) = sign := by
  have : unpackSign (packComponents binary64 sign exponent mantissa) = sign.toBitVec := by
    ext i hi
    simp [unpackSign, packComponents]
    grind
  rw [this]
  cases sign <;> rfl

/-- The implicit bit in front of the stored bits of a mantissa. -/
theorem toNat_implicit_append (mantissa : BitVec 52) :
    (1#1 ++ mantissa).toNat = 2 ^ 52 + mantissa.toNat := by
  rw [BitVec.toNat_append, ← Nat.shiftLeft_add_eq_or_of_lt mantissa.isLt]
  rfl

theorem unpack_subnormal (sign : Sign) {mantissa : BitVec 52} (h : 0 < mantissa.toNat) :
    unpack binary64 (packComponents binary64 sign 0#11 mantissa) =
      .finite sign mantissa.toNat (-1074) h := by
  have hm : mantissa ≠ 0#52 := by
    rintro rfl
    simp at h
  have he : 0#11 ≠ -1#11 := by decide
  rw [unpack]
  simp only [unpackMantissa_packComponents, unpackExponent_packComponents]
  rw [if_neg he, if_pos trivial, dif_neg hm]
  have hs := unpackSign_packComponents sign 0#11 mantissa
  simp only [hs]
  rfl

theorem unpack_normal (sign : Sign) {exponent : BitVec 11} {mantissa : BitVec 52}
    (hlow : exponent ≠ 0#11) (hhigh : exponent ≠ -1#11) :
    unpack binary64 (packComponents binary64 sign exponent mantissa) =
      .finite sign (2 ^ 52 + mantissa.toNat) ((exponent.toNat : Int) - 1075) (by omega) := by
  rw [unpack]
  simp only [unpackMantissa_packComponents, unpackExponent_packComponents]
  rw [if_neg hhigh, if_neg hlow]
  have hs := unpackSign_packComponents sign exponent mantissa
  simp only [hs]
  congr 1
  exact toNat_implicit_append mantissa

theorem log2_eq_of_normal {m : Nat} (hlow : 2 ^ 52 ≤ m) (hhigh : m < 2 ^ 53) : m.log2 = 52 := by
  have h1 : 52 ≤ m.log2 := (Nat.le_log2 (by omega)).2 hlow
  have h2 : ¬ 53 ≤ m.log2 := fun h => by
    have := (Nat.le_log2 (by omega)).1 h
    omega
  omega

theorem pack_normal (sign : Sign) {m : Nat} {e : Int} (h : Canonical m e) (hm : 2 ^ 52 ≤ m) :
    pack binary64 (.finite sign m e h.pos) =
      packComponents binary64 sign (.ofNat 11 (e + 1075).toNat) (.ofNat 52 m) := by
  have hbias : (e + binary64.exponentBias + binary64.mantissaBitsWithoutImplicit).toNat
      = (e + 1075).toNat := by
    show (e + (1023 : Nat) + (52 : Nat)).toNat = (e + 1075).toNat
    omega
  have hlowest := h.lowest
  have hhighest := h.highest
  rw [pack]
  simp only [hbias, log2_eq_of_normal hm h.lt]
  rw [if_neg (by omega), if_pos (by decide)]

theorem pack_subnormal (sign : Sign) {m : Nat} {e : Int} (h : Canonical m e) (hm : m < 2 ^ 52) :
    pack binary64 (.finite sign m e h.pos) = packComponents binary64 sign 0#11 (.ofNat 52 m) := by
  have hlog : ¬ m.log2 + 1 = binary64.mantissaBits := by
    have h52 : ¬ 52 ≤ m.log2 := fun hle => by
      have hpos := h.pos
      have := (Nat.le_log2 (by omega)).1 hle
      omega
    show ¬ m.log2 + 1 = 53
    omega
  obtain rfl := h.normal hm
  rw [pack]
  simp only
  rw [if_neg (by decide), if_neg hlog]

/-- A number in canonical form is found again in its bits. -/
theorem unpack_pack_finite (sign : Sign) {m : Nat} {e : Int} (h : Canonical m e) :
    unpack binary64 (pack binary64 (.finite sign m e h.pos)) = .finite sign m e h.pos := by
  have hlowest := h.lowest
  have hhighest := h.highest
  have hlt := h.lt
  by_cases hm : m < 2 ^ 52
  · have htoNat : (BitVec.ofNat 52 m).toNat = m := by
      rw [BitVec.toNat_ofNat]
      omega
    have hpos : 0 < (BitVec.ofNat 52 m).toNat := by
      rw [htoNat]
      exact h.pos
    rw [pack_subnormal sign h hm, unpack_subnormal sign hpos]
    simp [htoNat, h.normal hm]
  · have he : (BitVec.ofNat 11 (e + 1075).toNat).toNat = (e + 1075).toNat := by
      rw [BitVec.toNat_ofNat]
      omega
    rw [pack_normal sign h (by omega), unpack_normal sign]
    · simp [he, BitVec.toNat_ofNat]
      omega
    · intro h0
      simp [h0] at he
      omega
    · intro h0
      simp [h0] at he
      omega

/-- No number is put together to bits that stand for none. -/
theorem unpack_pack_ne_notANumber {parts : UnpackedFloat} (h : parts ≠ .notANumber) :
    unpack binary64 (pack binary64 parts) ≠ .notANumber := by
  have hspecial : ∀ (sign : Sign) (exponent : BitVec 11) (mantissa : BitVec 52),
      (exponent = -1#11 → mantissa = 0#52) →
      unpack binary64 (packComponents binary64 sign exponent mantissa) ≠ .notANumber := by
    intro sign exponent mantissa himp
    rw [unpack]
    simp only [unpackExponent_packComponents, unpackMantissa_packComponents]
    split
    · rename_i hexponent
      rw [if_pos (himp hexponent)]
      exact nofun
    · split
      · split <;> exact nofun
      · exact nofun
  fun_cases pack binary64 parts with
  | case1 => exact absurd rfl h
  | case2 sign => exact hspecial sign _ _ fun _ => rfl
  | case3 sign => exact hspecial sign _ _ fun _ => rfl
  | case4 sign => exact hspecial sign _ _ fun _ => rfl
  | case5 sign m e hm log biased hbiased =>
    refine hspecial sign _ _ fun hexponent => ?_
    have htoNat : biased % 2 ^ 11 = 2047 := by
      rw [← BitVec.toNat_ofNat]
      exact congrArg BitVec.toNat hexponent
    have hlow : ¬ 2 ^ 11 ≤ biased + 1 := hbiased
    omega
  | case6 sign =>
    exact hspecial sign _ _ fun hexponent => absurd hexponent (by decide)

/-! ## From bits to parts -/

theorem canonical_subnormal {mantissa : BitVec 52} (h : 0 < mantissa.toNat) :
    Canonical mantissa.toNat (-1074) where
  pos := h
  lt := by
    have := mantissa.isLt
    omega
  lowest := by omega
  highest := by omega
  normal _ := rfl

theorem canonical_normal {exponent : BitVec 11} (mantissa : BitVec 52) (hlow : exponent ≠ 0#11)
    (hhigh : exponent ≠ -1#11) :
    Canonical (2 ^ 52 + mantissa.toNat) ((exponent.toNat : Int) - 1075) where
  pos := by omega
  lt := by
    have := mantissa.isLt
    omega
  lowest := by
    have : exponent.toNat ≠ 0 := fun h => hlow (BitVec.toNat_inj.1 (by simpa using h))
    omega
  highest := by
    have : exponent.toNat ≠ 2047 := fun h => hhigh (BitVec.toNat_inj.1 (by simpa using h))
    have := exponent.isLt
    omega
  normal := by omega

/-- What a row of bits is taken apart into: a special value, or a finite number
in canonical form that is put together again from the same bits. -/
inductive Unpacked (bits : BitVec binary64.numBits) : UnpackedFloat → Prop where
  | infinity (sign : Sign) (h : pack binary64 (.infinity sign) = bits) :
      Unpacked bits (.infinity sign)
  | notANumber (h : unpackExponent bits = -1#11) (hm : unpackMantissa bits ≠ 0#52) :
      Unpacked bits .notANumber
  | zero (sign : Sign) (h : pack binary64 (.zero sign) = bits) : Unpacked bits (.zero sign)
  | finite (sign : Sign) {m : Nat} {e : Int} (hc : Canonical m e)
      (h : pack binary64 (.finite sign m e hc.pos) = bits) :
      Unpacked bits (.finite sign m e hc.pos)

theorem unpacked_unpack (bits : BitVec binary64.numBits) :
    Unpacked bits (unpack binary64 bits) := by
  have hbits := packComponents_unpack bits
  generalize Sign.ofBitVec (unpackSign bits) = sign at hbits
  generalize unpackExponent bits = exponent at hbits
  generalize unpackMantissa bits = mantissa at hbits
  subst hbits
  by_cases hhigh : exponent = -1#11
  · subst hhigh
    by_cases hm : mantissa = 0#52
    · subst hm
      cases sign <;> exact .infinity _ rfl
    · have : unpack binary64 (packComponents binary64 sign (-1#11) mantissa) = .notANumber := by
        rw [unpack]
        simp [hm]
      rw [this]
      exact .notANumber (by simp) (by simpa using hm)
  · by_cases hlow : exponent = 0#11
    · subst hlow
      by_cases hm : mantissa = 0#52
      · subst hm
        cases sign <;> exact .zero _ rfl
      · have hpos : 0 < mantissa.toNat := by
          rw [Nat.pos_iff_ne_zero]
          exact fun h => hm (BitVec.toNat_inj.1 (by simpa using h))
        rw [unpack_subnormal sign hpos]
        refine .finite sign (canonical_subnormal hpos) ?_
        rw [pack_subnormal sign (canonical_subnormal hpos) mantissa.isLt]
        simp
    · have hc := canonical_normal mantissa hlow hhigh
      rw [unpack_normal sign hlow hhigh]
      refine .finite sign hc ?_
      rw [pack_normal sign hc (by omega)]
      congr 1
      · simp
      · apply BitVec.toNat_inj.1
        simpa using mantissa.isLt

/-- A double is put together again from its parts. -/
theorem pack_unpack (x : Float.Model) : .pack x.unpack = x := by
  have hpack : pack binary64 x.unpack = x.toBits.toBitVec := by
    rw [Float.Model.unpack]
    have h := unpacked_unpack x.toBits.toBitVec
    generalize unpack binary64 x.toBits.toBitVec = u at h ⊢
    cases h with
    | infinity _ h | zero _ h | finite _ _ h => exact h
    | notANumber h hm => exact (x.valid.eq_packedNaN h hm).symm
  cases x
  simp only [Float.Model.pack, Float.Model.mk.injEq]
  exact UInt64.toBitVec_inj.1 (by simpa using hpack)

end TinyLisp.Double
