import TinyLisp.Number.Notation
import TinyLisp.Proofs.Double.Reading
import TinyLisp.Proofs.Numeral
import TinyLisp.Value.Printer

/-!
# Reading numbers back

The text of a number is read as the number it was written for.  The two
exceptions among doubles are those that the notation does not tell apart from
others: the negative zero, and the infinite ones and the one that is no number.

There are four groups.

* `AllDigits`: texts of ASCII digits and the numbers they stand for.
* `Numeral.read?_text` and `Numeral.read?_integerText`: decimals and integers.
* `Double.read?_text`: a double is found again in its text when it is finite and
  not the negative zero, and only then.
* `Double.ordinary_text`: no character in the text of a double has a meaning of
  its own outside of numbers.
-/

namespace TinyLisp

open Float.Model.UnpackedFloat (Sign)

/-! ## Digits -/

/-- Only ASCII digits. -/
def AllDigits (text : List Char) : Prop :=
  ∀ c ∈ text, c.isDigit = true

theorem allDigits_append {front rest : List Char} (hfront : AllDigits front)
    (hrest : AllDigits rest) : AllDigits (front ++ rest) := by
  intro c hc
  rcases List.mem_append.1 hc with hc | hc
  · exact hfront c hc
  · exact hrest c hc

theorem allDigits_digitsOf (n : Nat) : AllDigits (digitsOf n) :=
  fun _ => Nat.isDigit_of_mem_toDigits (by omega) (by omega)

theorem allDigits_zeros (n : Nat) : AllDigits (List.replicate n '0') := by
  intro c hc
  rw [List.eq_of_mem_replicate hc]
  rfl

/-- ASCII digits are digits. -/
theorem digits_of_allDigits {text : List Char} (h : AllDigits text) : Digits text := by
  intro c hc
  rw [digitValue?_ascii (h c hc)]
  rfl

theorem values_of_allDigits {text : List Char} (h : AllDigits text) :
    text.filterMap digitValue? = text.map fun c => c.toNat - '0'.toNat := by
  induction text with
  | nil => rfl
  | cons c text ih =>
    rw [List.filterMap_cons, digitValue?_ascii (h c (by simp)), List.map_cons,
      ih fun c hc => h c (by simp [hc])]

/-- A run of ASCII digits is taken up to its end. -/
theorem takeDigits_front {front rest : List Char} (hfront : AllDigits front)
    (hrest : EndsDigits rest) :
    takeDigits (front ++ rest) = (front.map fun c => c.toNat - '0'.toNat, rest) := by
  rw [takeDigits_append (digits_of_allDigits hfront) hrest, values_of_allDigits hfront]

theorem numberOfDigits_map (text : List Char) :
    numberOfDigits (text.map fun c => c.toNat - '0'.toNat) = Nat.ofDigitChars 10 text 0 := by
  rw [numberOfDigits, List.foldl_map, Nat.ofDigitChars]

theorem ofDigitChars_digitsOf (n : Nat) : Nat.ofDigitChars 10 (digitsOf n) 0 = n :=
  Nat.ofDigitChars_toDigits (by omega) (by omega)

/-- Zeros in front of a number do not change it. -/
theorem ofDigitChars_zeros (k n : Nat) :
    Nat.ofDigitChars 10 (List.replicate k '0' ++ digitsOf n) 0 = n := by
  rw [Nat.ofDigitChars_append, Nat.ofDigitChars_replicate_zero, Nat.mul_zero, ofDigitChars_digitsOf]

namespace Numeral

/-! ## The parts of a numeral -/

theorem takeSign_digit {text : List Char} (h : AllDigits text) (hne : text ≠ [])
    (rest : List Char) :
    takeSign (text ++ rest) = (false, text ++ rest) :=
  takeSign_unsigned (unsigned_digits (digits_of_allDigits h) hne rest)

/-- A numeral behind a minus sign. -/
theorem read?_minus {text : List Char} {d : Decimal} (h : read? text = some ⟨false, d⟩)
    (hsign : takeSign text = (false, text)) : read? ('-' :: text) = some ⟨true, d⟩ := by
  rw [read?, hsign] at h
  rw [read?, takeSign]
  simp only at h ⊢
  split at h
  · cases h
  · simp only [Option.map_eq_some_iff, mk.injEq, true_and] at h
    obtain ⟨exponent, hexponent, hd⟩ := h
    simp [*]

/-- Digits without a point, and an exponent. -/
theorem read?_whole {whole tail : List Char} {exponent : Int} (hwhole : AllDigits whole)
    (hne : whole ≠ []) (htail : EndsDigits tail) (hpoint : takeFraction tail = ([], tail))
    (hexponent : readExponent? tail = some exponent) :
    read? (whole ++ tail) = some ⟨false, Nat.ofDigitChars 10 whole 0, exponent⟩ := by
  rw [read?, takeSign_digit hwhole hne]
  simp only [takeDigits_front hwhole htail, hpoint, hexponent, List.append_nil,
    numberOfDigits_map]
  simp [hne]

/-- Digits with a point among them, and an exponent. -/
theorem read?_fraction {whole fraction tail : List Char} {exponent : Int}
    (hwhole : AllDigits whole) (hne : whole ≠ []) (hfraction : AllDigits fraction)
    (htail : EndsDigits tail) (hexponent : readExponent? tail = some exponent) :
    read? (whole ++ '.' :: (fraction ++ tail)) =
      some ⟨false, Nat.ofDigitChars 10 (whole ++ fraction) 0, exponent - fraction.length⟩ := by
  rw [read?, takeSign_digit hwhole hne]
  simp only [takeDigits_front hwhole (endsDigits_point _), takeFraction,
    takeDigits_front hfraction htail, hexponent, ← List.map_append, numberOfDigits_map]
  simp [hne]

/-! ## The texts of decimals -/

theorem readExponent?_mark {sign : Char} {digits : List Char} (negative : Bool)
    (hsign : takeSign (sign :: digits) = (negative, digits)) (hdigits : AllDigits digits)
    (hne : digits ≠ []) :
    readExponent? ('e' :: sign :: digits) =
      some (if negative then -(Nat.ofDigitChars 10 digits 0 : Int)
        else Nat.ofDigitChars 10 digits 0) := by
  rw [readExponent?, if_pos (Or.inl rfl), hsign]
  simp only [takeDigits_all (digits_of_allDigits hdigits), values_of_allDigits hdigits]
  rw [← numberOfDigits_map]
  cases digits with
  | nil => exact absurd rfl hne
  | cons c digits => rfl

/-- The exponent is found again in its text. -/
theorem readExponent?_exponentText (exponent : Int) :
    readExponent? (Decimal.exponentText exponent) = some exponent := by
  have hdigits : AllDigits (List.replicate (2 - (digitsOf exponent.natAbs).length) '0' ++
      digitsOf exponent.natAbs) := allDigits_append (allDigits_zeros _) (allDigits_digitsOf _)
  have hne : List.replicate (2 - (digitsOf exponent.natAbs).length) '0' ++
      digitsOf exponent.natAbs ≠ [] := by
    simp [digitsOf, Nat.toDigits_ne_nil]
  by_cases hneg : exponent < 0
  · show readExponent? ('e' :: (if exponent < 0 then '-' else '+') :: (_ ++ _)) = _
    rw [if_pos hneg, readExponent?_mark true rfl hdigits hne, ofDigitChars_zeros, if_pos rfl]
    congr 1
    omega
  · show readExponent? ('e' :: (if exponent < 0 then '-' else '+') :: (_ ++ _)) = _
    rw [if_neg hneg, readExponent?_mark false rfl hdigits hne, ofDigitChars_zeros,
      if_neg Bool.false_ne_true]
    congr 1
    omega

theorem endsDigits_exponentText (exponent : Int) : EndsDigits (Decimal.exponentText exponent) :=
  endsDigits_mark (.inl rfl) _

/-- Plain notation with the point in front of the last digit or earlier. -/
theorem read?_plain {digits : List Char} (hdigits : AllDigits digits) (hne : digits ≠ [])
    {before : Int} (hbefore : before < digits.length) :
    read? (Decimal.plain digits before) =
      some ⟨false, Nat.ofDigitChars 10 digits 0, before - digits.length⟩ := by
  rw [Decimal.plain]
  by_cases hpoint : before ≤ 0
  · rw [if_pos hpoint]
    have hzero : AllDigits ['0'] := allDigits_zeros 1
    have h := read?_fraction hzero (by simp)
      (allDigits_append (allDigits_zeros (-before).toNat) hdigits) endsDigits_nil rfl
    rw [List.append_nil] at h
    refine h.trans ?_
    congr 2
    rw [← List.append_assoc, Nat.ofDigitChars_append,
      show ['0'] ++ List.replicate (-before).toNat '0' = List.replicate ((-before).toNat + 1) '0'
        from rfl, Nat.ofDigitChars_replicate_zero, Nat.mul_zero, List.length_append,
      List.length_replicate]
    congr 1
    omega
  · rw [if_neg hpoint, if_neg (by omega)]
    have htake : AllDigits (digits.take before.toNat) := fun c hc =>
      hdigits c (List.mem_of_mem_take hc)
    have hdrop : AllDigits (digits.drop before.toNat) := fun c hc =>
      hdigits c (List.mem_of_mem_drop hc)
    have htakene : digits.take before.toNat ≠ [] := by
      simp [hne]
      omega
    have h := read?_fraction htake htakene hdrop endsDigits_nil rfl
    rw [List.append_nil] at h
    refine h.trans ?_
    rw [List.take_append_drop, List.length_drop]
    congr 3
    omega

/-- Exponent notation. -/
theorem read?_withExponent {digits : List Char} (hdigits : AllDigits digits) (hne : digits ≠ [])
    (exponent : Int) :
    read? (Decimal.withExponent digits exponent) =
      some ⟨false, Nat.ofDigitChars 10 digits 0, exponent - (digits.length - 1 : Nat)⟩ := by
  have htail := endsDigits_exponentText exponent
  have hexponent := readExponent?_exponentText exponent
  match digits with
  | [] => exact absurd rfl hne
  | [digit] =>
    have h := read?_whole hdigits hne htail rfl hexponent
    simpa [Decimal.withExponent] using h
  | digit :: next :: rest =>
    have hwhole : AllDigits [digit] := fun c hc => hdigits c (by simp at hc; simp [hc])
    have hfraction : AllDigits (next :: rest) := fun c hc => hdigits c (by simp [hc])
    have h := read?_fraction hwhole (by simp) hfraction htail hexponent
    simpa [Decimal.withExponent] using h

/-- A decimal with places behind the point is found again in its text. -/
theorem read?_text {d : Decimal} (h : d.exponent < 0) : read? d.text = some ⟨false, d⟩ := by
  have hdigits := allDigits_digitsOf d.digits
  have hne : digitsOf d.digits ≠ [] := Nat.toDigits_ne_nil
  have hlength := List.length_pos_iff.2 hne
  rw [Decimal.text]
  split
  · rw [read?_plain hdigits hne (by omega), ofDigitChars_digitsOf]
    congr 3
    omega
  · rw [read?_withExponent hdigits hne, ofDigitChars_digitsOf]
    congr 3
    omega

/-- An integer is found again in its text. -/
theorem read?_integerText (n : Int) :
    read? (integerText n) = some ⟨decide (n < 0), n.natAbs, 0⟩ := by
  have hdigits := allDigits_digitsOf n.natAbs
  have hne : digitsOf n.natAbs ≠ [] := Nat.toDigits_ne_nil
  have h := read?_whole hdigits hne endsDigits_nil rfl rfl
  have hsign := takeSign_digit hdigits hne []
  rw [List.append_nil] at h hsign
  rw [ofDigitChars_digitsOf] at h
  rw [integerText]
  by_cases hneg : n < 0
  · rw [if_pos hneg, read?_minus h hsign]
    simp [hneg]
  · rw [if_neg hneg, h]
    simp [hneg]

end Numeral

/-! ## The texts of doubles -/

namespace Decimal

/-- A decimal starts with a digit. -/
theorem text_front (d : Decimal) :
    ∃ front rest, AllDigits front ∧ front ≠ [] ∧ d.text = front ++ rest := by
  have hdigits := allDigits_digitsOf d.digits
  have hne : digitsOf d.digits ≠ [] := Nat.toDigits_ne_nil
  rw [text]
  generalize digitsOf d.digits = digits at hdigits hne
  by_cases hplain : -4 < d.exponent + digits.length ∧ d.exponent + digits.length ≤ 16
  · rw [if_pos hplain, plain]
    split
    · exact ⟨['0'], _, allDigits_zeros 1, by simp, rfl⟩
    · split
      · exact ⟨digits, _, hdigits, hne, by rw [List.append_assoc]⟩
      · refine ⟨digits.take _, _, fun c hc => hdigits c (List.mem_of_mem_take hc), ?_, rfl⟩
        simp [hne]
        omega
  · rw [if_neg hplain]
    match digits with
    | [] => exact absurd rfl hne
    | [digit] => exact ⟨[digit], _, hdigits, by simp, rfl⟩
    | digit :: next :: rest =>
      exact ⟨[digit], _, fun c hc => hdigits c (by simp at hc; simp [hc]), by simp, rfl⟩

end Decimal

/-- No number is written as nothing. -/
theorem integerText_ne_nil (n : Int) : integerText n ≠ [] := by
  rw [integerText]
  split <;> simp [digitsOf, Nat.toDigits_ne_nil]

namespace Double

open Float.Model.UnpackedFloat (Sign)

theorem isNegative_finite (sign : Sign) {m : Nat} {e : Int} (h : Canonical m e) :
    isNegative (ofParts (.finite sign m e h.pos)) = (sign == .negative) := by
  rw [isNegative, signOf, unpack_ofParts (.finite sign h)]

theorem isFinite_ofParts {parts : Float.Model.UnpackedFloat} (h : Normalised parts) :
    (ofParts parts).isFinite = parts.isFinite := by
  show (ofParts parts).toModel.unpack.isFinite = _
  rw [unpack_ofParts h]

/-- The sign and the magnitude of a finite double make the double. -/
theorem toDouble_signed (sign : Sign) {m : Nat} {e : Int} (h : Canonical m e) {d : Decimal}
    (hd : d.toDouble = ofParts (.finite .positive m e h.pos)) :
    Numeral.toDouble ⟨sign == .negative, d⟩ = ofParts (.finite sign m e h.pos) := by
  cases sign with
  | positive => exact hd
  | negative =>
    show -d.toDouble = _
    rw [hd, neg_ofParts (.finite _ h)]
    rfl

/-- Whether a finite double is an integer, by its parts. -/
theorem isInteger_finite (sign : Sign) (m : Nat) (e : Int) :
    BinaryFraction.isInteger ⟨sign.apply m, e⟩ = true ↔ e < 0 → m % 2 ^ (-e).toNat = 0 := by
  rw [BinaryFraction.isInteger, beq_iff_eq]
  by_cases he : e < 0
  · rw [scaled_of_nonpos _ he.le, BinaryFraction.places, powerOfTwo_eq]
    rw [← Int.dvd_iff_emod_eq_zero, Int.ofNat_dvd_left, natAbs_apply, Nat.dvd_iff_mod_eq_zero]
    simp [he]
  · have hone : powerOfTwo 0 = 1 := rfl
    rw [(scaled_of_nonneg _ (by omega)).2, hone]
    exact ⟨fun _ hneg => absurd hneg he, fun _ => Int.emod_one _⟩

/-- The integer that an integral double is. -/
theorem floor_finite (sign : Sign) {m : Nat} {e : Int} (h : Canonical m e)
    (hint : e < 0 → m % 2 ^ (-e).toNat = 0) :
    ∃ n k : Nat, BinaryFraction.floor ⟨sign.apply m, e⟩ = sign.apply n ∧ 0 < n ∧
      n * 2 ^ 53 = m * 2 ^ k ∧ e - k = -53 := by
  have hpos := h.pos
  have hlt := h.lt
  rw [BinaryFraction.floor]
  by_cases he : e < 0
  · obtain ⟨p, hp⟩ : ∃ p, p = (-e).toNat := ⟨_, rfl⟩
    obtain ⟨n, rfl⟩ : ∃ n, m = 2 ^ p * n := by
      rw [hp]
      exact Nat.dvd_of_mod_eq_zero (hint he)
    have hn : 0 < n := Nat.pos_of_mul_pos_left hpos
    have hplaces : p ≤ 52 := by
      have hle : 2 ^ p ≤ 2 ^ p * n := Nat.le_mul_of_pos_right _ hn
      have := (Nat.pow_lt_pow_iff_right (a := 2) (by omega)).1 (Nat.lt_of_le_of_lt hle hlt)
      omega
    refine ⟨n, 53 - p, ?_, hn, ?_, by omega⟩
    · rw [scaled_of_nonpos _ he.le, BinaryFraction.places, ← hp, powerOfTwo_eq]
      have htwo : ((2 ^ p : Nat) : Int) ≠ 0 := by
        have := Nat.two_pow_pos p
        omega
      cases sign with
      | positive =>
        simp only [Sign.apply, Int.natCast_mul]
        rw [Int.mul_ediv_cancel_left _ htwo]
      | negative =>
        simp only [Sign.apply, Int.natCast_mul]
        rw [← Int.mul_neg, Int.mul_ediv_cancel_left _ htwo]
    · have hsplit : 2 ^ p * 2 ^ (53 - p) = 2 ^ 53 := by
        rw [← Nat.pow_add, show p + (53 - p) = 53 by omega]
      rw [← hsplit, Nat.mul_left_comm, Nat.mul_assoc]
  · obtain ⟨places, rfl⟩ := Int.eq_ofNat_of_zero_le (Int.not_lt.1 he)
    refine ⟨m * 2 ^ places, places + 53, ?_, Nat.mul_pos hpos (Nat.two_pow_pos _), ?_, by omega⟩
    · have hone : powerOfTwo 0 = 1 := rfl
      rw [(scaled_of_nonneg _ (by omega)).1, (scaled_of_nonneg _ (by omega)).2, hone, Int.ediv_one,
        Int.toNat_natCast, powerOfTwo_eq]
      cases sign with
      | positive => exact (Int.natCast_mul _ _).symm
      | negative =>
        rw [Sign.apply, Sign.apply, Int.natCast_mul, Int.neg_mul]
    · rw [Nat.mul_assoc, ← Nat.pow_add]

/-- A finite double other than zero is found again in its text. -/
theorem read?_finite (sign : Sign) {m : Nat} {e : Int} (h : Canonical m e) :
    (Numeral.read? (text (ofParts (.finite sign m e h.pos)))).map Numeral.toDouble =
      some (ofParts (.finite sign m e h.pos)) := by
  rw [text, fraction?_finite sign h]
  simp only
  by_cases hint : e < 0 → m % 2 ^ (-e).toNat = 0
  · rw [if_pos ((isInteger_finite sign m e).2 hint)]
    obtain ⟨n, k, hfloor, hpos, hn, hk⟩ := floor_finite sign h hint
    rw [hfloor, Numeral.read?_integerText, natAbs_apply]
    have hsign : decide (sign.apply (n : Int) < 0) = (sign == .negative) := by
      cases sign with
      | positive =>
        rw [Sign.apply, decide_eq_false (by omega)]
        rfl
      | negative =>
        rw [Sign.apply, decide_eq_true (by omega)]
        rfl
    rw [hsign, Option.map_some, toDouble_signed sign h (toDouble_whole h k hn hk)]
  · rw [if_neg (by rwa [isInteger_finite])]
    simp only [Classical.not_imp] at hint
    obtain ⟨he, hm⟩ := hint
    have hmantissa : sign.apply (m : Int) ≠ 0 := by
      have := natAbs_apply sign m
      have := h.pos
      omega
    rw [inspect, fraction?_finite sign h]
    simp only [hmantissa, if_false]
    have hread := Numeral.read?_text (shortest_exponent_neg h he hm sign)
    have hdouble := toDouble_shortest h he sign
    generalize Decimal.shortest _ _ = d at hread hdouble
    have hsigned : Numeral.read? (signText (ofParts (.finite sign m e h.pos)) ++ d.text) =
        some ⟨sign == .negative, d⟩ := by
      rw [signText, isNegative_finite sign h]
      cases sign with
      | positive => exact hread
      | negative =>
        obtain ⟨front, rest, hfront, hne, htext⟩ := d.text_front
        have hsign := Numeral.takeSign_digit hfront hne rest
        rw [← htext] at hsign
        exact Numeral.read?_minus hread hsign
    rw [hsigned, Option.map_some, toDouble_signed sign h hdouble]

/-- A double is found again in its text when it is finite and not the negative zero, and only
then. -/
theorem read?_text (x : Float) :
    (Numeral.read? (text x)).map Numeral.toDouble = some x ↔ x.isFinite = true ∧ x ≠ -0.0 := by
  obtain ⟨parts, hparts, rfl⟩ := exists_parts x
  cases hparts with
  | infinity sign => cases sign <;> decide
  | notANumber => decide
  | zero sign => cases sign <;> decide
  | finite sign h =>
    rw [read?_finite sign h, isFinite_ofParts (.finite sign h), negative_zero, Ne,
      ofParts_inj (.finite sign h) (.zero _)]
    simp [Float.Model.UnpackedFloat.isFinite]

/-- No number is written as nothing. -/
theorem text_ne_nil (x : Float) : text x ≠ [] := by
  have hspecial : specialText x ≠ [] := by
    rw [specialText]
    split <;> simp
  rw [text]
  split
  · exact hspecial
  · split
    · exact integerText_ne_nil _
    · rw [inspect]
      split
      · exact hspecial
      · rename_i fraction _
        obtain ⟨front, rest, -, hne, htext⟩ := (Decimal.shortest x fraction).text_front
        split <;> simp [htext, hne]

end Double

/-! ## The characters of numbers -/

/-- No character ends a name, changes how it is read on or is white space. -/
def Ordinary (text : List Char) : Prop :=
  ∀ c ∈ text, isDelimiter c = false ∧ isBlank c = false

instance (text : List Char) : Decidable (Ordinary text) :=
  List.decidableBAll _ text

theorem ordinary_append {front rest : List Char} :
    Ordinary (front ++ rest) ↔ Ordinary front ∧ Ordinary rest :=
  List.forall_mem_append

theorem ordinary_cons {c : Char} {rest : List Char} :
    Ordinary (c :: rest) ↔ (isDelimiter c = false ∧ isBlank c = false) ∧ Ordinary rest :=
  List.forall_mem_cons

theorem ordinary_nil : Ordinary [] := by
  simp [Ordinary]

theorem ordinary_of_allDigits {text : List Char} (h : AllDigits text) : Ordinary text := by
  intro c hc
  have hdigit := h c hc
  have hrange : 48 ≤ c.toNat ∧ c.toNat ≤ 57 := Char.isDigit_iff_toNat.1 hdigit
  constructor
  · have hne : ∀ d : Char, d.isDigit = false → c ≠ d := by
      rintro d hd rfl
      simp [hd] at hdigit
    simp [isDelimiter, hne]
  · simp only [isBlank, Bool.or_eq_false_iff, Bool.and_eq_false_iff, decide_eq_false_iff_not,
      beq_eq_false_iff_ne]
    omega

namespace Decimal

theorem ordinary_plain {digits : List Char} (h : AllDigits digits) (before : Int) :
    Ordinary (plain digits before) := by
  have hdigits := ordinary_of_allDigits h
  have hzeros : ∀ n, Ordinary (List.replicate n '0') := fun n =>
    ordinary_of_allDigits (allDigits_zeros n)
  rw [plain]
  split
  · exact ordinary_append.2
      ⟨ordinary_cons.2 ⟨by decide, ordinary_cons.2 ⟨by decide, hzeros _⟩⟩, hdigits⟩
  · split
    · exact ordinary_append.2 ⟨ordinary_append.2 ⟨hdigits, hzeros _⟩,
        ordinary_cons.2 ⟨by decide, by decide⟩⟩
    · refine ordinary_append.2 ⟨fun c hc => hdigits c (List.mem_of_mem_take hc),
        ordinary_cons.2 ⟨by decide, fun c hc => hdigits c (List.mem_of_mem_drop hc)⟩⟩

theorem ordinary_exponentText (exponent : Int) : Ordinary (exponentText exponent) := by
  refine ordinary_append.2 ⟨ordinary_cons.2 ⟨by decide, ordinary_cons.2 ⟨?_,
    ordinary_of_allDigits (allDigits_zeros _)⟩⟩, ordinary_of_allDigits (allDigits_digitsOf _)⟩
  split <;> decide

theorem ordinary_withExponent {digits : List Char} (h : AllDigits digits) (exponent : Int) :
    Ordinary (withExponent digits exponent) := by
  have hdigits := ordinary_of_allDigits h
  have hexponent := ordinary_exponentText exponent
  match digits with
  | [] => exact ordinary_nil
  | [digit] => exact ordinary_cons.2 ⟨(ordinary_cons.1 hdigits).1, hexponent⟩
  | digit :: next :: rest =>
    obtain ⟨hdigit, hrest⟩ := ordinary_cons.1 hdigits
    exact ordinary_cons.2
      ⟨hdigit, ordinary_cons.2 ⟨by decide, ordinary_append.2 ⟨hrest, hexponent⟩⟩⟩

theorem ordinary_text (d : Decimal) : Ordinary d.text := by
  have hdigits := allDigits_digitsOf d.digits
  rw [text]
  split
  · exact ordinary_plain hdigits _
  · exact ordinary_withExponent hdigits _

end Decimal

namespace Double

theorem ordinary_integerText (n : Int) : Ordinary (integerText n) := by
  have hdigits := ordinary_of_allDigits (allDigits_digitsOf n.natAbs)
  rw [integerText]
  split
  · exact ordinary_cons.2 ⟨by decide, hdigits⟩
  · exact hdigits

theorem ordinary_signText (x : Float) : Ordinary (signText x) := by
  rw [signText]
  split <;> decide

theorem ordinary_specialText (x : Float) : Ordinary (specialText x) := by
  rw [specialText]
  split
  · decide
  · exact ordinary_append.2 ⟨ordinary_signText x, by decide⟩

/-- The text of a double is one word without any character that has a meaning of its own. -/
theorem ordinary_text (x : Float) : Ordinary (text x) := by
  rw [text]
  split
  · exact ordinary_specialText x
  · split
    · exact ordinary_integerText _
    · rw [inspect]
      split
      · exact ordinary_specialText x
      · refine ordinary_append.2 ⟨ordinary_signText x, ?_⟩
        split
        · decide
        · exact Decimal.ordinary_text _

end Double

end TinyLisp
